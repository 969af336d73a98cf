import Mathlib.Data.List.Forall2
import WireSchema.Analysis
import WireSchema.Proofs.Layout.Offsets
import WireSchema.Proofs.Reference.Pairing

/-!
# What the passes look at

Most of what a token says is carried along for readers of the stream. The nesting depends on the
signals; the layout depends besides on the sizes of leaves and markers, and on whether a start
declares a varying size; the references depend besides on the identifiers of all tokens but ends.
Two streams that agree on this much are alike, and no pass tells them apart: each comes to the same
result on both, or fails with the same error.

A suspended entity keeps the size that its start declares until the end is met, so that the layouts
of two streams that are alike go through states that are alike only, not equal.

Results:

1. `offsets_of_alike`, `anchors_of_alike`, `partners_of_alike`: one walk of each pass over two
   streams that are alike.
2. `passes_of_alike`: no pass tells streams that are alike apart, and neither does the analysis.
-/

namespace WireSchema

/-! ## Streams that are alike -/

/-- Two tokens agree on everything that some pass looks at. -/
structure Token.Alike (t u : Token) : Prop where
  signal : u.signal = t.signal
  /-- Leaves and markers are of the same size. -/
  size : t.signal.isStart = false → t.signal.isEnd = false → u.size = t.size
  /-- Starts declare a varying size together. -/
  declared : t.signal.isStart = true → u.size.isVarying = t.size.isVarying
  id : t.signal.isEnd = false → u.id = t.id
  xref : t.signal.isEnd = false → u.xref = t.xref

namespace Token

instance (t u : Token) : Decidable (t.Alike u) :=
  decidable_of_iff
    (u.signal = t.signal ∧
      (t.signal.isStart = false → t.signal.isEnd = false → u.size = t.size) ∧
      (t.signal.isStart = true → u.size.isVarying = t.size.isVarying) ∧
      (t.signal.isEnd = false → u.id = t.id) ∧ (t.signal.isEnd = false → u.xref = t.xref))
    ⟨fun ⟨signal, size, declared, id, xref⟩ => ⟨signal, size, declared, id, xref⟩,
      fun h => ⟨h.signal, h.size, h.declared, h.id, h.xref⟩⟩

theorem alike_withOffset (t : Token) (offset : Offset) : t.Alike (t.withOffset offset) :=
  ⟨rfl, fun _ _ => rfl, fun _ => rfl, fun _ => rfl, fun _ => rfl⟩

theorem Alike.withOffset {t u : Token} (alike : t.Alike u) (offset : Offset) :
    (t.withOffset offset).Alike (u.withOffset offset) :=
  ⟨alike.signal, alike.size, alike.declared, alike.id, alike.xref⟩

end Token

namespace TokenStream

variable {s r : TokenStream}

theorem signals_of_alike (alike : List.Forall₂ Token.Alike s r) : r.signals = s.signals := by
  induction alike with
  | nil => rfl
  | cons here _ ih => exact congrArg₂ List.cons here.signal ih

theorem alike_zipWith {offsets : List Offset} (sized : offsets.length = s.length) :
    List.Forall₂ Token.Alike s (List.zipWith Token.withOffset s offsets) := by
  induction s generalizing offsets with
  | nil => exact .nil
  | cons token rest ih =>
    cases offsets with
    | nil => cases sized
    | cons offset others => exact .cons (token.alike_withOffset offset) (ih (Nat.succ.inj sized))

/-- Streams that are alike stay so when they get the same offsets. -/
theorem alike_zipWith_zipWith (alike : List.Forall₂ Token.Alike s r) (offsets : List Offset) :
    List.Forall₂ Token.Alike (List.zipWith Token.withOffset s offsets)
      (List.zipWith Token.withOffset r offsets) := by
  induction alike generalizing offsets with
  | nil => exact .nil
  | cons here _ ih =>
    cases offsets with
    | nil => exact .nil
    | cons offset others => exact .cons (here.withOffset offset) (ih others)

/-! ## Nesting -/

/-- Indexing looks at the signals only. -/
theorem index_congr (same : r.signals = s.signals) (allowEmpty : Bool) :
    r.index allowEmpty = s.index allowEmpty := by
  have empty : r.isEmpty = s.isEmpty := by
    simpa [signals] using congrArg List.isEmpty same
  rw [index, index, same, empty]

/-- So does the comparison of an index with a stream. -/
theorem disagreement_congr (same : r.signals = s.signals) (i : Index) :
    i.disagreement r = i.disagreement s := by
  have size : r.length = s.length := by
    simpa [signals] using congrArg List.length same
  rw [Index.disagreement, Index.disagreement, same, size]

end TokenStream

/-! ## Layout -/

namespace Layout

/-- Two suspended entities to which their ends give the same size. -/
structure Suspended.Alike (e f : Suspended) : Prop where
  position : f.position = e.position
  kind : f.kind = e.kind
  declared : f.declared.isVarying = e.declared.isVarying
  around : f.around = e.around

theorem Suspended.Alike.size {e f : Suspended} (alike : e.Alike f) (inside : Progress) :
    f.size inside = e.size inside := by
  rw [Suspended.size, Suspended.size, alike.kind, alike.declared]

/-- The layout walks over streams that are alike in the same way, as long as the entities that are
suspended are alike too. -/
theorem offsets_of_alike (index : Index) {s r : List Token}
    (alike : List.Forall₂ Token.Alike s r) {pending pending' : List Suspended}
    (around : List.Forall₂ Suspended.Alike pending pending') (progress : Progress)
    (position : Nat) :
    offsets index progress pending' position r = offsets index progress pending position s := by
  induction alike generalizing pending pending' progress position with
  | nil =>
    cases around with
    | nil => rfl
    | cons innermost _ => rw [offsets, offsets, innermost.position]
  | @cons token other rest others here later ih =>
    cases signal : token.signal with
    | stop kind =>
      rw [offsets, offsets, here.signal, signal]
      cases around with
      | nil => rfl
      | cons innermost outer =>
        dsimp only
        rw [innermost.position, innermost.kind, innermost.around, innermost.size]
        simp only [ih outer]
    | start kind =>
      have entity : Suspended.Alike ⟨position, kind, token.size, progress⟩
          ⟨position, kind, other.size, progress⟩ :=
        ⟨rfl, rfl, here.declared (by rw [signal]; rfl), rfl⟩
      rw [offsets_start signal, offsets_start (here.signal.trans signal), ih (.cons entity around)]
    | enumValue | setChoice | encoding =>
      have noStart : token.signal.isStart = false := by rw [signal]; rfl
      have noEnd : token.signal.isEnd = false := by rw [signal]; rfl
      rw [offsets_point noStart noEnd,
        offsets_point (here.signal ▸ noStart) (here.signal ▸ noEnd), here.size noStart noEnd]
      simp only [ih around]

end Layout

namespace TokenStream

variable {s r : TokenStream}

/-- The layouts of streams that are alike fail together, or assign the same offsets. -/
theorem layOutWith_of_alike (alike : List.Forall₂ Token.Alike s r) (i : Index) :
    (∃ e, s.layOutWith i = .error e ∧ r.layOutWith i = .error e) ∨
      ∃ offsets, offsets.length = s.length ∧
        s.layOutWith i = .ok (List.zipWith Token.withOffset s offsets) ∧
        r.layOutWith i = .ok (List.zipWith Token.withOffset r offsets) := by
  have walked := Layout.offsets_of_alike i alike .nil .zero 0
  rw [layOutWith, layOutWith, ← alike.length_eq, walked]
  split
  · cases outcome : Layout.offsets i .zero [] 0 s with
    | error e => exact .inl ⟨e, rfl, rfl⟩
    | ok offsets => exact .inr ⟨offsets, Layout.offsets_length outcome, rfl, rfl⟩
  · exact .inl ⟨_, rfl, rfl⟩

theorem offsets_of_layOutWith_of_alike (alike : List.Forall₂ Token.Alike s r) (i : Index) :
    (r.layOutWith i).map (List.map Token.offset)
      = (s.layOutWith i).map (List.map Token.offset) := by
  rcases layOutWith_of_alike alike i with ⟨e, failed, failed'⟩ | ⟨offsets, sized, laid, laid'⟩
  · rw [failed, failed']
  · rw [laid, laid']
    show Except.ok _ = Except.ok _
    rw [offsets_of_zipWith sized, offsets_of_zipWith (sized.trans alike.length_eq)]

/-- A layout keeps everything that a pass looks at. -/
theorem alike_of_layOutWith {i : Index} (laid : s.layOutWith i = .ok r) :
    List.Forall₂ Token.Alike s r := by
  rw [layOutWith] at laid
  split at laid
  · obtain ⟨offsets, walked, laid⟩ := bind_eq_ok_iff.mp laid
    obtain rfl := Except.ok.inj laid
    exact alike_zipWith (Layout.offsets_length walked)
  · cases laid

theorem layOut_eq_ok_iff :
    s.layOut = .ok r ↔ ∃ i, s.index true = .ok i ∧ s.layOutWith i = .ok r := by
  rw [layOut]
  cases s.index true with
  | error e => simp
  | ok i => simp

theorem alike_of_layOut (laid : s.layOut = .ok r) : List.Forall₂ Token.Alike s r := by
  obtain ⟨i, _, laid⟩ := layOut_eq_ok_iff.mp laid
  exact alike_of_layOutWith laid

end TokenStream

/-! ## References -/

namespace Reference

variable {s r : List Token}

theorem anchors_of_alike (alike : List.Forall₂ Token.Alike s r) (known : Anchors)
    (position : Nat) : anchors known position r = anchors known position s := by
  induction alike generalizing known position with
  | nil => rfl
  | @cons token other rest others here _ ih =>
    rw [anchors, anchors, here.signal]
    cases ends : token.signal.isEnd with
    | true => exact ih known (position + 1)
    | false =>
      rw [here.id ends, here.xref ends]
      simp only [ih]

theorem partnerOf_of_alike {token other : Token} (alike : token.Alike other) (known : Anchors)
    (position : Nat) : partnerOf known position other = partnerOf known position token := by
  rw [partnerOf, partnerOf, alike.signal]
  cases ends : token.signal.isEnd with
  | true => rfl
  | false => rw [alike.id ends, alike.xref ends]

theorem pairing_of_alike (alike : List.Forall₂ Token.Alike s r) (known : Anchors)
    (position : Nat) : pairing known position r = pairing known position s := by
  induction alike generalizing position with
  | nil => rfl
  | cons here _ ih => rw [pairing_cons, pairing_cons, partnerOf_of_alike here, ih]

end Reference

namespace TokenStream

variable {s r : TokenStream}

theorem pairReferences_of_alike (alike : List.Forall₂ Token.Alike s r) :
    r.pairReferences = s.pairReferences := by
  rw [pairReferences, pairReferences, Reference.anchors_of_alike alike]
  simp only [Reference.pairing_of_alike alike]

theorem checkIndex_of_alike (alike : List.Forall₂ Token.Alike s r) (i : Index) :
    r.checkIndex i = s.checkIndex i := by
  rw [checkIndex, checkIndex, disagreement_congr (signals_of_alike alike)]

theorem linkWith_of_alike (alike : List.Forall₂ Token.Alike s r) (i : Index) :
    r.linkWith i = s.linkWith i := by
  rw [linkWith, linkWith, checkIndex_of_alike alike, pairReferences_of_alike alike]

theorem link_of_alike (alike : List.Forall₂ Token.Alike s r) : r.link = s.link := by
  rw [link, link, index_congr (signals_of_alike alike)]
  simp only [linkWith_of_alike alike]

theorem offsets_of_layOut_of_alike (alike : List.Forall₂ Token.Alike s r) :
    r.layOut.map (List.map Token.offset) = s.layOut.map (List.map Token.offset) := by
  rw [layOut, layOut, index_congr (signals_of_alike alike)]
  cases s.index true with
  | error e => rfl
  | ok i => exact offsets_of_layOutWith_of_alike alike i

end TokenStream

/-! ## All passes -/

/-- What an analysis finds out about a stream, without the tokens that it carries along. -/
def Analysis.findings (a : Analysis) : Index × Links × List Offset :=
  (a.index, a.links, a.stream.map Token.offset)

namespace TokenStream

variable {s r : TokenStream}

theorem findings_of_alike (alike : List.Forall₂ Token.Alike s r) (policy : Policy) :
    (r.analyse policy).map Analysis.findings = (s.analyse policy).map Analysis.findings := by
  rw [analyse, analyse, index_congr (signals_of_alike alike)]
  cases s.index policy.allowEmpty with
  | error e => rfl
  | ok i =>
    rcases layOutWith_of_alike alike i with ⟨e, failed, failed'⟩ | ⟨offsets, sized, laid, laid'⟩
    · simp only [mapError_ok, ok_bind, failed, failed']
    · have laid_alike := alike_zipWith_zipWith alike offsets
      simp only [mapError_ok, ok_bind, laid, laid', checkIndex_of_alike laid_alike,
        pairReferences_of_alike laid_alike]
      cases checkIndex (List.zipWith Token.withOffset s offsets) i with
      | error e => rfl
      | ok _ =>
        cases pairReferences (List.zipWith Token.withOffset s offsets) with
        | error e => rfl
        | ok x =>
          show Except.ok (i, x, _) = Except.ok (i, x, _)
          rw [offsets_of_zipWith sized, offsets_of_zipWith (sized.trans alike.length_eq)]

/-- No pass tells streams that are alike apart: each comes to the same result on both, or fails with
the same error, and so does the analysis. -/
theorem passes_of_alike (alike : List.Forall₂ Token.Alike s r) (policy : Policy) :
    (∀ allowEmpty, r.index allowEmpty = s.index allowEmpty) ∧
      r.layOut.map (List.map Token.offset) = s.layOut.map (List.map Token.offset) ∧
      r.link = s.link ∧
      (r.analyse policy).map Analysis.findings = (s.analyse policy).map Analysis.findings :=
  ⟨index_congr (signals_of_alike alike), offsets_of_layOut_of_alike alike, link_of_alike alike,
    findings_of_alike alike policy⟩

/-- A group behind the leaf that counts its entries. -/
def countedTrades : TokenStream :=
  [.structural (.start .message) ⟨"report", some 9, none, default, none⟩,
   .leaf .uint32 .littleEndian ⟨"tradeCount", some 1, some 2, default, none⟩,
   .structural (.start .group) ⟨"trades", some 2, some 1, default, none⟩,
   .leaf .float .littleEndian ⟨"price", none, none, default, none⟩,
   .leaf .uint8 .littleEndian ⟨"flags", none, none, default, none⟩,
   .structural (.stop .group) ⟨"trades", some 2, some 1, default, none⟩,
   .structural (.stop .message) ⟨"report", some 9, none, default, none⟩]

/-- The same schema under other names, with other encodings of the same sizes, offsets of an earlier
layout, fixed sizes on its starts, and ends that repeat identifiers of other tokens. -/
def renamedTrades : TokenStream :=
  [(Token.structural (.start .message) ⟨"r", some 9, none, .optional, some "daily"⟩).withSize
     (.fixed 40),
   (Token.leaf .float .bigEndian ⟨"n", some 1, some 2, .constant, none⟩).withOffset (.known 12),
   ((Token.structural (.start .group) ⟨"t", some 2, some 1, default, none⟩).withSize
     (.fixed 4294967295)).withOffset .unknown,
   (Token.leaf .int32 .bigEndian ⟨"", none, none, .optional, some ""⟩).withOffset (.known 4),
   .leaf .char .littleEndian ⟨"", none, none, default, none⟩,
   (Token.structural (.stop .group) ⟨"", some 1, some 77, default, none⟩).withSize .varying,
   .structural (.stop .message) ⟨"", none, some 9, default, none⟩]

theorem renamedTrades_passes :
    List.Forall₂ Token.Alike countedTrades renamedTrades ∧
      (∀ allowEmpty, renamedTrades.index allowEmpty = countedTrades.index allowEmpty) ∧
      renamedTrades.layOut.map (List.map Token.offset)
        = countedTrades.layOut.map (List.map Token.offset) ∧
      renamedTrades.link = countedTrades.link ∧
      (renamedTrades.analyse ⟨false⟩).map Analysis.findings
        = (countedTrades.analyse ⟨false⟩).map Analysis.findings :=
  have alike : List.Forall₂ Token.Alike countedTrades renamedTrades := by decide
  ⟨alike, passes_of_alike alike ⟨false⟩⟩

end TokenStream

end WireSchema
