import WireSchema.Proofs.Layout.Offsets
import WireSchema.Reference

/-!
# Layout against a foreign index

The layout takes the index of a stream on trust and asks it one question only: which start an end
closes. Pairing references compares the whole index with the stream first. The two refuse different
indexes: an index with more entities than the stream goes unnoticed by the layout, as long as it has
all entities of the stream among its own. It does no harm there: no index at all can make the layout
yield other offsets than those of the stream, or yield any for a stream that is not well nested.

Results:

1. `closes_of_offsets`, `startOf?_of_offsets`: what the layout accepts is well nested, and the index
   knows the start of every end.
2. `layOutWith_eq_ok_iff`: the layout against an index is the layout of the stream, as long as the
   index has its length and its brackets.
3. `layOutWith_foreign_iff`: which indexes of other streams the layout accepts.
4. `pairedLeaves_accepted`: an index that pairs two leaves is accepted.
5. `layOutWith_sound`: what the layout yields does not depend on the index.
-/

namespace WireSchema

/-! ## What the layout checks -/

namespace Layout

variable {index : Index} {progress : Progress} {pending : List Suspended} {position : Nat}
  {token : Token} {rest : List Token} {found : List Offset}

/-- An end is accepted when the innermost open entity is of its kind and the index knows the start
of that entity as its own. -/
theorem exists_of_offsets_stop {kind : EntityKind} (stops : token.signal = .stop kind)
    (walked : offsets index progress pending position (token :: rest) = .ok found) :
    ∃ innermost outer around later, pending = innermost :: outer ∧ innermost.kind = kind ∧
      index.startOf? position = some innermost.position ∧
      offsets index around outer (position + 1) rest = .ok later := by
  rw [offsets, stops] at walked
  cases pending with
  | nil => cases walked
  | cons innermost outer =>
    dsimp only at walked
    split at walked
    · next accepted =>
      obtain ⟨around, _, walked⟩ := bind_eq_ok_iff.mp walked
      obtain ⟨later, later_eq, _⟩ := bind_eq_ok_iff.mp walked
      exact ⟨innermost, outer, around, later, rfl, accepted.2, accepted.1, later_eq⟩
    · cases walked

theorem exists_of_offsets_start {kind : EntityKind} (starts : token.signal = .start kind)
    (walked : offsets index progress pending position (token :: rest) = .ok found) :
    ∃ later, offsets index .zero (⟨position, kind, token.size, progress⟩ :: pending) (position + 1)
      rest = .ok later := by
  rw [offsets_start starts] at walked
  obtain ⟨later, later_eq, _⟩ := bind_eq_ok_iff.mp walked
  exact ⟨later, later_eq⟩

theorem exists_of_offsets_point (noStart : token.signal.isStart = false)
    (noEnd : token.signal.isEnd = false)
    (walked : offsets index progress pending position (token :: rest) = .ok found) :
    ∃ behind later, offsets index behind pending (position + 1) rest = .ok later := by
  rw [offsets_point noStart noEnd] at walked
  obtain ⟨behind, _, walked⟩ := bind_eq_ok_iff.mp walked
  obtain ⟨later, later_eq, _⟩ := bind_eq_ok_iff.mp walked
  exact ⟨behind, later, later_eq⟩

/-- Whatever the layout accepts closes the suspended entities, whichever index it is given. -/
theorem closes_of_offsets {s : TokenStream}
    (walked : offsets index progress pending position s = .ok found) :
    Closes (pending.map Suspended.kind) s := by
  induction s generalizing progress pending position found with
  | nil =>
    cases pending with
    | nil => exact .nil
    | cons innermost outer => cases walked
  | cons token rest ih =>
    cases signal : token.signal with
    | start kind =>
      obtain ⟨later, walked⟩ := exists_of_offsets_start signal walked
      exact .start signal (ih walked)
    | stop kind =>
      obtain ⟨innermost, outer, around, later, rfl, rfl, _, walked⟩ :=
        exists_of_offsets_stop signal walked
      exact .stop signal (ih walked)
    | enumValue | setChoice | encoding =>
      have noStart : token.signal.isStart = false := by rw [signal]; rfl
      have noEnd : token.signal.isEnd = false := by rw [signal]; rfl
      obtain ⟨behind, later, walked⟩ := exists_of_offsets_point noStart noEnd walked
      exact .point noStart noEnd (ih walked)

/-- When the layout accepts the tokens of a forest, the index knows the start of every end. -/
theorem startOf?_of_offsets {f : Forest} (proper : f.Proper)
    (walked : offsets index progress pending position (f.tokens ++ rest) = .ok found) :
    (∀ start stop, (start, stop) ∈ f.brackets position → index.startOf? stop = some start) ∧
      ∃ behind later,
        offsets index behind pending (position + f.tokens.length) rest = .ok later := by
  induction f generalizing progress pending position rest found with
  | empty =>
    refine ⟨?_, progress, found, walked⟩
    intro start stop listed
    cases listed
  | point token others ih =>
    obtain ⟨noStart, noEnd, others_proper⟩ := proper
    obtain ⟨behind, later, walked⟩ := exists_of_offsets_point noStart noEnd walked
    obtain ⟨closed, last⟩ := ih others_proper walked
    refine ⟨closed, ?_⟩
    rw [show position + (Forest.point token others).tokens.length
      = position + 1 + others.tokens.length by simp only [Forest.tokens, List.length_cons]; omega]
    exact last
  | entity start inside stop others inside_ih others_ih =>
    obtain ⟨⟨kind, starts, stops⟩, inside_proper, others_proper⟩ := proper
    rw [Forest.tokens, List.cons_append, List.append_assoc, List.cons_append] at walked
    obtain ⟨later, walked⟩ := exists_of_offsets_start starts walked
    obtain ⟨within, behind, later, walked⟩ := inside_ih inside_proper walked
    -- the inside leaves its own entity innermost, so that the end is compared with its start
    obtain ⟨innermost, outer, around, later, same, _, closes, walked⟩ :=
      exists_of_offsets_stop stops walked
    obtain ⟨rfl, rfl⟩ := List.cons.inj same
    obtain ⟨closed, last⟩ := others_ih others_proper walked
    constructor
    · intro a b listed
      rcases (Forest.mem_brackets_entity rfl).mp listed with here | inner | outside
      · obtain ⟨rfl, rfl⟩ := Prod.mk.inj here
        exact closes
      · exact within a b inner
      · exact closed a b outside
    · rw [show position + (Forest.entity start inside stop others).tokens.length
        = position + 1 + inside.tokens.length + 1 + others.tokens.length by
          simp only [Forest.tokens, List.length_cons, List.length_append]; omega]
      exact last

theorem overflow_of_pass {size : Size} {e : LayoutError}
    (failed : progress.pass position size = .error e) : e = .overflow position := by
  rw [Progress.pass.eq_def] at failed
  split at failed
  · split at failed
    · cases failed
    · exact (Except.error.inj failed).symm
  · cases failed

/-- The walk fails with an index that does not fit or with an overflow, whichever index it is
given. -/
theorem foreign_or_overflow_of_offsets {s : TokenStream} {e : LayoutError}
    (failed : offsets index progress pending position s = .error e) :
    ∃ p, e = .foreignIndex p ∨ e = .overflow p := by
  induction s generalizing progress pending position with
  | nil =>
    cases pending with
    | nil => cases failed
    | cons innermost outer => exact ⟨_, .inl (Except.error.inj failed).symm⟩
  | cons token rest ih =>
    rw [offsets] at failed
    split at failed
    · split at failed
      · exact ⟨_, .inl (Except.error.inj failed).symm⟩
      · split at failed
        · rcases bind_eq_error_iff.mp failed with exceeded | ⟨around, _, failed⟩
          · exact ⟨_, .inr (overflow_of_pass exceeded)⟩
          · exact ih (bind_pure_eq_error_iff.mp failed)
        · exact ⟨_, .inl (Except.error.inj failed).symm⟩
    · exact ih (bind_pure_eq_error_iff.mp failed)
    · rcases bind_eq_error_iff.mp failed with exceeded | ⟨behind, _, failed⟩
      · exact ⟨_, .inr (overflow_of_pass exceeded)⟩
      · exact ih (bind_pure_eq_error_iff.mp failed)

end Layout

namespace TokenStream

/-! ## Accepted indexes -/

variable {s r : TokenStream} {i : Index} {f g : Forest}

/-- The layout against an index succeeds when the stream can be laid out on its own and the index
has its length and knows the start of every end. It is then the layout of the stream. -/
theorem layOutWith_eq_ok_iff :
    s.layOutWith i = .ok r ↔
      i.length = s.length ∧ s.layOut = .ok r ∧
        ∃ f : Forest, f.Proper ∧ f.tokens = s ∧
          ∀ start stop, (start, stop) ∈ f.brackets 0 → i.startOf? stop = some start := by
  constructor
  · intro laid
    have walk := laid
    rw [layOutWith] at walk
    split at walk
    · next sized =>
      obtain ⟨found, walked, _⟩ := bind_eq_ok_iff.mp walk
      obtain ⟨f, proper, rfl⟩ := Layout.closes_of_offsets walked
      rw [← List.append_nil f.tokens] at walked
      have closed := (Layout.startOf?_of_offsets proper walked).1
      rw [layOutWith_of_brackets proper sized closed, ← layOut_of_proper proper] at laid
      exact ⟨sized, laid, f, proper, rfl, closed⟩
    · cases walk
  · rintro ⟨sized, laid, f, proper, rfl, closed⟩
    rw [layOutWith_of_brackets proper sized closed, ← layOut_of_proper proper, laid]

theorem foreign_or_overflow_of_layOutWith {e : LayoutError} (failed : s.layOutWith i = .error e) :
    ∃ p, e = .foreignIndex p ∨ e = .overflow p := by
  rw [layOutWith] at failed
  split at failed
  · exact Layout.foreign_or_overflow_of_offsets (bind_pure_eq_error_iff.mp failed)
  · exact ⟨_, .inl (Except.error.inj failed).symm⟩

/-- An index that knows the start of every end of a stream agrees with the stream as long as it has
no partner for a leaf or a marker. -/
theorem disagreement_eq_none_iff_of_brackets (proper : f.Proper)
    (sized : g.index.length = f.tokens.length)
    (closed : ∀ start stop, (start, stop) ∈ f.brackets 0 → g.index.startOf? stop = some start) :
    g.index.disagreement f.tokens = none ↔
      ∀ p t, f.tokens[p]? = some t → t.signal.isStart = false → t.signal.isEnd = false →
        g.index.partner? p = none := by
  have own := (Index.disagreement_eq_none_iff.mp (Index.disagreement_of_proper proper)).2
  rw [Index.disagreement_eq_none_iff]
  constructor
  · rintro ⟨_, agrees⟩ p t there noStart noEnd
    have spelled : f.tokens.signals[p]? = some t.signal := signal_of_token there
    rcases (Index.fits_iff (by simpa using spelled)).mp (agrees p t.signal spelled) with
      ⟨_, _, alone⟩ | ⟨q, kind, _, ⟨_, starts, _⟩ | ⟨_, stops, _⟩⟩
    · exact alone
    · rw [starts] at noStart
      cases noStart
    · rw [stops] at noEnd
      cases noEnd
  · intro alone
    refine ⟨sized, fun p signal spelled => ?_⟩
    have placed : f.tokens.signals.toArray[p]? = some signal := by simpa using spelled
    rw [Index.fits_iff placed]
    -- the own index says what the position is, and the brackets carry over to the other index
    rcases (Index.fits_iff placed).mp (own p signal spelled) with
      ⟨noStart, noEnd, _⟩ | ⟨q, kind, partners, ⟨before, starts, stops⟩ | ⟨behind, stops, starts⟩⟩
    · obtain ⟨t, there, rfl⟩ := token_of_signal spelled
      exact .inl ⟨noStart, noEnd, alone p t there noStart noEnd⟩
    · have bracket := Index.endOf?_index_iff.mp (Index.endOf?_of_partner? partners before)
      have closes := (Option.filter_eq_some_iff.mp (closed p q bracket)).1
      exact .inr ⟨q, kind, Index.partner?_index_symm closes, .inl ⟨before, starts, stops⟩⟩
    · have bracket := Index.startOf?_index_iff.mp (Index.startOf?_of_partner? partners behind)
      have closes := (Option.filter_eq_some_iff.mp (closed q p bracket)).1
      exact .inr ⟨q, kind, closes, .inr ⟨behind, stops, starts⟩⟩

/-- The index of another stream is refused by the layout unless it has the length of the stream,
knows the start of every end, and disagrees with the stream only in having partners for leaves or
markers. Such an index is accepted whenever the stream can be laid out at all, and the offsets are
those of the stream. -/
theorem layOutWith_foreign_iff {u : TokenStream} {allowEmpty : Bool}
    (indexed : u.index allowEmpty = .ok i) :
    (∀ r, s.layOutWith i = .ok r → s.layOut = .ok r) ∧
      ((i.disagreement s ≠ none ∧ ∃ r, s.layOutWith i = .ok r) ↔
        i.length = s.length ∧ (∃ r, s.layOut = .ok r) ∧
          (∀ own, s.index true = .ok own → ∀ start stop, own.startOf? stop = some start →
            i.startOf? stop = some start) ∧
          ∃ p t, s[p]? = some t ∧ t.signal.isStart = false ∧ t.signal.isEnd = false ∧
            i.partner? p ≠ none) := by
  obtain ⟨_, g, _, _, rfl⟩ := index_eq_ok_iff.mp indexed
  refine ⟨fun r laid => (layOutWith_eq_ok_iff.mp laid).2.1, ?_, ?_⟩
  · rintro ⟨disagrees, r, accepted⟩
    obtain ⟨sized, laid, f, proper, rfl, closed⟩ := layOutWith_eq_ok_iff.mp accepted
    refine ⟨sized, ⟨r, laid⟩, ?_, ?_⟩
    · intro own own_indexed start stop starts
      rw [index_of_proper proper] at own_indexed
      obtain rfl := Except.ok.inj own_indexed
      exact closed start stop (Index.startOf?_index_iff.mp starts)
    · rw [ne_eq, disagreement_eq_none_iff_of_brackets proper sized closed] at disagrees
      simpa only [Classical.not_forall, exists_prop] using disagrees
  · rintro ⟨sized, ⟨r, laid⟩, starts, p, t, there, noStart, noEnd, paired⟩
    obtain ⟨f, proper, rfl⟩ := exists_forest_of_layOut laid
    have closed (start stop : Nat) (listed : (start, stop) ∈ f.brackets 0) :
        g.index.startOf? stop = some start :=
      starts f.index (index_of_proper proper) start stop (Index.startOf?_index_iff.mpr listed)
    refine ⟨fun agrees => ?_, r, layOutWith_eq_ok_iff.mpr ⟨sized, laid, f, proper, rfl, closed⟩⟩
    exact paired ((disagreement_eq_none_iff_of_brackets proper sized closed).mp agrees p t there
      noStart noEnd)

/-- A message with two leaves. -/
def leavesInMessage : TokenStream :=
  [.structural (.start .message) ⟨"quote", none, none, default, none⟩,
   .leaf .uint8 .littleEndian ⟨"a", none, none, default, none⟩,
   .leaf .uint16 .littleEndian ⟨"b", none, none, default, none⟩,
   .structural (.stop .message) ⟨"quote", none, none, default, none⟩]

/-- A message with a field that has no content. -/
def fieldInMessage : TokenStream :=
  [.structural (.start .message) ⟨"quote", none, none, default, none⟩,
   .structural (.start .field) ⟨"f", none, none, default, none⟩,
   .structural (.stop .field) ⟨"f", none, none, default, none⟩,
   .structural (.stop .message) ⟨"quote", none, none, default, none⟩]

theorem fieldInMessage_foreign :
    ∃ i r, fieldInMessage.index false = .ok i ∧ i.disagreement leavesInMessage = some 1 ∧
      leavesInMessage.layOutWith i = .ok r ∧ leavesInMessage.layOut = .ok r ∧
      i.length = leavesInMessage.length ∧
      ∃ p t, leavesInMessage[p]? = some t ∧ t.signal.isStart = false ∧ t.signal.isEnd = false ∧
        i.partner? p ≠ none := by
  have foreign := layOutWith_foreign_iff (s := leavesInMessage)
    (rfl : fieldInMessage.index false = .ok _)
  obtain ⟨sized, _, _, paired⟩ := foreign.2.mp ⟨by decide, _, rfl⟩
  exact ⟨_, _, rfl, rfl, rfl, foreign.1 _ rfl, sized, paired⟩

/-- A field without content. -/
def emptyField : TokenStream :=
  [.structural (.start .field) ⟨"f", none, none, default, none⟩,
   .structural (.stop .field) ⟨"f", none, none, default, none⟩]

/-- Two leaves. -/
def pairedLeaves : TokenStream :=
  [.leaf .uint8 .littleEndian ⟨"a", none, none, default, none⟩,
   .leaf .uint8 .littleEndian ⟨"b", none, none, default, none⟩]

/-- The index of an empty field pairs the two leaves. Pairing references refuses it at once, and the
layout accepts it. -/
theorem pairedLeaves_accepted :
    ∃ i p r, emptyField.index false = .ok i ∧ i.disagreement pairedLeaves = some p ∧
      pairedLeaves.linkWith i = .error (.unresolved (.foreignIndex p)) ∧
      pairedLeaves.layOutWith i = .ok r :=
  ⟨_, _, _, rfl, rfl, rfl, rfl⟩

/-! ## Whatever the index is -/

/-- No index leads the layout astray. Whatever it yields is the layout of the stream, which is well
nested then. A stream that is not well nested is refused against every index. -/
theorem layOutWith_sound (s : TokenStream) (i : Index) :
    (∀ r, s.layOutWith i = .ok r → WellNested s.signals ∧ s.layOut = .ok r) ∧
      (¬WellNested s.signals → ∃ e, s.layOutWith i = .error e ∧
        ∃ p, e = .foreignIndex p ∨ e = .overflow p) := by
  have sound (r : TokenStream) (laid : s.layOutWith i = .ok r) :
      WellNested s.signals ∧ s.layOut = .ok r := by
    obtain ⟨_, own, f, proper, spelled, _⟩ := layOutWith_eq_ok_iff.mp laid
    exact ⟨wellNested_iff_forest.mpr ⟨f, proper, spelled⟩, own⟩
  refine ⟨sound, fun malformed => ?_⟩
  cases laid : s.layOutWith i with
  | ok r => exact absurd (sound r laid).1 malformed
  | error e => exact ⟨e, rfl, foreign_or_overflow_of_layOutWith laid⟩

/-- Two entities of which each ends inside the other. -/
def crossedEnds : TokenStream :=
  [.structural (.start .message) ⟨"quote", none, none, default, none⟩,
   .structural (.start .field) ⟨"f", none, none, default, none⟩,
   .structural (.stop .message) ⟨"quote", none, none, default, none⟩,
   .structural (.stop .field) ⟨"f", none, none, default, none⟩]

/-- The index of a message with a field does no harm to a message with two leaves, and does not help
brackets that cross. -/
theorem fieldInMessage_sound :
    ∃ i r, fieldInMessage.index false = .ok i ∧
      (leavesInMessage.layOutWith i = .ok r ∧
        WellNested leavesInMessage.signals ∧ leavesInMessage.layOut = .ok r) ∧
      ¬WellNested crossedEnds.signals ∧ ∃ e, crossedEnds.layOutWith i = .error e ∧
        ∃ p, e = .foreignIndex p ∨ e = .overflow p := by
  have malformed : ¬WellNested crossedEnds.signals :=
    not_wellNested_of_index (rfl : crossedEnds.index true = .error _)
  obtain ⟨i, indexed, r, laid⟩ : ∃ i, fieldInMessage.index false = .ok i ∧
      ∃ r, leavesInMessage.layOutWith i = .ok r := ⟨_, rfl, _, rfl⟩
  exact ⟨i, r, indexed, ⟨laid, (layOutWith_sound leavesInMessage i).1 r laid⟩, malformed,
    (layOutWith_sound crossedEnds i).2 malformed⟩

end TokenStream

end WireSchema
