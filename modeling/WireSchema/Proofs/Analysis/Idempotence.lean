import WireSchema.Proofs.Analysis.Agreement

/-!
# Analysing what has been analysed

A layout overwrites the offsets of a stream, and no pass reads them. A stream that has been laid out
is therefore like the stream before, its layout assigns the offsets that it has already, and an
analysis of it finds what was found the first time.

Results:

1. `layOutWith_of_layOutWith`: against one index, a layout is its own layout.
2. `analyse_of_analyse`: so is the outcome of the whole analysis, under every policy.
-/

namespace WireSchema.TokenStream

variable {s r : TokenStream}

/-- The same offsets may be assigned once more. -/
theorem zipWith_zipWith (s : TokenStream) (offsets : List Offset) :
    List.zipWith Token.withOffset (List.zipWith Token.withOffset s offsets) offsets
      = List.zipWith Token.withOffset s offsets := by
  induction s generalizing offsets with
  | nil => rfl
  | cons token rest ih =>
    cases offsets with
    | nil => rfl
    | cons offset others => exact congrArg (token.withOffset offset :: ·) (ih others)

theorem layOutWith_of_layOutWith {i : Index} (laid : s.layOutWith i = .ok r) :
    r.layOutWith i = .ok r := by
  rcases layOutWith_of_alike (alike_of_layOutWith laid) i with
    ⟨e, failed, _⟩ | ⟨offsets, _, assigned, again⟩
  · rw [laid] at failed
    cases failed
  · obtain rfl := Except.ok.inj (laid.symm.trans assigned)
    rw [again, zipWith_zipWith]

theorem layOut_of_layOut (laid : s.layOut = .ok r) : r.layOut = .ok r := by
  obtain ⟨i, indexed, laid⟩ := layOut_eq_ok_iff.mp laid
  have same : r.index true = .ok i := by
    rw [index_congr (signals_of_alike (alike_of_layOutWith laid)), indexed]
  exact layOut_eq_ok_iff.mpr ⟨i, same, layOutWith_of_layOutWith laid⟩

/-- An analysis succeeds with the results of its passes, and with an index that is not refused. -/
theorem analyse_eq_ok_iff {policy : Policy} {a : Analysis} :
    s.analyse policy = .ok a ↔
      s.index policy.allowEmpty = .ok a.index ∧ s.layOutWith a.index = .ok a.stream ∧
        a.stream.checkIndex a.index = .ok () ∧ a.stream.pairReferences = .ok a.links := by
  simp only [analyse, bind_eq_ok_iff, mapError_eq_ok_iff]
  constructor
  · rintro ⟨i, indexed, stream, laid, _, checked, links, paired, same⟩
    obtain rfl := Except.ok.inj same
    exact ⟨indexed, laid, checked, paired⟩
  · rintro ⟨indexed, laid, checked, paired⟩
    exact ⟨_, indexed, _, laid, (), checked, _, paired, rfl⟩

/-- Analysing the stream of an analysis yields the same analysis, and laying out a layout yields the
same layout, whether or not its references can be paired. -/
theorem analyse_of_analyse (s : TokenStream) :
    (∀ policy a, s.analyse policy = .ok a → a.stream.analyse policy = .ok a) ∧
      ∀ r, s.layOut = .ok r → r.layOut = .ok r := by
  constructor
  · intro policy a analysed
    obtain ⟨indexed, laid, linked⟩ := analyse_eq_ok_iff.mp analysed
    have same : a.stream.index policy.allowEmpty = .ok a.index := by
      rw [index_congr (signals_of_alike (alike_of_layOutWith laid)), indexed]
    exact analyse_eq_ok_iff.mpr ⟨same, layOutWith_of_layOutWith laid, linked⟩
  · intro r laid
    exact layOut_of_layOut laid

/-- A group of leaves, and a leaf behind it, with offsets left over from other layouts. -/
def staleReport : TokenStream :=
  [(Token.structural (.start .message) ⟨"report", some 9, none, default, none⟩).withOffset
     (.known 70),
   (Token.leaf .uint16 .littleEndian ⟨"entryCount", some 1, some 2, default, none⟩).withOffset
     (.known 4294967295),
   (Token.structural (.start .group) ⟨"entries", some 2, some 1, default, none⟩).withOffset
     .unknown,
   .leaf .uint32 .littleEndian ⟨"price", none, none, default, none⟩,
   .structural (.stop .group) ⟨"entries", some 2, some 1, default, none⟩,
   (Token.leaf .uint8 .littleEndian ⟨"flags", none, none, default, none⟩).withOffset (.known 3),
   .structural (.stop .message) ⟨"report", some 9, none, default, none⟩]

/-- A leaf behind another one, with a reference to an identifier that nothing carries. -/
def danglingLeaves : TokenStream :=
  [(Token.leaf .double .littleEndian ⟨"x", none, none, default, none⟩).withOffset (.known 5),
   .leaf .double .littleEndian ⟨"y", some 1, some 2, default, none⟩]

theorem staleReport_analyse :
    (∃ a, staleReport.analyse ⟨false⟩ = .ok a ∧ a.stream.analyse ⟨false⟩ = .ok a) ∧
      (∃ e, danglingLeaves.analyse ⟨false⟩ = .error e) ∧
      ∃ r, danglingLeaves.layOut = .ok r ∧ r.layOut = .ok r :=
  ⟨⟨_, rfl, (analyse_of_analyse staleReport).1 ⟨false⟩ _ rfl⟩, ⟨_, rfl⟩,
    ⟨_, rfl, (analyse_of_analyse danglingLeaves).2 _ rfl⟩⟩

end WireSchema.TokenStream
