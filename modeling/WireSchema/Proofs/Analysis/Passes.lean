import WireSchema.Proofs.Analysis.Agreement
import WireSchema.Proofs.Reference.Defects

/-!
# The passes of an analysis

The analysis indexes a stream once and hands the index on, to the layout of the same stream and to
the pairing of the stream that has been laid out. On their own, the layout and the pairing index the
stream again. The two ways agree: no pass looks at the offsets that tokens carry, and the index of a
stream never disagrees with it. The errors that report a disagreement, or a stream that is not well
nested, are therefore never met behind the first pass.

Results:

1. `index_of_layOut`, `pairReferences_of_layOut`: the other passes find in the stream that has been
   laid out what they find in the stream itself.
2. `overflow_of_layOut`: how the layout fails on a stream that is well nested.
3. `analyse_passes`: the analysis does what the three passes do on their own.
-/

namespace WireSchema

namespace TokenStream

/-! ## How a pass fails -/

/-- A stream that is well nested can only fail to be laid out for an overflow. -/
theorem overflow_of_layOut {f : Forest} (proper : f.Proper) {e : LayoutError}
    (failed : f.tokens.layOut = .error e) : ∃ last, e = .overflow last := by
  rw [layOut_of_proper proper] at failed
  exact Forest.overflow_of_layOut (bind_pure_eq_error_iff.mp failed)

/-! ## The other passes over a stream that has been laid out -/

section

variable {s r : TokenStream}

theorem signals_of_layOut (laid : s.layOut = .ok r) : r.signals = s.signals :=
  signals_of_alike (alike_of_layOut laid)

theorem index_of_layOut (laid : s.layOut = .ok r) (allowEmpty : Bool) :
    r.index allowEmpty = s.index allowEmpty :=
  index_congr (signals_of_layOut laid) allowEmpty

theorem pairReferences_of_layOut (laid : s.layOut = .ok r) :
    r.pairReferences = s.pairReferences :=
  pairReferences_of_alike (alike_of_layOut laid)

end

/-- Behind the index, the analysis lays the stream out and pairs its references. -/
theorem analyse_of_index {s : TokenStream} {policy : Policy} {i : Index}
    (indexed : s.index policy.allowEmpty = .ok i) :
    s.analyse policy =
      match s.layOut with
      | .error e => .error (.layout e)
      | .ok r =>
        match s.link with
        | .error e => .error (.links e)
        | .ok x => .ok ⟨r, i, x⟩ := by
  obtain ⟨_, f, proper, rfl, rfl⟩ := index_eq_ok_iff.mp indexed
  have alone : f.tokens.layOutWith f.index = f.tokens.layOut := by
    rw [layOut, index_of_proper proper]
  rw [analyse, indexed, link_of_proper proper]
  simp only [mapError_ok, ok_bind, alone]
  cases laid : f.tokens.layOut with
  | error e => rfl
  | ok r =>
    have checked : r.checkIndex f.index = .ok () := by
      rw [checkIndex, disagreement_congr (signals_of_layOut laid),
        Index.disagreement_of_proper proper]
    simp only [mapError_ok, ok_bind, checked, pairReferences_of_layOut laid]
    cases f.tokens.pairReferences <;> rfl

/-- The analysis does what the three passes do on their own, one after the other: it stops with the
first error, which is never one about the index, and otherwise yields the results of all three. -/
theorem analyse_passes (s : TokenStream) (policy : Policy) :
    (∀ e, s.index policy.allowEmpty = .error e → s.analyse policy = .error (.nesting e)) ∧
      (∀ i e, s.index policy.allowEmpty = .ok i → s.layOut = .error e →
        s.analyse policy = .error (.layout e) ∧ ∃ last, e = .overflow last) ∧
      (∀ i r e, s.index policy.allowEmpty = .ok i → s.layOut = .ok r → s.link = .error e →
        s.analyse policy = .error (.links e) ∧ ∀ cause, e ≠ .unresolved cause) ∧
      (∀ i r x, s.index policy.allowEmpty = .ok i → s.layOut = .ok r → s.link = .ok x →
        s.analyse policy = .ok ⟨r, i, x⟩ ∧ r.index policy.allowEmpty = .ok i) ∧
      (∀ position, s.analyse policy ≠ .error (.layout (.foreignIndex position))) ∧
      (∀ e, s.analyse policy ≠ .error (.layout (.malformed e))) ∧
      ∀ cause, s.analyse policy ≠ .error (.links (.unresolved cause)) := by
  cases indexed : s.index policy.allowEmpty with
  | error e =>
    have failed : s.analyse policy = .error (.nesting e) := by
      rw [analyse, indexed, mapError_error, error_bind]
    rw [failed]
    simp
  | ok i =>
    obtain ⟨_, f, proper, spelled, _⟩ := index_eq_ok_iff.mp indexed
    rw [analyse_of_index indexed]
    cases laid : s.layOut with
    | error e =>
      obtain ⟨last, rfl⟩ := overflow_of_layOut proper (spelled ▸ laid)
      simp
    | ok r =>
      have again := index_of_layOut laid policy.allowEmpty
      rw [indexed] at again
      cases linked : s.link with
      | error e =>
        have own (cause : LayoutError) : e ≠ .unresolved cause := by
          rw [← spelled, link_of_proper proper] at linked
          exact ne_unresolved_of_pairReferences linked cause
        simp [own]
      | ok x => simp [again]

/-- A group behind the leaf that counts its entries. -/
def countedGroup : TokenStream :=
  [.structural (.start .message) ⟨"order", some 9, none, default, none⟩,
   .leaf .uint16 .littleEndian ⟨"fillCount", some 1, some 2, default, none⟩,
   .structural (.start .group) ⟨"fills", some 2, some 1, default, none⟩,
   .leaf .uint32 .littleEndian ⟨"price", none, none, default, none⟩,
   .structural (.stop .group) ⟨"fills", some 2, some 1, default, none⟩,
   .structural (.stop .message) ⟨"order", some 9, none, default, none⟩]

theorem countedGroup_passes :
    ∃ r i x, countedGroup.index false = .ok i ∧ countedGroup.layOut = .ok r ∧
      countedGroup.link = .ok x ∧ countedGroup.analyse ⟨false⟩ = .ok ⟨r, i, x⟩ ∧
      r.index false = .ok i :=
  ⟨_, _, _, rfl, rfl, rfl, (analyse_passes countedGroup ⟨false⟩).2.2.2.1 _ _ _ rfl rfl rfl⟩

end TokenStream

end WireSchema
