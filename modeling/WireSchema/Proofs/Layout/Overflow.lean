import Mathlib.Data.List.Nodup
import Mathlib.Order.Bounds.Basic
import WireSchema.Proofs.Layout.Absolute

/-!
# Overflow at every level

The units of a stream at all of its levels, each of them with the sizes of the siblings in front of
it. A unit overflows when it and all of these siblings are of fixed size and their sizes together
exceed what 32 bits hold. It does so whether or not anything depends on the extent of the entity
that it belongs to: the units inside a group, or inside an entity that declares a varying size,
overflow like all others.

Results:

1. `overflows_eq`: the exact layout lists the last positions of the units that overflow.
2. `units_ascending`: units are listed in the order in which they end.
3. `layOut_overflow_exact`: a layout reports the unit that overflows and ends first, and assigns the
   exact offsets when there is none.
-/

namespace WireSchema

/-- A unit among its siblings. -/
structure Sibling where
  /-- The bytes of the units in front of it in the same entity, or at the top level. -/
  before : List (Option Nat)
  bytes : Option Nat
  /-- The position of the unit itself, or of its end when it is an entity. -/
  last : Nat

/-- The unit and all siblings in front of it are of fixed size, and the sum of their sizes exceeds
what 32 bits hold. -/
def Sibling.Overflows (u : Sibling) : Prop :=
  ∃ sizes : List Nat, u.before ++ [u.bytes] = sizes.map some ∧ 4294967295 < sizes.sum

namespace Forest

/-- The units at all levels, given the position of the first token and the bytes of the siblings in
front of the first unit. -/
def units (position : Nat) (before : List (Option Nat)) : Forest → List Sibling
  | empty => []
  | point token rest =>
    ⟨before, ownBytes token, position⟩ :: rest.units (position + 1) (before ++ [ownBytes token])
  | entity start inside _ rest =>
    let stop := position + 1 + inside.tokens.length
    let bytes := entityBytes start inside.bytes
    inside.units (position + 1) []
      ++ ⟨before, bytes, stop⟩ :: rest.units (stop + 1) (before ++ [bytes])

/-! ## Sums over siblings -/

theorem total_concat (front : List (Option Nat)) (count : Option Nat) :
    total (front ++ [count]) = behind (total front) count := by
  rw [total_append, total_cons, behind_total_nil]

theorem total_eq_some_iff_exists {counts : List (Option Nat)} {n : Nat} :
    total counts = some n ↔ ∃ sizes : List Nat, counts = sizes.map some ∧ sizes.sum = n := by
  rw [total_eq_some_iff]
  constructor
  · rintro ⟨known, rfl⟩
    refine ⟨counts.map fun count => count.getD 0, ?_, rfl⟩
    rw [List.map_map]
    refine (List.map_id counts).symm.trans (List.map_congr_left fun count listed => ?_)
    obtain ⟨size, rfl⟩ := Option.ne_none_iff_exists'.mp (known count listed)
    rfl
  · rintro ⟨sizes, rfl, rfl⟩
    refine ⟨?_, ?_⟩
    · rintro count listed rfl
      obtain ⟨size, _, same⟩ := List.mem_map.mp listed
      cases same
    · rw [List.map_map]
      exact congrArg List.sum (List.map_id sizes)

end Forest

namespace Sibling

open Forest

variable {u : Sibling}

theorem overflows_iff_exceeds : u.Overflows ↔ exceeds (total (u.before ++ [u.bytes])) = true := by
  rw [exceeds, Option.any_eq_true]
  constructor
  · rintro ⟨sizes, fixed, beyond⟩
    exact ⟨sizes.sum, total_eq_some_iff_exists.mpr ⟨sizes, fixed, rfl⟩, decide_eq_true beyond⟩
  · rintro ⟨n, sum, beyond⟩
    obtain ⟨sizes, fixed, rfl⟩ := total_eq_some_iff_exists.mp sum
    exact ⟨sizes, fixed, of_decide_eq_true beyond⟩

/-- Behind a sibling of varying size nothing overflows. -/
theorem not_overflows_of_varying (varies : none ∈ u.before) : ¬u.Overflows := by
  rintro ⟨sizes, fixed, _⟩
  have listed : none ∈ sizes.map some := by
    rw [← fixed]
    exact List.mem_append_left _ varies
  obtain ⟨size, _, same⟩ := List.mem_map.mp listed
  cases same

/-- The largest sum is accepted. -/
theorem not_overflows_of_le {sizes : List Nat} (fixed : u.before ++ [u.bytes] = sizes.map some)
    (within : sizes.sum ≤ 4294967295) : ¬u.Overflows := by
  rintro ⟨others, same, beyond⟩
  have equal : sizes = others :=
    List.map_injective_iff.mpr (Option.some_injective Nat) (fixed.symm.trans same)
  rw [equal] at within
  exact Nat.not_lt.mpr within beyond

end Sibling

namespace Forest

/-! ## The order of the units -/

theorem last_of_mem_units {f : Forest} {position : Nat} {before : List (Option Nat)} {u : Sibling}
    (listed : u ∈ f.units position before) :
    position ≤ u.last ∧ u.last < position + f.tokens.length := by
  induction f generalizing position before with
  | empty => cases listed
  | point token rest ih =>
    simp only [tokens, List.length_cons]
    rcases List.mem_cons.mp listed with rfl | later
    · dsimp only
      omega
    · have bounds := ih later
      omega
  | entity start inside stop rest inside_ih rest_ih =>
    simp only [tokens, List.length_cons, List.length_append]
    rcases List.mem_append.mp listed with inner | others
    · have bounds := inside_ih inner
      omega
    · rcases List.mem_cons.mp others with rfl | outer
      · dsimp only
        omega
      · have bounds := rest_ih outer
        omega

/-- Units are listed in the order in which they end. -/
theorem units_ascending (f : Forest) (position : Nat) (before : List (Option Nat)) :
    (f.units position before).Pairwise fun u v => u.last < v.last := by
  induction f generalizing position before with
  | empty => exact .nil
  | point token rest ih =>
    refine List.pairwise_cons.mpr ⟨fun v later => ?_, ih _ _⟩
    exact (last_of_mem_units later).1
  | entity start inside stop rest inside_ih rest_ih =>
    have behind_stop (v : Sibling)
        (later : v ∈ rest.units (position + 1 + inside.tokens.length + 1)
          (before ++ [entityBytes start inside.bytes])) :
        position + 1 + inside.tokens.length < v.last := (last_of_mem_units later).1
    refine List.pairwise_append.mpr ⟨inside_ih _ _,
      List.pairwise_cons.mpr ⟨behind_stop, rest_ih _ _⟩, fun u inner v others => ?_⟩
    have before_stop := (last_of_mem_units inner).2
    rcases List.mem_cons.mp others with rfl | outer
    · exact before_stop
    · exact Nat.lt_trans before_stop (behind_stop v outer)

/-- A unit is known by its last position. -/
theorem eq_of_mem_units {f : Forest} {position : Nat} {before : List (Option Nat)} {u v : Sibling}
    (u_listed : u ∈ f.units position before) (v_listed : v ∈ f.units position before)
    (same : u.last = v.last) : u = v := by
  have apart : ((f.units position before).map Sibling.last).Nodup :=
    List.pairwise_map.mpr ((f.units_ascending position before).imp Nat.ne_of_lt)
  exact List.inj_on_of_nodup_map apart u_listed v_listed same

/-! ## The overflows of the exact layout -/

/-- The exact layout lists the last positions of the units that overflow. -/
theorem overflows_eq (f : Forest) (position : Nat) (before : List (Option Nat)) :
    f.overflows position (total before)
      = ((f.units position before).filter fun u => exceeds (total (u.before ++ [u.bytes]))).map
          Sibling.last := by
  induction f generalizing position before with
  | empty => rfl
  | point token rest ih =>
    rw [overflows, units, List.filter_cons]
    simp only [← total_concat, ih]
    split <;> rfl
  | entity start inside stop rest inside_ih rest_ih =>
    have within := inside_ih (position + 1) []
    rw [overflows, units, List.filter_append, List.map_append, List.filter_cons, ← within]
    simp only [← total_concat, rest_ih]
    split <;> rfl

theorem mem_overflows_iff {f : Forest} {last : Nat} :
    last ∈ f.overflows 0 (some 0) ↔ ∃ u ∈ f.units 0 [], u.Overflows ∧ u.last = last := by
  rw [show some 0 = total [] from rfl, overflows_eq]
  simp only [List.mem_map, List.mem_filter, Sibling.overflows_iff_exceeds, and_assoc]

theorem overflows_ascending (f : Forest) : (f.overflows 0 (some 0)).Pairwise (· < ·) := by
  rw [show some 0 = total [] from rfl, overflows_eq]
  exact List.pairwise_map.mpr ((f.units_ascending 0 []).filter _)

end Forest

namespace TokenStream

/-! ## What a layout reports -/

/-- The layout of a stream that is well nested is exact when no unit overflows, and otherwise
reports the unit that overflows and ends first. -/
theorem layOut_or_overflow {f : Forest} (proper : f.Proper) :
    ((∀ u ∈ f.units 0 [], ¬u.Overflows) ∧
        ∃ r, f.tokens.layOut = .ok r ∧ r.map (fun t => t.offset.exact) = f.offsets (some 0)) ∨
      ∃ last, IsLeast {p | ∃ u ∈ f.units 0 [], u.Overflows ∧ u.last = p} last ∧
        f.tokens.layOut = .error (.overflow last) := by
  have listed (p : Nat) : p ∈ f.overflows 0 (some 0) ↔
      ∃ u ∈ f.units 0 [], u.Overflows ∧ u.last = p := Forest.mem_overflows_iff
  have ascending := f.overflows_ascending
  cases exceeded : f.overflows 0 (some 0) with
  | nil =>
    refine .inl ⟨fun u here overflows => ?_, ?_⟩
    · have none_listed := (listed u.last).mpr ⟨u, here, overflows, rfl⟩
      rw [exceeded] at none_listed
      cases none_listed
    · obtain ⟨found, found_eq, _⟩ := Forest.layOut_of_fits 0 .zero exceeded
      obtain ⟨r, laid, _⟩ := layOut_of_laid proper found_eq
      exact ⟨r, laid, exact_of_layOut proper laid⟩
  | cons first others =>
    rw [exceeded] at listed ascending
    refine .inr ⟨first, ⟨(listed first).mp List.mem_cons_self, fun p overflows => ?_⟩, ?_⟩
    · rcases List.mem_cons.mp ((listed p).mpr overflows) with rfl | later
      · exact Nat.le_refl _
      · exact Nat.le_of_lt ((List.pairwise_cons.mp ascending).1 p later)
    · rw [layOut_of_proper proper, Forest.layOut_of_overflow 0 .zero exceeded]
      rfl

theorem layOut_eq_overflow_iff {f : Forest} (proper : f.Proper) (last : Nat) :
    f.tokens.layOut = .error (.overflow last) ↔
      IsLeast {p | ∃ u ∈ f.units 0 [], u.Overflows ∧ u.last = p} last := by
  rcases layOut_or_overflow proper with ⟨fits, r, laid, _⟩ | ⟨first, least, failed⟩
  · constructor
    · intro failed
      rw [laid] at failed
      cases failed
    · rintro ⟨⟨u, here, overflows, _⟩, _⟩
      exact absurd overflows (fits u here)
  · constructor
    · intro again
      obtain rfl := LayoutError.overflow.inj (Except.error.inj (failed.symm.trans again))
      exact least
    · intro other
      rw [failed, least.unique other]

/-- The layout of a stream that is well nested fails exactly when a unit overflows, at whichever
level, and reports the one that ends first. Otherwise every offset is the exact one. Behind a
sibling of varying size no unit overflows, and neither does one whose sum is the largest that 32
bits hold. -/
theorem layOut_overflow_exact {s : TokenStream} (nested : WellNested s.signals) :
    ∃ f : Forest, (f.Proper ∧ f.tokens = s) ∧
      ((∃ last, s.layOut = .error (.overflow last)) ↔ ∃ u ∈ f.units 0 [], u.Overflows) ∧
      (∀ last, s.layOut = .error (.overflow last) ↔
        IsLeast {p | ∃ u ∈ f.units 0 [], u.Overflows ∧ u.last = p} last) ∧
      ((∀ u ∈ f.units 0 [], ¬u.Overflows) →
        ∃ r, s.layOut = .ok r ∧ r.map (fun t => t.offset.exact) = f.offsets (some 0)) ∧
      ∀ u ∈ f.units 0 [],
        none ∈ u.before ∨
          (∃ sizes : List Nat, u.before ++ [u.bytes] = sizes.map some ∧ sizes.sum ≤ 4294967295) →
        ¬u.Overflows ∧ s.layOut ≠ .error (.overflow u.last) := by
  obtain ⟨f, proper, rfl⟩ := wellNested_iff_forest.mp nested
  have reported := layOut_eq_overflow_iff proper
  refine ⟨f, ⟨proper, rfl⟩, ?_, reported, ?_, ?_⟩
  · constructor
    · rintro ⟨last, failed⟩
      obtain ⟨u, here, overflows, _⟩ := ((reported last).mp failed).1
      exact ⟨u, here, overflows⟩
    · rintro ⟨u, here, overflows⟩
      rcases layOut_or_overflow proper with ⟨none_exceeds, _⟩ | ⟨last, _, failed⟩
      · exact absurd overflows (none_exceeds u here)
      · exact ⟨last, failed⟩
  · intro fits
    rcases layOut_or_overflow proper with ⟨_, laid⟩ | ⟨last, ⟨⟨u, here, overflows, _⟩, _⟩, _⟩
    · exact laid
    · exact absurd overflows (fits u here)
  · intro u here harmless
    have fits : ¬u.Overflows := by
      rcases harmless with varies | ⟨sizes, fixed, within⟩
      · exact Sibling.not_overflows_of_varying varies
      · exact Sibling.not_overflows_of_le fixed within
    refine ⟨fits, fun failed => ?_⟩
    obtain ⟨v, there, overflows, same⟩ := ((reported u.last).mp failed).1
    exact fits (Forest.eq_of_mem_units there here same ▸ overflows)

/-- A group in a message, behind a leaf of varying length and more bytes than 32 bits hold. Inside
the group the first two leaves come to the largest sum. -/
def crowdedGroup : TokenStream :=
  [.structural (.start .message) ⟨"dump", none, none, default, none⟩,
   .varyingLeaf .char .littleEndian ⟨"text", none, none, default, none⟩,
   (Token.leaf .uint8 .littleEndian ⟨"blob", none, none, default, none⟩).withSize
     (.fixed 4294967295),
   .leaf .uint64 .littleEndian ⟨"time", none, none, default, none⟩,
   .structural (.start .group) ⟨"pages", none, none, default, none⟩,
   (Token.leaf .uint8 .littleEndian ⟨"page", none, none, default, none⟩).withSize
     (.fixed 4294967294),
   .leaf .uint8 .littleEndian ⟨"kind", none, none, default, none⟩,
   .leaf .uint8 .littleEndian ⟨"more", none, none, default, none⟩,
   .structural (.stop .group) ⟨"pages", none, none, default, none⟩,
   .structural (.stop .message) ⟨"dump", none, none, default, none⟩]

/-- The third leaf of the group is the first unit that overflows. -/
theorem crowdedGroup_overflow :
    WellNested crowdedGroup.signals ∧ ∃ f : Forest, (f.Proper ∧ f.tokens = crowdedGroup) ∧
      IsLeast {p | ∃ u ∈ f.units 0 [], u.Overflows ∧ u.last = p} 7 ∧
      crowdedGroup.layOut = .error (.overflow 7) := by
  have nested : WellNested crowdedGroup.signals :=
    wellNested_of_index (rfl : crowdedGroup.index true = .ok _)
  have failed : crowdedGroup.layOut = .error (.overflow 7) := rfl
  obtain ⟨f, spelled, _, reported, _⟩ := layOut_overflow_exact nested
  exact ⟨nested, f, spelled, (reported 7).mp failed, failed⟩

end TokenStream

end WireSchema
