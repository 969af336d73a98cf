import WireSchema.Proofs.Nesting.Scan

/-!
# Walking an index

An index lists the units of an entity by leaping from each of them behind its partner. Walking the
top-level units in this way, and inside each of them the units of its own, rebuilds the tree from
the flat table. This module shows that the walk visits the positions of a stream in their order,
each of them once.

Results:

1. `visits_units`: the walk over the units of a forest visits the positions of the forest.
2. `index_iff_and_walk`: a stream has an index exactly when it is well nested, and the walk over the
   index visits every position once and in order.
-/

namespace WireSchema

namespace Forest

variable {token start stop : Token} {inside rest : Forest} {position last : Nat}

theorem behind_point :
    position + (point token rest).tokens.length = position + 1 + rest.tokens.length := by
  simp only [tokens, List.length_cons]
  omega

theorem behind_entity (ends : position + 1 + inside.tokens.length = last) :
    position + (entity start inside stop rest).tokens.length = last + 1 + rest.tokens.length := by
  simp only [tokens, List.length_cons, List.length_append]
  omega

end Forest

namespace Index

/-! ## The walk -/

theorem lt_of_mem_units {i : Index} {position stop unit : Nat}
    (listed : unit ∈ i.units position stop) : position ≤ unit ∧ unit < stop := by
  fun_induction i.units position stop with
  | case1 position before ih =>
    have leap := i.lt_next position
    rcases List.mem_cons.mp listed with rfl | later
    · exact ⟨Nat.le_refl _, before⟩
    · obtain ⟨low, high⟩ := ih later
      exact ⟨by omega, high⟩
  | case2 => cases listed

/-- Only a position of the stream has children, and they lie behind it. -/
theorem lt_of_mem_children {i : Index} {position child : Nat}
    (listed : child ∈ i.children position) : position < i.length ∧ position < child := by
  cases ends : i.endOf? position with
  | none =>
    rw [children, ends] at listed
    cases listed
  | some stop =>
    rw [children, ends] at listed
    refine ⟨?_, (lt_of_mem_units listed).1⟩
    obtain ⟨partners, _⟩ := Option.filter_eq_some_iff.mp ends
    obtain ⟨place, placed, _⟩ := Option.bind_eq_some_iff.mp partners
    exact (Array.getElem?_eq_some_iff.mp placed).1

/-- Visits a position, then everything below each of its children, then the end that closes it. -/
def visit (i : Index) (position : Nat) : List Nat :=
  position :: ((i.children position).attach.flatMap (fun ⟨child, _⟩ => i.visit child)
    ++ (i.endOf? position).toList)
termination_by i.length - position
decreasing_by
  obtain ⟨inside, behind⟩ := lt_of_mem_children (by assumption)
  omega

/-- Visits the top-level units one after the other. -/
def walk (i : Index) : List Nat :=
  i.roots.flatMap i.visit

theorem visit_eq (i : Index) (position : Nat) :
    i.visit position
      = position :: ((i.children position).flatMap i.visit ++ (i.endOf? position).toList) := by
  rw [visit, List.flatMap_subtype (fun _ _ => rfl), List.unattach_attach]

/-- A position without a partner is a unit of its own. -/
theorem visit_point {i : Index} {position : Nat} (alone : i.partner? position = none) :
    i.next position = position + 1 ∧ i.visit position = [position] := by
  have noEnd : i.endOf? position = none := by
    rw [endOf?, alone]
    rfl
  refine ⟨by rw [next, noEnd]; rfl, ?_⟩
  rw [visit_eq, children, noEnd]
  rfl

/-- A start is visited before the units up to its end, and its end after them. -/
theorem visit_entity {i : Index} {position stop : Nat} (ends : i.endOf? position = some stop) :
    i.next position = stop + 1 ∧
      i.visit position = position :: ((i.units (position + 1) stop).flatMap i.visit ++ [stop]) := by
  refine ⟨by rw [next, ends]; rfl, ?_⟩
  rw [visit_eq, children, ends]
  rfl

/-! ## The walk over a forest -/

theorem units_of_le {i : Index} {position stop : Nat} (past : stop ≤ position) :
    i.units position stop = [] := by
  rw [units, if_neg (Nat.not_lt.mpr past)]

theorem units_of_lt {i : Index} {position stop : Nat} (before : position < stop) :
    i.units position stop = position :: i.units (i.next position) stop := by
  rw [units, if_pos before]

section

variable {i : Index} {depth position : Nat} {parent : Option Nat}

theorem units_empty : i.units position (position + Forest.empty.tokens.length) = [] :=
  units_of_le (Nat.le_refl position)

/-- Behind a point the walk goes on at the next position. -/
theorem units_point {token : Token} {rest : Forest}
    (holds : i.Holds position ((Forest.point token rest).places depth parent position)) :
    i.units position (position + (Forest.point token rest).tokens.length)
      = position :: i.units (position + 1) (position + 1 + rest.tokens.length) := by
  rw [Forest.behind_point, units_of_lt (by omega), (visit_point (holds_point holds).1).1]

/-- The walk leaps over the inside of an entity and goes on behind its end. -/
theorem units_entity {start stop : Token} {inside rest : Forest} {last : Nat}
    (holds : i.Holds position ((Forest.entity start inside stop rest).places depth parent position))
    (ends : position + 1 + inside.tokens.length = last) :
    i.units position (position + (Forest.entity start inside stop rest).tokens.length)
      = position :: i.units (last + 1) (last + 1 + rest.tokens.length) := by
  have opens := (holds_entity holds ends).1
  rw [Forest.behind_entity ends, units_of_lt (by omega), (visit_entity (endOf?_of_partner? opens (by omega))).1]

/-- The walk over the units of a forest visits the positions of the forest. -/
theorem visits_units {f : Forest} (holds : i.Holds position (f.places depth parent position)) :
    (i.units position (position + f.tokens.length)).flatMap i.visit
      = List.range' position f.tokens.length := by
  induction f generalizing depth parent position with
  | empty =>
    rw [units_empty]
    rfl
  | point token rest ih =>
    obtain ⟨alone, behind⟩ := holds_point holds
    rw [units_point holds, List.flatMap_cons, (visit_point alone).2, ih behind]
    rfl
  | entity start inside stop rest inside_ih rest_ih =>
    generalize last : position + 1 + inside.tokens.length = stop_position
    obtain ⟨opens, _, within, behind⟩ := holds_entity holds last
    have size : (Forest.entity start inside stop rest).tokens.length
        = inside.tokens.length + (rest.tokens.length + 1) + 1 := by
      simp [Forest.tokens]
    -- the entity counts as one unit, whose visit covers the inside before the walk leaps behind it
    have inner := inside_ih within
    rw [last] at inner
    calc
      _ = (i.visit position) ++
          (i.units (stop_position + 1) (stop_position + 1 + rest.tokens.length)).flatMap i.visit := by
        rw [units_entity holds last, List.flatMap_cons]
      _ = position :: (List.range' (position + 1) inside.tokens.length
          ++ stop_position :: List.range' (stop_position + 1) rest.tokens.length) := by
        rw [(visit_entity (endOf?_of_partner? opens (by omega))).2, inner, rest_ih behind]
        simp
      _ = List.range' position (Forest.entity start inside stop rest).tokens.length := by
        rw [size, List.range'_succ, ← List.range'_append_1, last, List.range'_succ]

end

theorem walk_index (f : Forest) : f.index.walk = List.range f.tokens.length := by
  have visits := visits_units (holds_places f)
  rw [walk, roots, f.index_length, List.range_eq_range']
  rwa [Nat.zero_add] at visits

end Index

/-! ## Acceptance -/

/-- A stream is accepted exactly when it is well nested and, unless that is allowed, not empty. The
walk over its index then visits every position once, in the order of the stream. -/
theorem index_iff_and_walk (s : TokenStream) (allowEmpty : Bool) :
    ((∃ i, s.index allowEmpty = .ok i) ↔ (s ≠ [] ∨ allowEmpty = true) ∧ WellNested s.signals) ∧
      ∀ i, s.index allowEmpty = .ok i → i.walk = List.range s.length := by
  constructor
  · rw [wellNested_iff_forest]
    constructor
    · rintro ⟨i, indexed⟩
      obtain ⟨allowed, f, proper, spelled, _⟩ := TokenStream.index_eq_ok_iff.mp indexed
      exact ⟨allowed, f, proper, spelled⟩
    · rintro ⟨allowed, f, proper, spelled⟩
      exact ⟨f.index, TokenStream.index_eq_ok_iff.mpr ⟨allowed, f, proper, spelled, rfl⟩⟩
  · intro i indexed
    obtain ⟨_, f, _, rfl, rfl⟩ := TokenStream.index_eq_ok_iff.mp indexed
    exact Index.walk_index f

/-- A message with a field around a leaf, an empty group, and a marker in a bitset. -/
def nestedMessage : TokenStream :=
  [.structural (.start .message) ⟨"order", some 1, none, default, none⟩,
   .structural (.start .field) ⟨"price", some 2, none, default, none⟩,
   .leaf .int64 .littleEndian ⟨"price", none, none, default, none⟩,
   .structural (.stop .field) ⟨"price", some 2, none, default, none⟩,
   .structural (.start .group) ⟨"fills", some 3, none, default, none⟩,
   .structural (.stop .group) ⟨"fills", some 3, none, default, none⟩,
   .structural (.start .bitset) ⟨"flags", some 4, none, default, none⟩,
   .structural .setChoice ⟨"urgent", none, none, default, none⟩,
   .structural (.stop .bitset) ⟨"flags", some 4, none, default, none⟩,
   .structural (.stop .message) ⟨"order", some 1, none, default, none⟩]

theorem nestedMessage_walk :
    ∃ i, nestedMessage.index false = .ok i ∧ i.walk = [0, 1, 2, 3, 4, 5, 6, 7, 8, 9] :=
  ⟨_, rfl, (index_iff_and_walk nestedMessage false).2 _ rfl⟩

end WireSchema
