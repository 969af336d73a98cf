import Mathlib.Data.List.Nodup
import WireSchema.Proofs.Nesting.Enclosing
import WireSchema.Proofs.Nesting.Walk

/-!
# The units of an entity

An index lists the units of an entity by leaping over the table of partners. It records the parent
of every position while the scan passes it, and the one never looks at the other. That they agree is
a matter of the brackets not crossing: what a leap passes over lies in the entity that it leaps
over, and nothing else does.

Results:

1. `units_ascending`: units are listed in the order of the stream, each of them once.
2. `mem_units_iff`: the leaps over a forest stop at the positions that have the parent of the forest,
   save the ends.
3. `mem_roots_iff`, `mem_children_iff`: which positions are listed for the stream and for an entity.
4. `index_units`: every position that is no end is listed once, as a root or as a child.
-/

namespace WireSchema

namespace Index

variable {i : Index} {f : Forest} {depth position p q : Nat} {parent : Option Nat}

/-! ## Leaping over a forest -/

theorem units_ascending (i : Index) (position stop : Nat) :
    (i.units position stop).Pairwise (· < ·) := by
  fun_induction i.units position stop with
  | case1 position before ih =>
    refine List.pairwise_cons.mpr ⟨fun unit later => ?_, ih⟩
    exact Nat.lt_of_lt_of_le (i.lt_next position) (lt_of_mem_units later).1
  | case2 => exact .nil

/-- Only an end has its partner in front of it. -/
theorem startOf?_eq_none (partners : ∀ q ∈ i.partner? p, p < q) : i.startOf? p = none := by
  rw [startOf?, Option.filter_eq_none_iff]
  intro q paired before
  exact Nat.lt_asymm (partners q paired) (of_decide_eq_true before)

/-- The parent of a position inside an entity is the start of the entity, or lies behind it. -/
theorem exists_parent?_of_inside
    (holds : i.Holds (q + 1) (f.places depth (some q) (q + 1))) (low : q < p)
    (high : p < q + 1 + f.tokens.length) : ∃ a, i.parent? p = some a ∧ q ≤ a := by
  rw [(Forest.place_of_holds holds low high).2]
  cases innermost : (f.around (q + 1) p).getLast? with
  | none => exact ⟨q, rfl, Nat.le_refl q⟩
  | some a =>
    obtain ⟨b, listed, _⟩ := Forest.mem_around_iff.mp (List.mem_of_getLast? innermost)
    exact ⟨a, rfl, Nat.le_of_succ_le (Forest.bounds_of_mem_brackets listed).1⟩

/-- The leaps over a forest stop at the positions with the parent of the forest, save the ends. -/
theorem mem_units_iff (holds : i.Holds position (f.places depth parent position))
    (outer : ∀ a ∈ parent, a < position) :
    p ∈ i.units position (position + f.tokens.length) ↔
      (position ≤ p ∧ p < position + f.tokens.length) ∧ i.startOf? p = none ∧
        i.parent? p = parent := by
  induction f generalizing depth position with
  | empty =>
    rw [units_empty]
    constructor
    · intro listed
      cases listed
    · rintro ⟨⟨low, high⟩, _⟩
      exact absurd low (Nat.not_le.mpr high)
  | point token rest ih =>
    obtain ⟨alone, behind⟩ := holds_point holds
    rw [units_point holds, List.mem_cons,
      ih behind fun a enclosing => Nat.lt_succ_of_lt (outer a enclosing), Forest.behind_point]
    constructor
    · rintro (rfl | ⟨⟨low, high⟩, same⟩)
      · exact ⟨⟨Nat.le_refl _, by omega⟩, startOf?_eq_none (by simp [alone]),
          parent?_of_holds holds⟩
      · exact ⟨⟨by omega, high⟩, same⟩
    · rintro ⟨⟨low, high⟩, same⟩
      rcases Nat.eq_or_lt_of_le low with rfl | later
      · exact .inl rfl
      · exact .inr ⟨⟨later, high⟩, same⟩
  | entity start inside stop rest inside_ih rest_ih =>
    generalize ends : position + 1 + inside.tokens.length = last
    obtain ⟨opens, closes, within, behind⟩ := holds_entity holds ends
    rw [units_entity holds ends, List.mem_cons,
      rest_ih behind fun a enclosing => Nat.lt_trans (outer a enclosing) (by omega),
      Forest.behind_entity ends]
    constructor
    · rintro (rfl | ⟨⟨low, high⟩, same⟩)
      · refine ⟨⟨Nat.le_refl _, by omega⟩, startOf?_eq_none fun q paired => ?_,
          parent?_of_holds holds⟩
        obtain rfl := Option.some.inj (opens.symm.trans paired)
        omega
      · exact ⟨⟨by omega, high⟩, same⟩
    · rintro ⟨⟨low, high⟩, noEnd, same⟩
      rcases Nat.eq_or_lt_of_le low with rfl | later
      · exact .inl rfl
      -- the leap passes over the inside, whose parents are further in, and over the end
      rcases Nat.lt_trichotomy p last with inner | rfl | outside
      · obtain ⟨a, found, further⟩ := exists_parent?_of_inside within later (by omega)
        exact absurd (outer a (same.symm.trans found)) (Nat.not_lt.mpr further)
      · rw [startOf?_of_partner? closes later] at noEnd
        cases noEnd
      · exact .inr ⟨⟨outside, high⟩, noEnd, same⟩

/-! ## The units of an index -/

theorem children_ascending (i : Index) (q : Nat) : (i.children q).Pairwise (· < ·) := by
  rw [children]
  cases i.endOf? q with
  | none => exact .nil
  | some b => exact i.units_ascending (q + 1) b

/-- The roots are the positions of the stream without a parent, save the ends. -/
theorem mem_roots_iff :
    p ∈ f.index.roots ↔
      (p < f.tokens.length ∧ f.index.startOf? p = none) ∧ f.index.parent? p = none := by
  have units := mem_units_iff (p := p) (holds_places f) (by simp)
  rw [Nat.zero_add, ← f.index_length] at units
  rw [roots, units, f.index_length, and_iff_right (Nat.zero_le p), and_assoc]

/-- The children of a position are the positions that have it as their parent, save the ends. -/
theorem mem_children_iff :
    p ∈ f.index.children q ↔
      (p < f.tokens.length ∧ f.index.startOf? p = none) ∧ f.index.parent? p = some q := by
  rw [and_assoc]
  cases ends : f.index.endOf? q with
  | none =>
    rw [children, ends]
    constructor
    · intro listed
      cases listed
    · rintro ⟨within, _, parent⟩
      obtain ⟨b, ends', _⟩ := ((parent?_index_iff within).mp parent).1
      rw [ends] at ends'
      cases ends'
  | some b =>
    have listed := endOf?_index_iff.mp ends
    have bounds := Forest.bounds_of_mem_brackets listed
    obtain ⟨_, _, inside, _, level, _, sized, entity⟩ :=
      exists_entity_of_mem_brackets (holds_places f) listed
    obtain ⟨_, _, within, _⟩ := holds_entity entity sized
    have units := mem_units_iff (p := p) within (by simp)
    rw [sized] at units
    rw [children, ends]
    refine units.trans (and_congr_left fun same => ⟨fun between => by omega, fun high => ?_⟩)
    obtain ⟨b', ends', behind, before⟩ := ((parent?_index_iff high).mp same.2).1
    obtain rfl := Option.some.inj (ends.symm.trans ends')
    exact ⟨behind, before⟩

end Index

namespace TokenStream

variable {s : TokenStream} {allowEmpty : Bool} {i : Index} {p q : Nat}

/-- Whether there is a token at the position, and one that ends no entity. -/
def unitAt (s : TokenStream) (p : Nat) : Bool :=
  s[p]?.any fun t => !t.signal.isEnd

/-- The index knows the start of every end of its stream, and of no other token. -/
theorem startOf?_eq_none_iff (indexed : s.index allowEmpty = .ok i) {t : Token}
    (placed : s[p]? = some t) : i.startOf? p = none ↔ t.signal.isEnd = false := by
  obtain ⟨_, f, proper, rfl, rfl⟩ := index_eq_ok_iff.mp indexed
  have spelled := signal_of_token placed
  obtain ⟨_, agrees⟩ := Index.disagreement_eq_none_iff.mp (Index.disagreement_of_proper proper)
  rcases (Index.fits_iff (by simpa using spelled)).mp (agrees p _ spelled) with
    ⟨_, noEnd, alone⟩ | ⟨q, kind, partners, ⟨before, starts, _⟩ | ⟨behind, stops, _⟩⟩
  · exact iff_of_true (Index.startOf?_eq_none (by simp [alone])) noEnd
  · refine iff_of_true (Index.startOf?_eq_none fun r paired => ?_) (by rw [starts]; rfl)
    obtain rfl := Option.some.inj (partners.symm.trans paired)
    exact before
  · rw [Index.startOf?_of_partner? partners behind, stops]
    exact iff_of_false (Option.some_ne_none q) Bool.noConfusion

theorem unitAt_iff (indexed : s.index allowEmpty = .ok i) :
    s.unitAt p = true ↔ p < s.length ∧ i.startOf? p = none := by
  rw [unitAt]
  cases placed : s[p]? with
  | none =>
    have behind := List.getElem?_eq_none_iff.mp placed
    exact iff_of_false Bool.false_ne_true fun within => absurd within.1 (Nat.not_lt.mpr behind)
  | some t =>
    have within := (List.getElem?_eq_some_iff.mp placed).1
    rw [startOf?_eq_none_iff indexed placed, and_iff_right within]
    simp

theorem mem_roots_iff (indexed : s.index allowEmpty = .ok i) :
    p ∈ i.roots ↔ s.unitAt p = true ∧ i.parent? p = none := by
  rw [unitAt_iff indexed]
  obtain ⟨_, f, _, rfl, rfl⟩ := index_eq_ok_iff.mp indexed
  exact Index.mem_roots_iff

theorem mem_children_iff (indexed : s.index allowEmpty = .ok i) :
    p ∈ i.children q ↔ s.unitAt p = true ∧ i.parent? p = some q := by
  rw [unitAt_iff indexed]
  obtain ⟨_, f, _, rfl, rfl⟩ := index_eq_ok_iff.mp indexed
  exact Index.mem_children_iff

/-- No position is listed twice, neither in one list nor in two. -/
theorem nodup_units (indexed : s.index allowEmpty = .ok i) (n : Nat) :
    (i.roots ++ (List.range n).flatMap i.children).Nodup := by
  have children : ((List.range n).flatMap i.children).Nodup := by
    refine List.nodup_flatMap.mpr ⟨fun q _ => (i.children_ascending q).imp Nat.ne_of_lt, ?_⟩
    refine List.nodup_range.imp fun {q r} differ p listed again => differ ?_
    have parent := ((mem_children_iff indexed).mp listed).2
    exact Option.some.inj (parent.symm.trans ((mem_children_iff indexed).mp again).2)
  have roots : i.roots.Nodup := (i.units_ascending 0 i.length).imp Nat.ne_of_lt
  refine roots.append children fun p root child => ?_
  obtain ⟨q, _, listed⟩ := List.mem_flatMap.mp child
  have parent := ((mem_children_iff indexed).mp listed).2
  rw [((mem_roots_iff indexed).mp root).2] at parent
  cases parent

/-- Whatever is no end is listed. -/
theorem mem_units_iff_unitAt (indexed : s.index allowEmpty = .ok i) {n : Nat}
    (long : s.length ≤ n) :
    p ∈ i.roots ++ (List.range n).flatMap i.children ↔ s.unitAt p = true := by
  simp only [List.mem_append, List.mem_flatMap, List.mem_range]
  constructor
  · rintro (root | ⟨q, _, child⟩)
    · exact ((mem_roots_iff indexed).mp root).1
    · exact ((mem_children_iff indexed).mp child).1
  · intro unit
    cases parent : i.parent? p with
    | none => exact .inl ((mem_roots_iff indexed).mpr ⟨unit, parent⟩)
    | some q =>
      have child := (mem_children_iff indexed).mpr ⟨unit, parent⟩
      have behind := (Index.lt_of_mem_children child).2
      have within := ((unitAt_iff indexed).mp unit).1
      exact .inr ⟨q, by omega, child⟩

/-- The units of an entity are the positions of the stream, the ends left out, that have it as their
parent, in the order of the stream. The roots are those that have no parent. Together, the roots and
the children of all positions hold every position that is no end, and hold it once. -/
theorem index_units (indexed : s.index allowEmpty = .ok i) :
    (i.roots.Pairwise (· < ·) ∧
      ∀ p, p ∈ i.roots ↔ s.unitAt p = true ∧ i.parent? p = none) ∧
    (∀ q, (i.children q).Pairwise (· < ·) ∧
      ∀ p, p ∈ i.children q ↔ s.unitAt p = true ∧ i.parent? p = some q) ∧
    ∀ n, s.length ≤ n → (i.roots ++ (List.range n).flatMap i.children).Perm
      ((List.range s.length).filter s.unitAt) := by
  refine ⟨⟨i.units_ascending 0 i.length, fun p => mem_roots_iff indexed⟩,
    fun q => ⟨i.children_ascending q, fun p => mem_children_iff indexed⟩, fun n long => ?_⟩
  refine (List.perm_ext_iff_of_nodup (nodup_units indexed n)
    (List.nodup_range.filter _)).mpr fun p => ?_
  rw [mem_units_iff_unitAt indexed long, List.mem_filter, List.mem_range]
  exact (and_iff_right_of_imp fun unit => ((unitAt_iff indexed).mp unit).1).symm

/-- The message lists its field, its empty group and its bitset, not what lies inside them or ends
them. Over all its lists, only the four ends are missing. -/
theorem nestedMessage_units :
    ∃ i, nestedMessage.index false = .ok i ∧ 0 ∈ i.roots ∧
      (1 ∈ i.children 0 ∧ 4 ∈ i.children 0 ∧ 6 ∈ i.children 0) ∧
      (2 ∉ i.children 0 ∧ 3 ∉ i.children 0 ∧ 9 ∉ i.children 0) ∧
      (i.roots ++ (List.range 12).flatMap i.children).Perm [0, 1, 2, 4, 6, 7] := by
  obtain ⟨⟨_, roots⟩, children, all⟩ := index_units (rfl : nestedMessage.index false = .ok _)
  obtain ⟨_, ofMessage⟩ := children 0
  have listed {p : Nat} (unit : nestedMessage.unitAt p = true) (parent : _ = some 0) :=
    (ofMessage p).mpr ⟨unit, parent⟩
  exact ⟨_, rfl, (roots 0).mpr ⟨rfl, rfl⟩, ⟨listed rfl rfl, listed rfl rfl, listed rfl rfl⟩,
    ⟨fun inner => absurd ((ofMessage 2).mp inner).2 (by decide),
      fun ending => absurd ((ofMessage 3).mp ending).1 (by decide),
      fun own => absurd ((ofMessage 9).mp own).1 (by decide)⟩, all 12 (by decide)⟩

end TokenStream

end WireSchema
