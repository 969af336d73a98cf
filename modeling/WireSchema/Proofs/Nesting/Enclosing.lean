import Mathlib.Order.Bounds.Basic
import WireSchema.Proofs.Nesting.Delimiting

/-!
# What an index says about a position

The index records the entities around a position while the scan passes it, when the ends of these
entities have not been met. Once the scan is over, the same can be said of the finished stream: the
depth of a position is the number of entities around it, and its parent is the start of the
innermost of them.

Results:

1. `place_of_holds`: depth and parent of every position of a forest.
2. `place_of_mem_brackets`: a start and its end lie in the same entity.
3. `keepsDeepest_of_index`: the deepest level, kept in step by the scan.
4. `index_places`: every query of an index, at every position.
-/

namespace WireSchema

namespace Index

variable {i : Index}

/-! ## Entities around a position -/

/-- The entity that starts at the first position has the second one strictly inside. -/
def Encloses (i : Index) (a p : Nat) : Prop := ∃ b ∈ i.endOf? a, a < p ∧ p < b

instance (i : Index) (a p : Nat) : Decidable (i.Encloses a p) :=
  inferInstanceAs (Decidable (∃ b ∈ i.endOf? a, a < p ∧ p < b))

end Index

namespace Forest

/-- The starts of the entities around a position, from the outermost inwards. -/
def around (f : Forest) (position p : Nat) : List Nat :=
  ((f.brackets position).filter fun (a, b) => a < p && p < b).map Prod.fst

variable {f : Forest} {position p : Nat}

theorem mem_around_iff {a : Nat} :
    a ∈ f.around position p ↔ ∃ b, (a, b) ∈ f.brackets position ∧ a < p ∧ p < b := by
  simp [around]

/-- No entity of a forest is around a position in front of it or behind it. -/
theorem around_eq_nil (outside : p ≤ position ∨ position + f.tokens.length ≤ p) :
    f.around position p = [] := by
  rw [List.eq_nil_iff_forall_not_mem]
  intro a listed
  obtain ⟨b, bracket, before, behind⟩ := mem_around_iff.mp listed
  have bounds := bounds_of_mem_brackets bracket
  omega

theorem around_point {token : Token} {rest : Forest} :
    (point token rest).around position p = rest.around (position + 1) p :=
  rfl

/-- An entity is around the positions of its inside. -/
theorem around_entity {start stop : Token} {inside rest : Forest} {last : Nat}
    (ends : position + 1 + inside.tokens.length = last) :
    (entity start inside stop rest).around position p
      = (if position < p ∧ p < last then [position] else [])
        ++ (inside.around (position + 1) p ++ rest.around (last + 1) p) := by
  subst ends
  rw [around, brackets, List.filter_cons, List.filter_append]
  simp only [Bool.and_eq_true, decide_eq_true_eq]
  split <;> simp [around]

/-- The starts of entities ascend. -/
theorem brackets_ascending (f : Forest) (position : Nat) :
    (f.brackets position).Pairwise fun x y => x.1 < y.1 := by
  induction f generalizing position with
  | empty => exact .nil
  | point token rest ih => exact ih _
  | entity start inside stop rest inside_ih rest_ih =>
    refine List.pairwise_cons.mpr ⟨fun bracket later => ?_,
      List.pairwise_append.mpr ⟨inside_ih _, rest_ih _, fun x inner y outer => ?_⟩⟩
    · rcases List.mem_append.mp later with inner | outer
      · exact (bounds_of_mem_brackets inner).1
      · have bounds := bounds_of_mem_brackets outer
        omega
    · have inner_bounds := bounds_of_mem_brackets inner
      have outer_bounds := bounds_of_mem_brackets outer
      omega

theorem around_ascending (f : Forest) (position p : Nat) :
    (f.around position p).Pairwise (· < ·) :=
  List.pairwise_map.mpr ((f.brackets_ascending position).filter _)

/-- In the index of a forest, the depth of a position counts the entities around it, and its parent
is the start of the innermost of them. -/
theorem place_of_holds {i : Index} {depth : Nat} {parent : Option Nat}
    (holds : i.Holds position (f.places depth parent position)) (low : position ≤ p)
    (high : p < position + f.tokens.length) :
    i.depth? p = some (UInt32.ofNat (depth + (f.around position p).length)) ∧
      i.parent? p = (f.around position p).getLast?.or parent := by
  induction f generalizing depth parent position with
  | empty => exact absurd low (Nat.not_le.mpr high)
  | point token rest ih =>
    simp only [tokens, List.length_cons] at high
    rw [around_point]
    rcases Nat.eq_or_lt_of_le low with rfl | later
    · rw [around_eq_nil (.inl (Nat.le_succ _))]
      exact ⟨Index.depth?_of_holds holds, Index.parent?_of_holds holds⟩
    · exact ih (Index.holds_point holds).2 later (by omega)
  | entity start inside stop rest inside_ih rest_ih =>
    generalize ends : position + 1 + inside.tokens.length = last
    obtain ⟨_, _, within, behind⟩ := Index.holds_entity holds ends
    have closes := holds.tail.right
    rw [places_length, ends] at closes
    simp only [tokens, List.length_cons, List.length_append] at high
    -- the position is the start, inside, the end, or behind
    rcases Nat.eq_or_lt_of_le low with rfl | later
    · rw [around_eq_nil (.inl (Nat.le_refl _))]
      exact ⟨Index.depth?_of_holds holds, Index.parent?_of_holds holds⟩
    rw [around_entity ends]
    rcases Nat.lt_trichotomy p last with inner | rfl | outer
    · obtain ⟨depth_eq, parent_eq⟩ := inside_ih within later (by omega)
      rw [if_pos ⟨later, inner⟩, around_eq_nil (f := rest) (.inl (by omega)), List.append_nil,
        depth_eq, parent_eq, List.singleton_append, List.length_cons, List.getLast?_cons]
      refine ⟨by rw [Nat.add_assoc, Nat.add_comm 1], ?_⟩
      cases (inside.around (position + 1) p).getLast? <;> rfl
    · rw [if_neg (fun within => Nat.lt_irrefl _ within.2),
        around_eq_nil (f := inside) (.inr (Nat.le_of_eq ends)),
        around_eq_nil (f := rest) (.inl (Nat.le_succ _))]
      exact ⟨Index.depth?_of_holds closes, Index.parent?_of_holds closes⟩
    · rw [if_neg (fun within => Nat.lt_asymm outer within.2),
        around_eq_nil (f := inside) (.inr (by omega))]
      exact rest_ih behind outer (by omega)

/-- A start and its end lie in the same entity. -/
theorem place_of_mem_brackets {i : Index} {depth : Nat} {parent : Option Nat}
    (holds : i.Holds position (f.places depth parent position)) {a b : Nat}
    (listed : (a, b) ∈ f.brackets position) :
    i.depth? b = i.depth? a ∧ i.parent? b = i.parent? a := by
  obtain ⟨_, _, inside, _, _, _, ends, entity⟩ := Index.exists_entity_of_mem_brackets holds listed
  have closes := entity.tail.right
  rw [places_length, ends] at closes
  rw [Index.depth?_of_holds closes, Index.parent?_of_holds closes, Index.depth?_of_holds entity,
    Index.parent?_of_holds entity]
  exact ⟨rfl, rfl⟩

end Forest

/-! ## Lists that ascend -/

theorem getLast?_eq_some_iff_isGreatest {l : List Nat} (ascending : l.Pairwise (· < ·)) {a : Nat} :
    l.getLast? = some a ↔ IsGreatest {c | c ∈ l} a := by
  have greatest {front : List Nat} {last : Nat} (split : l = front ++ [last]) :
      IsGreatest {c | c ∈ l} last := by
    subst split
    refine ⟨List.mem_append_right _ List.mem_cons_self, fun c listed => ?_⟩
    rcases List.mem_append.mp listed with before | here
    · exact Nat.le_of_lt ((List.pairwise_append.mp ascending).2.2 c before last List.mem_cons_self)
    · exact Nat.le_of_eq (List.mem_singleton.mp here)
  constructor
  · intro last
    obtain ⟨front, split⟩ := List.getLast?_eq_some_iff.mp last
    exact greatest split
  · intro here
    cases last : l.getLast? with
    | none =>
      have listed : a ∈ l := here.1
      rw [List.getLast?_eq_none_iff.mp last] at listed
      cases listed
    | some x =>
      obtain ⟨front, split⟩ := List.getLast?_eq_some_iff.mp last
      exact congrArg some ((greatest split).unique here)

namespace Index

variable {i : Index} {f : Forest} {a b p : Nat}

theorem mem_around_iff_encloses : a ∈ f.around 0 p ↔ f.index.Encloses a p := by
  simp only [Forest.mem_around_iff, Encloses, Option.mem_def, endOf?_index_iff]

/-- Of the entities around a position, the parent is the one that starts last. -/
theorem parent?_index_iff (within : p < f.tokens.length) :
    f.index.parent? p = some a ↔ IsGreatest {c | f.index.Encloses c p} a := by
  have place := (Forest.place_of_holds (holds_places f) (Nat.zero_le p)
    ((Nat.zero_add _).symm ▸ within)).2
  rw [place, Option.or_none, getLast?_eq_some_iff_isGreatest (f.around_ascending 0 p)]
  simp only [mem_around_iff_encloses]

theorem parent?_index_eq_none_iff (within : p < f.tokens.length) :
    f.index.parent? p = none ↔ ∀ a, ¬f.index.Encloses a p := by
  have place := (Forest.place_of_holds (holds_places f) (Nat.zero_le p)
    ((Nat.zero_add _).symm ▸ within)).2
  rw [place, Option.or_none, List.getLast?_eq_none_iff, List.eq_nil_iff_forall_not_mem]
  simp only [mem_around_iff_encloses]

/-- The depth of a position counts the entities around it. -/
theorem depth?_index (within : p < f.tokens.length) :
    f.index.depth? p
      = some (UInt32.ofNat ((List.range p).filter (f.index.Encloses · p)).length) := by
  have place := (Forest.place_of_holds (holds_places f) (Nat.zero_le p)
    ((Nat.zero_add _).symm ▸ within)).1
  have same : (f.around 0 p).Perm ((List.range p).filter (f.index.Encloses · p)) := by
    refine (List.perm_ext_iff_of_nodup ((f.around_ascending 0 p).imp Nat.ne_of_lt)
      (List.nodup_range.filter _)).mpr fun c => ?_
    rw [mem_around_iff_encloses, List.mem_filter, List.mem_range, decide_eq_true_iff]
    exact ⟨fun around => ⟨around.choose_spec.2.1, around⟩, And.right⟩
  rw [place, Nat.zero_add, same.length_eq]

/-! ## The deepest level -/

/-- The larger of two counts is one of them, and stays within a bound exactly when both do. -/
instance : Std.LawfulOrderMax UInt32 where
  max_eq_or d e := by
    rw [show max d e = if d ≤ e then e else d from rfl]
    split
    · exact .inr rfl
    · exact .inl rfl
  max_le_iff d e bound := by
    rw [show max d e = if d ≤ e then e else d from rfl]
    split
    · next below => exact ⟨fun le => ⟨UInt32.le_trans below le, le⟩, And.right⟩
    · next above =>
      have other := UInt32.le_of_lt (UInt32.not_le.mp above)
      exact ⟨fun le => ⟨le, UInt32.le_trans other le⟩, And.left⟩

theorem depth?_eq_none (behind : i.length ≤ p) : i.depth? p = none := by
  rw [depth?, Array.getElem?_eq_none behind]
  rfl

theorem depth?_push {depth d : UInt32} {parent : Option Nat} :
    (i.push depth parent).depth? p = some d ↔ i.depth? p = some d ∨ p = i.length ∧ depth = d := by
  rw [depth?, push, Array.getElem?_push]
  split
  · next last =>
    rw [depth?_eq_none (Nat.le_of_eq last.symm)]
    simp [last, length]
  · next before => simp [depth?, before, length]

theorem depth?_pair (start stop : Nat) : (i.pair start stop).depth? p = i.depth? p := by
  simp only [depth?, pair, Array.getElem?_modify]
  split <;> split <;> simp [Function.comp_def]

/-- The deepest level is kept in step with the depths that have been recorded: none of them is
larger, and unless it is zero it is one of them. -/
structure KeepsDeepest (i : Index) : Prop where
  bound : ∀ p d, i.depth? p = some d → d ≤ i.maxDepth
  attained : i.maxDepth = 0 ∨ ∃ p, i.depth? p = some i.maxDepth

namespace KeepsDeepest

theorem empty : Index.empty.KeepsDeepest where
  bound p d recorded := by
    rw [depth?_eq_none (Nat.zero_le p)] at recorded
    cases recorded
  attained := .inl rfl

theorem push (keeps : i.KeepsDeepest) (depth : UInt32) (parent : Option Nat) :
    (i.push depth parent).KeepsDeepest where
  bound p d recorded := by
    show d ≤ max i.maxDepth depth
    rcases depth?_push.mp recorded with earlier | ⟨_, rfl⟩
    · exact UInt32.le_trans (keeps.bound p d earlier) Std.left_le_max
    · exact Std.right_le_max
  attained := by
    show max i.maxDepth depth = 0 ∨ ∃ p, _ = some (max i.maxDepth depth)
    rcases Std.max_eq_or (a := i.maxDepth) (b := depth) with same | same
    · rw [same]
      refine keeps.attained.imp_right fun ⟨p, earlier⟩ => ?_
      exact ⟨p, depth?_push.mpr (.inl earlier)⟩
    · exact .inr ⟨i.length, depth?_push.mpr (.inr ⟨rfl, same.symm⟩)⟩

theorem pair (keeps : i.KeepsDeepest) (start stop : Nat) : (i.pair start stop).KeepsDeepest where
  bound p d recorded := keeps.bound p d (depth?_pair start stop ▸ recorded)
  attained := by
    simp only [depth?_pair]
    exact keeps.attained

theorem maxDepth_eq_zero (keeps : i.KeepsDeepest) (empty : i.length = 0) : i.maxDepth = 0 := by
  refine keeps.attained.resolve_right fun ⟨p, recorded⟩ => ?_
  rw [depth?_eq_none (empty.trans_le (Nat.zero_le p))] at recorded
  cases recorded

/-- The deepest level of an index that is not empty is the largest of all depths. -/
theorem isGreatest_maxDepth (keeps : i.KeepsDeepest) (filled : 0 < i.length) :
    IsGreatest {d | ∃ p, i.depth? p = some d} i.maxDepth := by
  refine ⟨?_, fun d ⟨p, recorded⟩ => keeps.bound p d recorded⟩
  rcases keeps.attained with zero | recorded
  · -- no depth is below zero, so that the first position attains it
    have first : i.depth? 0 = some i.places[0].depth := by
      rw [depth?, Array.getElem?_eq_getElem filled]
      rfl
    have least := UInt32.le_antisymm (zero ▸ keeps.bound 0 _ first) UInt32.zero_le
    exact ⟨0, by rw [first, least, zero]⟩
  · exact recorded

end KeepsDeepest

/-! ## Behind the last position -/

theorem queries_eq_none (behind : i.length ≤ p) :
    i.depth? p = none ∧ i.parent? p = none ∧ i.endOf? p = none ∧ i.startOf? p = none := by
  have none_there : i.places[p]? = none := Array.getElem?_eq_none behind
  refine ⟨depth?_eq_none behind, ?_⟩
  simp [parent?, endOf?, startOf?, partner?, none_there]

end Index

/-! ## Every position -/

namespace TokenStream

/-- Every index that a scan yields keeps its deepest level. -/
theorem keepsDeepest_of_index {s : TokenStream} {allowEmpty : Bool} {i : Index}
    (indexed : s.index allowEmpty = .ok i) : i.KeepsDeepest := by
  rw [index] at indexed
  split at indexed
  · cases indexed
  · exact Nesting.scan_induction (fun _ depth parent keeps => keeps.push depth parent)
      (fun _ start stop keeps => keeps.pair start stop) .empty indexed

/-- What an index says about every position of its stream. An end closes a start when the two
delimit an entity; the parent of a position is the innermost of the entities around it, and its
depth is their number, which is the same for a start and its end; behind the stream nothing is
known. -/
theorem index_places {s : TokenStream} {allowEmpty : Bool} {i : Index}
    (indexed : s.index allowEmpty = .ok i) :
    i.length = s.length ∧
      (∀ a b, i.endOf? a = some b ↔ Delimits s.signals a b) ∧
      (∀ a b, i.startOf? b = some a ↔ i.endOf? a = some b) ∧
      (∀ p, p < s.length →
        (∀ a, i.parent? p = some a ↔ IsGreatest {c | i.Encloses c p} a) ∧
        (i.parent? p = none ↔ ∀ a, ¬i.Encloses a p) ∧
        (s.length < UInt32.size → ∃ d, i.depth? p = some d ∧
          d.toNat = ((List.range p).filter (i.Encloses · p)).length)) ∧
      (∀ a b, i.endOf? a = some b → i.depth? b = i.depth? a ∧ i.parent? b = i.parent? a) ∧
      (s.length = 0 → i.maxDepth = 0) ∧
      (0 < s.length → IsGreatest {d | ∃ p, i.depth? p = some d} i.maxDepth) ∧
      ∀ p, s.length ≤ p →
        i.depth? p = none ∧ i.parent? p = none ∧ i.endOf? p = none ∧ i.startOf? p = none := by
  have keeps := keepsDeepest_of_index indexed
  obtain ⟨_, f, proper, rfl, rfl⟩ := index_eq_ok_iff.mp indexed
  have sized := f.index_length
  refine ⟨sized, fun a b => ?_, fun a b => ?_, fun p within => ⟨fun a => ?_, ?_, fun small => ?_⟩,
    fun a b ends => ?_, fun empty => ?_, fun filled => ?_, fun p behind => ?_⟩
  · rw [Index.endOf?_index_iff, Forest.mem_brackets_iff_delimits proper]
  · rw [Index.startOf?_index_iff, Index.endOf?_index_iff]
  · exact Index.parent?_index_iff within
  · exact Index.parent?_index_eq_none_iff within
  · refine ⟨_, Index.depth?_index within, ?_⟩
    have bound := List.length_filter_le (f.index.Encloses · p) (List.range p)
    rw [List.length_range] at bound
    exact UInt32.toNat_ofNat_of_lt' (Nat.lt_of_le_of_lt bound (Nat.lt_trans within small))
  · exact Forest.place_of_mem_brackets (Index.holds_places f) (Index.endOf?_index_iff.mp ends)
  · exact keeps.maxDepth_eq_zero (sized.trans empty)
  · exact keeps.isGreatest_maxDepth (sized ▸ filled)
  · exact Index.queries_eq_none (sized ▸ behind)

/-- A leaf within a field within a group. -/
def fieldInGroup : TokenStream :=
  [.structural (.start .message) ⟨"quote", none, none, default, none⟩,
   .leaf .uint16 .littleEndian ⟨"count", none, none, default, none⟩,
   .structural (.start .group) ⟨"levels", none, none, default, none⟩,
   .structural (.start .field) ⟨"price", none, none, default, none⟩,
   .leaf .int64 .littleEndian ⟨"mantissa", none, none, default, none⟩,
   .structural (.stop .field) ⟨"price", none, none, default, none⟩,
   .structural (.stop .group) ⟨"levels", none, none, default, none⟩,
   .structural (.stop .message) ⟨"quote", none, none, default, none⟩]

theorem fieldInGroup_places :
    ∃ i, fieldInGroup.index false = .ok i ∧ Delimits fieldInGroup.signals 2 6 ∧
      i.startOf? 6 = some 2 ∧ IsGreatest {c | i.Encloses c 4} 3 ∧
      (∃ d, i.depth? 4 = some d ∧ d.toNat = 3) ∧ i.parent? 6 = i.parent? 2 ∧
      IsGreatest {d | ∃ p, i.depth? p = some d} i.maxDepth ∧ i.maxDepth = 3 ∧
      i.depth? 8 = none := by
  obtain ⟨_, ends, starts, positions, ofEnds, _, deepest, behind⟩ :=
    index_places (rfl : fieldInGroup.index false = .ok _)
  obtain ⟨parents, _, depths⟩ := positions 4 (by decide)
  exact ⟨_, rfl, (ends 2 6).mp rfl, (starts 2 6).mpr rfl, (parents 3).mp rfl,
    depths (by decide), (ofEnds 2 6 rfl).2, deepest (by decide), rfl, (behind 8 (by decide)).1⟩

end TokenStream

end WireSchema
