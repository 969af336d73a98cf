import WireSchema.Proofs.Nesting.Brackets

/-!
# Around the inside of an entity

A forest with a gap inside one of its entities. Filling the gap with any forest yields a forest
again, and every entity of a forest arises in this way: its inside fills a gap, and everything else
stands around it. Statements about what an entity leaks to its surroundings are then inductions over
the surroundings.

Results:

1. `tokens_fill`: what stands in front of the gap and behind it does not depend on the filling.
2. `exists_fill_of_mem_brackets`: the brackets of an entity split a forest into surroundings and
   inside.
3. `proper_of_fill`: one proper filling may be replaced by another.
-/

namespace WireSchema

/-! ## Parts between two positions -/

section

variable {α : Type} {front part back : List α} {a b : Nat}

/-- The part of a list strictly between two positions. -/
def between (whole : List α) (a b : Nat) : List α := (whole.take b).drop (a + 1)

theorem map_between {β : Type} (f : α → β) (whole : List α) (a b : Nat) :
    between (whole.map f) a b = (between whole a b).map f := by
  rw [between, between, List.map_drop, List.map_take]

theorem between_append (first : front.length = a + 1) (last : a + 1 + part.length = b) :
    between (front ++ (part ++ back)) a b = part := by
  rw [between, ← List.append_assoc,
    List.take_left' (by rw [List.length_append, first, last]), List.drop_left' first]

theorem drop_append_append (first : front.length = a + 1) (last : a + 1 + part.length = b) :
    (front ++ (part ++ back)).drop b = back := by
  rw [← List.append_assoc, List.drop_left' (by rw [List.length_append, first, last])]

theorem getElem?_append_append (first : front.length = a + 1) (k : Nat) :
    (front ++ (part ++ back))[a + 1 + part.length + k]? = back[k]? := by
  rw [← List.append_assoc, ← first, ← List.length_append,
    List.getElem?_append_right (Nat.le_add_right _ _), Nat.add_sub_cancel_left]

end

/-! ## Surroundings -/

/-- A forest with a gap inside one of its entities. -/
inductive Surroundings
  /-- The entity with the gap comes first; the units behind it follow. -/
  | gap (start stop : Token) (rest : Forest)
  /-- A leaf or a marker comes first. -/
  | behindPoint (token : Token) (later : Surroundings)
  /-- A whole entity comes first. -/
  | behindEntity (start : Token) (inside : Forest) (stop : Token) (later : Surroundings)
  /-- The gap lies deeper inside the entity that comes first. -/
  | within (start : Token) (inner : Surroundings) (stop : Token) (rest : Forest)

namespace Surroundings

/-- The forest with the gap filled. -/
def fill (inside : Forest) : Surroundings → Forest
  | gap start stop rest => .entity start inside stop rest
  | behindPoint token later => .point token (later.fill inside)
  | behindEntity start whole stop later => .entity start whole stop (later.fill inside)
  | within start inner stop rest => .entity start (inner.fill inside) stop rest

/-- The start of the entity with the gap. -/
def start : Surroundings → Token
  | gap start _ _ => start
  | behindPoint _ later => later.start
  | behindEntity _ _ _ later => later.start
  | within _ inner _ _ => inner.start

/-- The end of the entity with the gap. -/
def stop : Surroundings → Token
  | gap _ stop _ => stop
  | behindPoint _ later => later.stop
  | behindEntity _ _ _ later => later.stop
  | within _ inner _ _ => inner.stop

/-- The tokens in front of the entity with the gap. -/
def front : Surroundings → TokenStream
  | gap _ _ _ => []
  | behindPoint token later => token :: later.front
  | behindEntity start inside stop later => start :: (inside.tokens ++ stop :: later.front)
  | within start inner _ _ => start :: inner.front

/-- The tokens behind the entity with the gap. -/
def back : Surroundings → TokenStream
  | gap _ _ rest => rest.tokens
  | behindPoint _ later => later.back
  | behindEntity _ _ _ later => later.back
  | within _ inner stop rest => inner.back ++ stop :: rest.tokens

variable {c : Surroundings} {inside : Forest}

theorem tokens_fill (c : Surroundings) (inside : Forest) :
    (c.fill inside).tokens = c.front ++ c.start :: (inside.tokens ++ c.stop :: c.back) := by
  induction c with
  | gap start stop rest => rfl
  | behindPoint token later ih => simp [fill, front, start, stop, back, Forest.tokens, ih]
  | behindEntity first whole last later ih =>
    simp [fill, front, start, stop, back, Forest.tokens, ih]
  | within first inner last rest ih => simp [fill, front, start, stop, back, Forest.tokens, ih]

/-- The inside of a proper forest is proper, the tokens around it are of one kind, and any other
proper inside would do as well. -/
theorem proper_of_fill (proper : (c.fill inside).Proper) :
    (∃ kind, c.start.signal = .start kind ∧ c.stop.signal = .stop kind) ∧ inside.Proper ∧
      ∀ other : Forest, other.Proper → (c.fill other).Proper := by
  induction c with
  | gap start stop rest =>
    obtain ⟨kinds, inside_proper, rest_proper⟩ := proper
    exact ⟨kinds, inside_proper, fun other other_proper => ⟨kinds, other_proper, rest_proper⟩⟩
  | behindPoint token later ih =>
    obtain ⟨noStart, noEnd, later_proper⟩ := proper
    obtain ⟨kinds, inside_proper, refilled⟩ := ih later_proper
    exact ⟨kinds, inside_proper, fun other ok => ⟨noStart, noEnd, refilled other ok⟩⟩
  | behindEntity first whole last later ih =>
    obtain ⟨outer, whole_proper, later_proper⟩ := proper
    obtain ⟨kinds, inside_proper, refilled⟩ := ih later_proper
    exact ⟨kinds, inside_proper, fun other ok => ⟨outer, whole_proper, refilled other ok⟩⟩
  | within first inner last rest ih =>
    obtain ⟨outer, inner_proper, rest_proper⟩ := proper
    obtain ⟨kinds, inside_proper, refilled⟩ := ih inner_proper
    exact ⟨kinds, inside_proper, fun other ok => ⟨outer, refilled other ok, rest_proper⟩⟩

/-- The brackets of an entity split the forest into the surroundings and the inside of the
entity. -/
theorem exists_fill_of_mem_brackets {f : Forest} {position a b : Nat}
    (listed : (a, b) ∈ f.brackets position) :
    ∃ (c : Surroundings) (inside : Forest), c.fill inside = f ∧
      position + c.front.length = a ∧ a + 1 + inside.tokens.length = b := by
  induction f generalizing position with
  | empty => cases listed
  | point token rest ih =>
    obtain ⟨c, inside, rfl, rfl, ends⟩ := ih listed
    refine ⟨.behindPoint token c, inside, rfl, ?_, ends⟩
    rw [front, List.length_cons]
    omega
  | entity start whole stop rest whole_ih rest_ih =>
    rcases (Forest.mem_brackets_entity rfl).mp listed with here | inner | outer
    · obtain ⟨rfl, rfl⟩ := Prod.mk.inj here
      exact ⟨.gap start stop rest, whole, rfl, rfl, rfl⟩
    · obtain ⟨c, inside, rfl, rfl, ends⟩ := whole_ih inner
      refine ⟨.within start c stop rest, inside, rfl, ?_, ends⟩
      rw [front, List.length_cons]
      omega
    · obtain ⟨c, inside, rfl, rfl, ends⟩ := rest_ih outer
      refine ⟨.behindEntity start whole stop c, inside, rfl, ?_, ends⟩
      simp only [front, List.length_cons, List.length_append]
      omega

end Surroundings

end WireSchema
