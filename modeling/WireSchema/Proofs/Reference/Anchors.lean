import WireSchema.Reference

/-!
# The table of identifiers

The first pass over the references reads every identifier into a table and stops at the first one
that is met twice. This module says what the table knows in terms of the positions of the stream.

Results:

1. `describes_of_anchors`: a table that has been filled knows every identifier of the stream, where
   it is carried and what is referenced there, and nothing else.
2. `repeated_of_anchors`: a failure names the first place where an identifier is carried again.
-/

namespace WireSchema

namespace Reference

/-! ## Positions and identifiers -/

/-- The token at a position carries an identifier. End tokens carry none. -/
def Carries (s : TokenStream) (position : Nat) (id : Ident) : Prop :=
  ∃ t, s[position]? = some t ∧ t.signal.isEnd = false ∧ t.id = some id

/-- The token at a position references an identifier. End tokens reference none. -/
def Refers (s : TokenStream) (position : Nat) (target : Ident) : Prop :=
  ∃ t, s[position]? = some t ∧ t.signal.isEnd = false ∧ t.xref = some target

/-- No identifier is carried at two positions. -/
def UniqueIds (s : TokenStream) : Prop :=
  ∀ (p q : Nat) (id : Ident), Carries s p id → Carries s q id → p = q

theorem refers_injective {s : TokenStream} {position : Nat} {i j : Ident}
    (first : Refers s position i) (second : Refers s position j) : i = j := by
  obtain ⟨t, found, _, named⟩ := first
  obtain ⟨u, found', _, named'⟩ := second
  obtain rfl := Option.some.inj (found.symm.trans found')
  exact Option.some.inj (named.symm.trans named')

/-! ## What a table knows -/

/-- The table knows exactly the identifiers that the tokens of a stream carry, each with its
position and with what the token there references. -/
def Describes (known : Anchors) (s : TokenStream) : Prop :=
  ∀ (id : Ident) (anchor : Anchor), known.lookup id = some anchor ↔
    ∃ t, s[anchor.position]? = some t ∧ t.signal.isEnd = false ∧ t.id = some id ∧
      t.xref = anchor.back

theorem describes_nil : Describes [] [] := by
  intro id anchor
  constructor
  · intro found
    cases found
  · rintro ⟨t, found, _⟩
    cases found

/-- A token is at a position of a longer stream when it was there before, or when it is the new
one. -/
theorem getElem?_append_singleton {front : TokenStream} {token t : Token} {position : Nat} :
    (front ++ [token])[position]? = some t ↔
      front[position]? = some t ∨ position = front.length ∧ token = t := by
  rcases Nat.lt_trichotomy position front.length with before | rfl | behind
  · rw [List.getElem?_append_left before]
    exact ⟨Or.inl, fun found => found.resolve_right fun last => Nat.ne_of_lt before last.1⟩
  · simp
  · rw [List.getElem?_eq_none (by simp; omega), List.getElem?_eq_none (by omega)]
    constructor
    · intro found
      cases found
    · rintro (found | ⟨last, _⟩)
      · cases found
      · exact absurd last (Nat.ne_of_gt behind)

variable {known found : Anchors} {front rest : TokenStream} {token : Token}

/-- A token that carries no identifier does not enter the table. -/
theorem Describes.skip (describes : Describes known front)
    (silent : ∀ id, token.signal.isEnd = false → token.id ≠ some id) :
    Describes known (front ++ [token]) := by
  intro id anchor
  rw [describes id anchor]
  constructor
  · rintro ⟨t, found, counts⟩
    exact ⟨t, getElem?_append_singleton.mpr (.inl found), counts⟩
  · rintro ⟨t, found, noEnd, carried, back⟩
    rcases getElem?_append_singleton.mp found with found | ⟨_, rfl⟩
    · exact ⟨t, found, noEnd, carried, back⟩
    · exact absurd carried (silent id noEnd)

/-- A token with an identifier that is not known yet enters the table. -/
theorem Describes.add (describes : Describes known front) {id : Ident}
    (noEnd : token.signal.isEnd = false) (carried : token.id = some id)
    (fresh : known.lookup id = none) :
    Describes ((id, ⟨front.length, token.xref⟩) :: known) (front ++ [token]) := by
  intro other anchor
  rw [List.lookup_cons]
  by_cases same : other = id
  · subst same
    rw [beq_self_eq_true]
    constructor
    · intro found
      obtain rfl := Option.some.inj found
      exact ⟨token, getElem?_append_singleton.mpr (.inr ⟨rfl, rfl⟩), noEnd, carried, rfl⟩
    · rintro ⟨t, found, noEnd', carried', back⟩
      rcases getElem?_append_singleton.mp found with found | ⟨last, rfl⟩
      · rw [(describes other anchor).mpr ⟨t, found, noEnd', carried', back⟩] at fresh
        cases fresh
      · obtain ⟨position, back'⟩ := anchor
        obtain rfl := last
        obtain rfl := back
        rfl
  · rw [beq_false_of_ne same]
    refine (describes other anchor).trans ⟨?_, ?_⟩
    · rintro ⟨t, found, counts⟩
      exact ⟨t, getElem?_append_singleton.mpr (.inl found), counts⟩
    · rintro ⟨t, found, noEnd', carried', back⟩
      rcases getElem?_append_singleton.mp found with found | ⟨_, rfl⟩
      · exact ⟨t, found, noEnd', carried', back⟩
      · exact absurd (Option.some.inj (carried'.symm.trans carried)) same

/-- A table that describes a stream has one entry for an identifier, so that the stream carries it
once. -/
theorem Describes.uniqueIds {s : TokenStream} (describes : Describes known s) : UniqueIds s := by
  rintro p q id ⟨t, found, noEnd, carried⟩ ⟨u, found', noEnd', carried'⟩
  have first := (describes id ⟨p, t.xref⟩).mpr ⟨t, found, noEnd, carried, rfl⟩
  have second := (describes id ⟨q, u.xref⟩).mpr ⟨u, found', noEnd', carried', rfl⟩
  exact congrArg Anchor.position (Option.some.inj (first.symm.trans second))

theorem Describes.carries_iff {s : TokenStream} (describes : Describes known s) {id : Ident}
    {position : Nat} :
    (known.lookup id).map Anchor.position = some position ↔ Carries s position id := by
  rw [Option.map_eq_some_iff]
  constructor
  · rintro ⟨anchor, found, rfl⟩
    obtain ⟨t, placed, noEnd, carried, _⟩ := (describes id anchor).mp found
    exact ⟨t, placed, noEnd, carried⟩
  · rintro ⟨t, placed, noEnd, carried⟩
    exact ⟨⟨position, t.xref⟩, (describes id _).mpr ⟨t, placed, noEnd, carried, rfl⟩, rfl⟩

/-! ## Filling the table -/

theorem anchors_skip (silent : ∀ id, token.signal.isEnd = false → token.id ≠ some id)
    (known : Anchors) (position : Nat) (rest : List Token) :
    anchors known position (token :: rest) = anchors known (position + 1) rest := by
  rw [anchors]
  split
  · next id noEnd carried => exact absurd carried (silent id noEnd)
  · rfl

theorem anchors_add {id : Ident} (noEnd : token.signal.isEnd = false)
    (carried : token.id = some id) (fresh : known.lookup id = none) (position : Nat)
    (rest : List Token) :
    anchors known position (token :: rest)
      = anchors ((id, ⟨position, token.xref⟩) :: known) (position + 1) rest := by
  rw [anchors, noEnd, carried]
  simp only [fresh]

theorem anchors_repeated {id : Ident} {first : Anchor} (noEnd : token.signal.isEnd = false)
    (carried : token.id = some id) (taken : known.lookup id = some first) (position : Nat)
    (rest : List Token) :
    anchors known position (token :: rest) = .error (.repeatedId id first.position position) := by
  rw [anchors, noEnd, carried]
  simp only [taken]

/-- A token either counts with an identifier that it carries or references, or it is passed. -/
theorem silent_or_counts (token : Token) (given : Option Ident) :
    (∀ id, token.signal.isEnd = false → given ≠ some id) ∨
      ∃ id, token.signal.isEnd = false ∧ given = some id := by
  by_cases counts : ∃ id, token.signal.isEnd = false ∧ given = some id
  · exact .inr counts
  · exact .inl fun id noEnd same => counts ⟨id, noEnd, same⟩

/-- A table that has been filled describes the stream. -/
theorem describes_of_anchors (describes : Describes known front)
    (filled : anchors known front.length rest = .ok found) : Describes found (front ++ rest) := by
  -- the table always describes what has been read, and every token moves from the rest to the front
  induction rest generalizing known front with
  | nil =>
    obtain rfl := Except.ok.inj filled
    rwa [List.append_nil]
  | cons token later ih =>
    have size : front.length + 1 = (front ++ [token]).length := by simp
    rw [List.append_cons]
    rcases silent_or_counts token token.id with silent | ⟨id, noEnd, carried⟩
    · rw [anchors_skip silent, size] at filled
      exact ih (describes.skip silent) filled
    · cases taken : known.lookup id with
      | none =>
        rw [anchors_add noEnd carried taken, size] at filled
        exact ih (describes.add noEnd carried taken) filled
      | some first =>
        rw [anchors_repeated noEnd carried taken] at filled
        cases filled

/-- When the table cannot be filled, an identifier is carried twice, and none is among the tokens
before its second place. -/
theorem repeated_of_anchors {e : LinkError} (describes : Describes known front)
    (failed : anchors known front.length rest = .error e) :
    ∃ (id : Ident) (first second : Nat), e = .repeatedId id first second ∧ first < second ∧
      Carries (front ++ rest) first id ∧ Carries (front ++ rest) second id ∧
      UniqueIds ((front ++ rest).take second) := by
  induction rest generalizing known front with
  | nil => cases failed
  | cons token later ih =>
    have size : front.length + 1 = (front ++ [token]).length := by simp
    rcases silent_or_counts token token.id with silent | ⟨id, noEnd, carried⟩
    · rw [anchors_skip silent, size] at failed
      rw [List.append_cons]
      exact ih (describes.skip silent) failed
    · cases taken : known.lookup id with
      | none =>
        rw [anchors_add noEnd carried taken, size] at failed
        rw [List.append_cons]
        exact ih (describes.add noEnd carried taken) failed
      | some first =>
        rw [anchors_repeated noEnd carried taken] at failed
        obtain rfl := Except.error.inj failed
        obtain ⟨t, placed, noEnd', carried', _⟩ := (describes id first).mp taken
        obtain ⟨before, _⟩ := List.getElem?_eq_some_iff.mp placed
        refine ⟨id, first.position, front.length, rfl, before, ⟨t, ?_, noEnd', carried'⟩,
          ⟨token, ?_, noEnd, carried⟩, ?_⟩
        · rw [List.getElem?_append_left before, placed]
        · rw [List.getElem?_append_right (Nat.le_refl _), Nat.sub_self]
          rfl
        · rw [List.take_left]
          exact describes.uniqueIds

/-- The table of a stream can be filled when no identifier is carried twice. -/
theorem exists_anchors {s : TokenStream} (unique : UniqueIds s) :
    ∃ found, anchors [] 0 s = .ok found := by
  cases filled : anchors [] 0 s with
  | ok found => exact ⟨found, rfl⟩
  | error e =>
    obtain ⟨id, first, second, _, before, carries, carries', _⟩ :=
      repeated_of_anchors describes_nil filled
    exact absurd (unique first second id carries carries') (Nat.ne_of_lt before)

end Reference

end WireSchema
