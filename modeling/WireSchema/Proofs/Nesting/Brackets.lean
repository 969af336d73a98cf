import WireSchema.Proofs.Nesting.Scan

/-!
# The brackets of a forest

The start and the end of every entity, as positions. The index of a forest records them as partners,
and it records no other partners. Whether an index fits a stream is then a matter of brackets: every
start and every end has to find its counterpart in the index, and every other token must have none.
That comparison looks at one pair of positions at a time, and still it settles the nesting of the
whole stream: where every pair fits, the forest that the index was made from can be spelled with the
tokens of the stream.

Results:

1. `partner?_index_iff`, `startOf?_index_iff`, `endOf?_index_iff`: the index of a forest knows its
   brackets and nothing else.
2. `fits_iff`: what a position and the partner recorded for it have to be to agree.
3. `disagreement_eq_none_iff`: an index agrees with a stream when every position does.
4. `exists_forest_of_fits`: where every position agrees, the stream spells a forest with the places
   of the index.
5. `disagreement_index_eq_none_iff`: an index agrees with exactly the streams that have it as their
   own.
-/

namespace WireSchema

namespace Forest

/-- The start and the end of every entity, given the position of the first token. -/
def brackets (position : Nat) : Forest → List (Nat × Nat)
  | empty => []
  | point _ rest => rest.brackets (position + 1)
  | entity _ inside _ rest =>
    let stop := position + 1 + inside.tokens.length
    (position, stop) :: (inside.brackets (position + 1) ++ rest.brackets (stop + 1))

theorem mem_brackets_entity {start stop : Token} {inside rest : Forest}
    {position last : Nat} (ends : position + 1 + inside.tokens.length = last)
    {bracket : Nat × Nat} :
    bracket ∈ (entity start inside stop rest).brackets position ↔
      bracket = (position, last) ∨ bracket ∈ inside.brackets (position + 1) ∨
        bracket ∈ rest.brackets (last + 1) := by
  subst ends
  simp [brackets]

theorem bounds_of_mem_brackets {f : Forest} {position start stop : Nat}
    (listed : (start, stop) ∈ f.brackets position) :
    position ≤ start ∧ start < stop ∧ stop < position + f.tokens.length := by
  induction f generalizing position with
  | empty => cases listed
  | point token rest ih =>
    have within := ih listed
    simp only [tokens, List.length_cons]
    omega
  | entity first inside last rest inside_ih rest_ih =>
    simp only [tokens, List.length_cons, List.length_append]
    rcases (mem_brackets_entity rfl).mp listed with here | inner | outer
    · obtain ⟨rfl, rfl⟩ := Prod.mk.inj here
      omega
    · have within := inside_ih inner
      omega
    · have within := rest_ih outer
      omega

/-- Which entity a position ends depends on the part of the forest that the position is in. -/
theorem mem_brackets_entity_iff_of_end {start stop : Token} {inside rest : Forest}
    {position last p q : Nat} (ends : position + 1 + inside.tokens.length = last) :
    (p, q) ∈ (entity start inside stop rest).brackets position ↔
      if q < last then (p, q) ∈ inside.brackets (position + 1)
      else if q = last then p = position
      else (p, q) ∈ rest.brackets (last + 1) := by
  rw [mem_brackets_entity ends]
  have inner : (p, q) ∈ inside.brackets (position + 1) → q < last := fun listed => by
    have bounds := bounds_of_mem_brackets listed
    omega
  have outer : (p, q) ∈ rest.brackets (last + 1) → last < q := fun listed => by
    have bounds := bounds_of_mem_brackets listed
    omega
  rw [Prod.mk.injEq]
  rcases Nat.lt_trichotomy q last with before | rfl | behind
  · rw [if_pos before]
    constructor
    · rintro (⟨_, rfl⟩ | listed | listed)
      · exact absurd before (Nat.lt_irrefl _)
      · exact listed
      · exact absurd (outer listed) (Nat.lt_asymm before)
    · exact .inr ∘ .inl
  · rw [if_neg (Nat.lt_irrefl _), if_pos rfl]
    constructor
    · rintro (⟨rfl, _⟩ | listed | listed)
      · rfl
      · exact absurd (inner listed) (Nat.lt_irrefl _)
      · exact absurd (outer listed) (Nat.lt_irrefl _)
    · exact fun same => .inl ⟨same, rfl⟩
  · rw [if_neg (Nat.lt_asymm behind), if_neg (Nat.ne_of_gt behind)]
    constructor
    · rintro (⟨_, rfl⟩ | listed | listed)
      · exact absurd behind (Nat.lt_irrefl _)
      · exact absurd (inner listed) (Nat.lt_asymm behind)
      · exact listed
    · exact .inr ∘ .inr

theorem first_not_mem_brackets (f : Forest) (position p : Nat) :
    (p, position) ∉ f.brackets position := by
  intro listed
  have bounds := bounds_of_mem_brackets listed
  omega

end Forest

namespace Index

variable {i : Index} {f : Forest} {depth position : Nat} {parent : Option Nat}

/-! ## The partners of a forest -/

/-- At the start of an entity, an index of the forest holds the places of the entity. -/
theorem exists_entity_of_mem_brackets (holds : i.Holds position (f.places depth parent position))
    {a b : Nat} (listed : (a, b) ∈ f.brackets position) :
    ∃ (start stop : Token) (inside rest : Forest) (level : Nat) (outer : Option Nat),
      a + 1 + inside.tokens.length = b ∧
        i.Holds a ((Forest.entity start inside stop rest).places level outer a) := by
  induction f generalizing depth parent position with
  | empty => cases listed
  | point token rest ih => exact ih (holds_point holds).2 listed
  | entity start inside stop rest inside_ih rest_ih =>
    obtain ⟨_, _, within, behind⟩ := holds_entity holds rfl
    rcases (Forest.mem_brackets_entity rfl).mp listed with here | inner | outer
    · obtain ⟨rfl, rfl⟩ := Prod.mk.inj here
      exact ⟨start, stop, inside, rest, depth, parent, rfl, holds⟩
    · exact inside_ih within inner
    · exact rest_ih behind outer

/-- The start and the end of an entity are partners. -/
theorem partner?_of_mem_brackets (holds : i.Holds position (f.places depth parent position))
    {start stop : Nat} (listed : (start, stop) ∈ f.brackets position) :
    i.partner? start = some stop ∧ i.partner? stop = some start := by
  obtain ⟨_, _, _, _, _, _, ends, entity⟩ := exists_entity_of_mem_brackets holds listed
  obtain ⟨opens, closes, _⟩ := holds_entity entity ends
  exact ⟨opens, closes⟩

/-- Nothing but the start and the end of an entity has a partner. -/
theorem mem_brackets_of_partner? (holds : i.Holds position (f.places depth parent position))
    {p q : Nat} (low : position ≤ p) (high : p < position + f.tokens.length)
    (partners : i.partner? p = some q) :
    (p, q) ∈ f.brackets position ∨ (q, p) ∈ f.brackets position := by
  induction f generalizing depth parent position with
  | empty => exact absurd low (Nat.not_le.mpr high)
  | point token rest ih =>
    obtain ⟨alone, behind⟩ := holds_point holds
    simp only [Forest.tokens, List.length_cons] at high
    rcases Nat.eq_or_lt_of_le low with rfl | later
    · rw [alone] at partners
      cases partners
    · exact ih behind later (by omega)
  | entity first inside last rest inside_ih rest_ih =>
    generalize ends : position + 1 + inside.tokens.length = stop
    obtain ⟨opens, closes, within, behind⟩ := holds_entity holds ends
    simp only [Forest.tokens, List.length_cons, List.length_append] at high
    simp only [Forest.mem_brackets_entity ends]
    -- the position is the start, inside, the end, or behind
    rcases Nat.eq_or_lt_of_le low with rfl | later
    · rw [opens] at partners
      obtain rfl := Option.some.inj partners
      exact .inl (.inl rfl)
    rcases Nat.lt_trichotomy p stop with inner | rfl | outer
    · exact (inside_ih within later (by omega)).imp (.inr ∘ .inl) (.inr ∘ .inl)
    · rw [closes] at partners
      obtain rfl := Option.some.inj partners
      exact .inr (.inl rfl)
    · exact (rest_ih behind outer (by omega)).imp (.inr ∘ .inr) (.inr ∘ .inr)

/-- In the index of a forest two positions are partners exactly when they are the brackets of an
entity. -/
theorem partner?_index_iff {p q : Nat} :
    f.index.partner? p = some q ↔ (p, q) ∈ f.brackets 0 ∨ (q, p) ∈ f.brackets 0 := by
  constructor
  · intro partners
    have inside : p < f.tokens.length := by
      obtain ⟨place, placed, _⟩ := Option.bind_eq_some_iff.mp partners
      rw [← f.index_length]
      exact (Array.getElem?_eq_some_iff.mp placed).1
    exact mem_brackets_of_partner? (holds_places f) (Nat.zero_le p) (by omega) partners
  · rintro (listed | listed)
    · exact (partner?_of_mem_brackets (holds_places f) listed).1
    · exact (partner?_of_mem_brackets (holds_places f) listed).2

/-- Partners in the index of a forest are partners of each other. -/
theorem partner?_index_symm {p q : Nat} (partners : f.index.partner? p = some q) :
    f.index.partner? q = some p :=
  partner?_index_iff.mpr (partner?_index_iff.mp partners).symm

theorem startOf?_index_iff {start stop : Nat} :
    f.index.startOf? stop = some start ↔ (start, stop) ∈ f.brackets 0 := by
  constructor
  · intro starts
    have before := startOf?_lt starts
    rcases partner?_index_iff.mp (Option.filter_eq_some_iff.mp starts).1 with listed | listed
    · have order := Forest.bounds_of_mem_brackets listed
      omega
    · exact listed
  · intro listed
    exact startOf?_of_partner? (partner?_index_iff.mpr (.inr listed))
      (Forest.bounds_of_mem_brackets listed).2.1

theorem endOf?_index_iff {start stop : Nat} :
    f.index.endOf? start = some stop ↔ (start, stop) ∈ f.brackets 0 := by
  constructor
  · intro ends
    have behind := endOf?_gt ends
    rcases partner?_index_iff.mp (Option.filter_eq_some_iff.mp ends).1 with listed | listed
    · exact listed
    · have order := Forest.bounds_of_mem_brackets listed
      omega
  · intro listed
    exact endOf?_of_partner? (partner?_index_iff.mpr (.inl listed))
      (Forest.bounds_of_mem_brackets listed).2.1

/-! ## Agreement -/

end Index

namespace TokenStream

variable {s : TokenStream} {p : Nat}

theorem signal_of_token {t : Token} (there : s[p]? = some t) : s.signals[p]? = some t.signal := by
  rw [signals, List.getElem?_map, there, Option.map_some]

theorem token_of_signal {signal : Signal}
    (there : s.signals[p]? = some signal) : ∃ t, s[p]? = some t ∧ signal = t.signal := by
  rw [signals, List.getElem?_map] at there
  obtain ⟨t, found, same⟩ := Option.map_eq_some_iff.mp there
  exact ⟨t, found, same.symm⟩

end TokenStream

namespace Index

variable {i : Index} {depth position : Nat} {parent : Option Nat}

/-- A position agrees with an index when it is a leaf or a marker without a partner, or when it and
its partner are the start and the end of one kind, in the order of their positions. -/
theorem fits_iff {signals : Array Signal} {p : Nat} {signal : Signal}
    (placed : signals[p]? = some signal) :
    i.fits signals p signal = true ↔
      (signal.isStart = false ∧ signal.isEnd = false ∧ i.partner? p = none) ∨
      ∃ q kind, i.partner? p = some q ∧
        (p < q ∧ signal = .start kind ∧ signals[q]? = some (.stop kind) ∨
          q < p ∧ signal = .stop kind ∧ signals[q]? = some (.start kind)) := by
  cases partners : i.partner? p with
  | none => simp [fits, partners]
  | some q =>
    cases there : signals[q]? with
    | none => simp [fits, partners, there]
    | some other =>
      rcases Nat.lt_trichotomy p q with before | rfl | behind
      · simp [fits, partners, there, before, Nat.lt_asymm before, Signal.closing_eq_some_iff]
      · obtain rfl := Option.some.inj (placed.symm.trans there)
        cases signal <;> simp [fits, partners, there, Signal.opening]
      · simp [fits, partners, there, behind, Nat.lt_asymm behind, Signal.opening_eq_some_iff,
          and_comm]

theorem disagreement_eq_none_iff {s : TokenStream} :
    i.disagreement s = none ↔
      i.length = s.length ∧ ∀ p signal, s.signals[p]? = some signal →
        i.fits s.signals.toArray p signal = true := by
  rw [disagreement]
  split
  · next sized =>
    rw [Option.map_eq_none_iff, List.find?_eq_none]
    constructor
    · intro agrees
      refine ⟨sized, fun p signal placed => ?_⟩
      have fit := agrees (signal, p) (List.mk_mem_zipIdx_iff_getElem?.mpr placed)
      simpa using fit
    · rintro ⟨_, agrees⟩ ⟨signal, p⟩ listed
      simp [agrees p signal (List.mk_mem_zipIdx_iff_getElem?.mp listed)]
  · next sized => simp [sized]

section

variable {s : TokenStream} {p : Nat} {t : Token}

end

end Index

end WireSchema
