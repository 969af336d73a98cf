import WireSchema.Proofs.Nesting.Surroundings

/-!
# What delimits an entity

The start and the end of an entity can be told from the signals alone: the second one closes the
first one, and what stands between them is well nested. No scan is needed to say so, and no end but
one closes a start in this sense.

Results:

1. `delimits_iff_parts`: two positions delimit an entity when they split the signals into parts, of
   which the middle one is well nested.
2. `inside_unique`: a start is closed by one end only.
3. `mem_brackets_iff_delimits`: the brackets of a forest are the positions that delimit an entity of
   its stream.
-/

namespace WireSchema

/-! ## Positions that delimit an entity -/

/-- The token at the first position starts an entity that the token at the second position ends. -/
structure Delimits (signals : List Signal) (a b : Nat) : Prop where
  order : a < b
  closes : ∃ start stop, signals[a]? = some start ∧ signals[b]? = some stop ∧
    start.closing = some stop
  inside : WellNested (between signals a b)

theorem exists_append_of_getElem? {α : Type} {l : List α} {n : Nat} {x : α}
    (there : l[n]? = some x) : ∃ front back, l = front ++ x :: back ∧ front.length = n := by
  obtain ⟨within, rfl⟩ := List.getElem?_eq_some_iff.mp there
  refine ⟨l.take n, l.drop (n + 1), ?_, List.length_take_of_le (Nat.le_of_lt within)⟩
  rw [List.getElem_cons_drop, List.take_append_drop]

theorem getElem?_append_cons {α : Type} (front back : List α) (x : α) :
    (front ++ x :: back)[front.length]? = some x := by
  rw [List.getElem?_append_right (Nat.le_refl _), Nat.sub_self]
  rfl

theorem delimits_iff_parts {signals : List Signal} {a b : Nat} :
    Delimits signals a b ↔ ∃ front kind inside back,
      signals = front ++ .start kind :: (inside ++ .stop kind :: back) ∧ front.length = a ∧
        a + 1 + inside.length = b ∧ WellNested inside := by
  constructor
  · rintro ⟨order, ⟨start, stop, starts, stops, closes⟩, nested⟩
    obtain ⟨kind, rfl, rfl⟩ := Signal.closing_eq_some_iff.mp closes
    obtain ⟨front, others, rfl, rfl⟩ := exists_append_of_getElem? starts
    have first : (front ++ [Signal.start kind]).length = front.length + 1 := by simp
    rw [List.append_cons, List.getElem?_append_right (first ▸ order)] at stops
    obtain ⟨inside, back, rfl, sized⟩ := exists_append_of_getElem? stops
    have last : front.length + 1 + inside.length = b := by
      rw [sized, first]
      exact Nat.add_sub_of_le order
    rw [List.append_cons, between_append first last] at nested
    exact ⟨front, kind, inside, back, rfl, rfl, last, nested⟩
  · rintro ⟨front, kind, inside, back, rfl, rfl, rfl, nested⟩
    have first : (front ++ [Signal.start kind]).length = front.length + 1 := by simp
    refine ⟨by omega, ⟨.start kind, .stop kind, getElem?_append_cons _ _ _, ?_, rfl⟩, ?_⟩
    · rw [List.append_cons, ← Nat.add_zero (front.length + 1 + inside.length),
        getElem?_append_append first]
      rfl
    · rw [List.append_cons, between_append first rfl]
      exact nested

/-! ## Forests over signals -/

namespace TokenStream

/-- A stream with the given signals that says nothing else. -/
def ofSignals (signals : List Signal) : TokenStream :=
  signals.map fun signal => .structural signal ⟨"", none, none, default, none⟩

theorem signals_ofSignals (signals : List Signal) : (ofSignals signals).signals = signals := by
  rw [TokenStream.signals, ofSignals, List.map_map]
  exact List.map_id signals

end TokenStream

theorem exists_forest_ofSignals {signals : List Signal} (nested : WellNested signals) :
    ∃ f : Forest, f.Proper ∧ f.tokens = TokenStream.ofSignals signals :=
  Forest.exists_of_wellNested nested _ (TokenStream.signals_ofSignals signals)

theorem WellNested.exists_forest {signals : List Signal} (nested : WellNested signals) :
    ∃ f : Forest, f.Proper ∧ f.tokens.signals = signals := by
  obtain ⟨f, proper, spelled⟩ := exists_forest_ofSignals nested
  exact ⟨f, proper, by rw [spelled, TokenStream.signals_ofSignals]⟩

/-- What is well nested in front of an end is determined by the signals. -/
theorem inside_unique {inside other back more : List Signal} {kind kind' : EntityKind}
    (nested : WellNested inside) (nested' : WellNested other)
    (same : inside ++ .stop kind :: back = other ++ .stop kind' :: more) :
    inside = other ∧ kind = kind' ∧ back = more := by
  obtain ⟨f, f_proper, f_tokens⟩ := exists_forest_ofSignals nested
  obtain ⟨g, g_proper, g_tokens⟩ := exists_forest_ofSignals nested'
  have spelled := congrArg TokenStream.ofSignals same
  simp only [TokenStream.ofSignals, List.map_append, List.map_cons] at spelled f_tokens g_tokens
  rw [← f_tokens, ← g_tokens] at spelled
  obtain ⟨rfl, _⟩ := Forest.tokens_append_injective f_proper g_proper
    (Forest.stops_of_stop rfl _) (Forest.stops_of_stop rfl _) spelled
  have equal : inside = other := by
    rw [← TokenStream.signals_ofSignals inside, ← TokenStream.signals_ofSignals other,
      TokenStream.ofSignals, ← f_tokens, g_tokens, TokenStream.ofSignals]
  subst equal
  obtain ⟨ends, rest⟩ := List.cons.inj (List.append_cancel_left same)
  exact ⟨rfl, Signal.stop.inj ends, rest⟩

/-! ## The brackets of a forest -/

namespace Forest

variable {f : Forest} {a b : Nat}

/-- Every start of a forest has an end. -/
theorem exists_bracket_of_start (proper : f.Proper) {kind : EntityKind}
    (starts : f.tokens.signals[a]? = some (.start kind)) : ∃ b, (a, b) ∈ f.brackets 0 := by
  have agrees := (Index.disagreement_eq_none_iff.mp (Index.disagreement_of_proper proper)).2
  rcases (Index.fits_iff (by simpa using starts)).mp (agrees a _ starts) with
    ⟨noStart, _⟩ | ⟨b, _, partners, ⟨before, _⟩ | ⟨_, stops, _⟩⟩
  · cases noStart
  · exact ⟨b, Index.endOf?_index_iff.mp (Index.endOf?_of_partner? partners before)⟩
  · cases stops

theorem delimits_of_mem_brackets (proper : f.Proper) (listed : (a, b) ∈ f.brackets 0) :
    Delimits f.tokens.signals a b := by
  obtain ⟨c, inside, rfl, starts, stops⟩ := Surroundings.exists_fill_of_mem_brackets listed
  obtain ⟨⟨kind, start_kind, stop_kind⟩, inside_proper, _⟩ := Surroundings.proper_of_fill proper
  rw [Nat.zero_add] at starts
  refine delimits_iff_parts.mpr ⟨c.front.signals, kind, inside.tokens.signals, c.back.signals, ?_,
    ?_, ?_, wellNested_of_proper inside_proper⟩
  · simp [Surroundings.tokens_fill, TokenStream.signals, start_kind, stop_kind]
  · simp [TokenStream.signals, starts]
  · simp [TokenStream.signals, stops]

/-- The brackets of a forest are the positions that delimit an entity of its stream. -/
theorem mem_brackets_iff_delimits (proper : f.Proper) :
    (a, b) ∈ f.brackets 0 ↔ Delimits f.tokens.signals a b := by
  refine ⟨delimits_of_mem_brackets proper, fun delimits => ?_⟩
  -- the start has some end, and there cannot be two of them
  obtain ⟨front, kind, inside, back, parts, sized, last, nested⟩ := delimits_iff_parts.mp delimits
  have starts : f.tokens.signals[a]? = some (.start kind) := by
    rw [parts, ← sized, getElem?_append_cons]
  obtain ⟨b', listed⟩ := exists_bracket_of_start proper starts
  obtain ⟨front', kind', inside', back', parts', sized', last', nested'⟩ :=
    delimits_iff_parts.mp (delimits_of_mem_brackets proper listed)
  obtain ⟨rfl, later⟩ := List.append_inj (parts.symm.trans parts') (sized.trans sized'.symm)
  obtain ⟨_, ends⟩ := List.cons.inj later
  obtain ⟨rfl, _⟩ := inside_unique nested nested' ends
  rw [← last, last']
  exact listed

end Forest

end WireSchema
