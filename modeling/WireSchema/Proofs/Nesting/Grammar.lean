import WireSchema.Nesting.Forest

/-!
# The bracket language

Which streams are well nested, said without a scan and in two ways that are proved equal: by a
grammar over the signals, and by the forest that a stream spells out.

Results:

1. `wellNested_iff_forest`: the grammar derives a stream exactly when a proper forest spells it.
2. `tokens_injective`: no two proper forests spell the same stream.
3. `Closes.point`, `Closes.start`, `Closes.stop`: what one more token in front does to a stream that
   closes a number of open entities.
-/

namespace WireSchema

/-! ## The grammar -/

/-- The grammar of well-nested streams: nothing, or a leaf or marker and then more, or a start and
the end that closes it around a well-nested inside and then more. -/
inductive WellNested : List Signal → Prop
  | empty : WellNested []
  | point {signal : Signal} {rest : List Signal} :
      signal.isEncoding = true ∨ signal.isMarker = true → WellNested rest →
      WellNested (signal :: rest)
  | entity {start stop : Signal} {inside rest : List Signal} :
      start.closing = some stop → WellNested inside → WellNested rest →
      WellNested (start :: (inside ++ stop :: rest))

namespace Signal

/-- A signal that is neither a start nor an end is a leaf or a marker. -/
theorem isPoint_iff {signal : Signal} :
    signal.isEncoding = true ∨ signal.isMarker = true ↔
      signal.isStart = false ∧ signal.isEnd = false := by
  cases signal <;> simp [isEncoding, isMarker, isStart, isEnd]

end Signal

namespace Forest

@[simp] theorem signals_empty : empty.tokens.signals = [] := rfl

@[simp] theorem signals_point (token : Token) (rest : Forest) :
    (point token rest).tokens.signals = token.signal :: rest.tokens.signals := rfl

@[simp] theorem signals_entity (start : Token) (inside : Forest) (stop : Token) (rest : Forest) :
    (entity start inside stop rest).tokens.signals
      = start.signal :: (inside.tokens.signals ++ stop.signal :: rest.tokens.signals) := by
  simp [tokens, TokenStream.signals]

theorem wellNested_of_proper {f : Forest} (proper : f.Proper) : WellNested f.tokens.signals := by
  induction f with
  | empty => exact .empty
  | point token rest ih =>
    obtain ⟨noStart, noEnd, rest_proper⟩ := proper
    exact .point (Signal.isPoint_iff.mpr ⟨noStart, noEnd⟩) (ih rest_proper)
  | entity start inside stop rest inside_ih rest_ih =>
    obtain ⟨kinds, inside_proper, rest_proper⟩ := proper
    rw [signals_entity]
    exact .entity (Signal.closing_eq_some_iff.mpr kinds) (inside_ih inside_proper)
      (rest_ih rest_proper)

theorem exists_of_wellNested {signals : List Signal} (nested : WellNested signals) :
    ∀ s : TokenStream, s.signals = signals → ∃ f : Forest, f.Proper ∧ f.tokens = s := by
  induction nested with
  | empty =>
    intro s spelled
    exact ⟨.empty, trivial, (List.map_eq_nil_iff.mp spelled).symm⟩
  | point isPoint _ ih =>
    intro s spelled
    obtain ⟨token, others, rfl, rfl, later⟩ := List.map_eq_cons_iff.mp spelled
    obtain ⟨f, proper, rfl⟩ := ih others later
    obtain ⟨noStart, noEnd⟩ := Signal.isPoint_iff.mp isPoint
    exact ⟨.point token f, ⟨noStart, noEnd, proper⟩, rfl⟩
  | entity closes _ _ inside_ih rest_ih =>
    intro s spelled
    obtain ⟨start, others, rfl, rfl, later⟩ := List.map_eq_cons_iff.mp spelled
    obtain ⟨within, behind, rfl, inner, outer⟩ := List.map_eq_append_iff.mp later
    obtain ⟨stop, last, rfl, rfl, final⟩ := List.map_eq_cons_iff.mp outer
    obtain ⟨f, f_proper, rfl⟩ := inside_ih within inner
    obtain ⟨g, g_proper, rfl⟩ := rest_ih last final
    exact ⟨.entity start f stop g, ⟨Signal.closing_eq_some_iff.mp closes, f_proper, g_proper⟩, rfl⟩

end Forest

/-- The grammar derives a stream exactly when some proper forest spells it out. -/
theorem wellNested_iff_forest {s : TokenStream} :
    WellNested s.signals ↔ ∃ f : Forest, f.Proper ∧ f.tokens = s := by
  constructor
  · intro nested
    exact Forest.exists_of_wellNested nested s rfl
  · rintro ⟨f, proper, rfl⟩
    exact Forest.wellNested_of_proper proper

/-! ## One stream, one forest -/

namespace Forest

/-- What may stand behind a complete forest: nothing, or the end of the entity around it. -/
def Stops (rest : TokenStream) : Prop :=
  ∀ token, rest.head? = some token → token.signal.isEnd = true

/-- A forest with a unit begins with a point or a start, which cannot stand behind a complete
forest. -/
theorem eq_empty_of_stops {f : Forest} (proper : f.Proper) {rest : TokenStream}
    (stops : Stops (f.tokens ++ rest)) : f = empty := by
  cases f with
  | empty => rfl
  | point token others =>
    have ends := stops token rfl
    rw [proper.2.1] at ends
    cases ends
  | entity start inside stop others =>
    obtain ⟨⟨kind, starts, _⟩, _⟩ := proper
    have ends := stops start rfl
    rw [starts] at ends
    cases ends

theorem stops_of_stop {stop : Token} {kind : EntityKind} (stops : stop.signal = .stop kind)
    (rest : TokenStream) : Stops (stop :: rest) := by
  rintro token ⟨⟩
  rw [stops]
  rfl

/-- A proper forest is never a strict part of another one, so that two of them that are followed by
nothing or by an end can be told apart by their tokens. -/
theorem tokens_append_injective {f g : Forest} (f_proper : f.Proper) (g_proper : g.Proper)
    {behind after : TokenStream} (f_stops : Stops behind) (g_stops : Stops after)
    (same : f.tokens ++ behind = g.tokens ++ after) : f = g ∧ behind = after := by
  induction f generalizing g behind after with
  | empty =>
    rw [show behind = g.tokens ++ after from same] at f_stops
    obtain rfl := eq_empty_of_stops g_proper f_stops
    exact ⟨rfl, same⟩
  | point token rest ih =>
    cases g with
    | empty =>
      rw [← show _ = after from same] at g_stops
      cases eq_empty_of_stops f_proper g_stops
    | point other others =>
      obtain ⟨rfl, later⟩ := List.cons.inj same
      obtain ⟨rfl, behind_eq⟩ := ih f_proper.2.2 g_proper.2.2 f_stops g_stops later
      exact ⟨rfl, behind_eq⟩
    | entity start inside stop others =>
      obtain ⟨⟨kind, starts, _⟩, _⟩ := g_proper
      obtain ⟨rfl, _⟩ := List.cons.inj same
      have noStart := f_proper.1
      rw [starts] at noStart
      cases noStart
  | entity start inside stop rest inside_ih rest_ih =>
    cases g with
    | empty =>
      rw [← show _ = after from same] at g_stops
      cases eq_empty_of_stops f_proper g_stops
    | point other others =>
      obtain ⟨⟨kind, starts, _⟩, _⟩ := f_proper
      obtain ⟨rfl, _⟩ := List.cons.inj same
      have noStart := g_proper.1
      rw [starts] at noStart
      cases noStart
    | entity start' inside' stop' others =>
      obtain ⟨⟨_, _, stops⟩, inside_proper, rest_proper⟩ := f_proper
      obtain ⟨⟨_, _, stops'⟩, inside_proper', others_proper⟩ := g_proper
      simp only [tokens, List.cons_append, List.append_assoc, List.cons.injEq] at same
      obtain ⟨rfl, within⟩ := same
      -- both insides are followed by an end, whatever else is known about the two streams
      obtain ⟨rfl, closed⟩ := inside_ih inside_proper inside_proper' (stops_of_stop stops _)
        (stops_of_stop stops' _) within
      obtain ⟨rfl, later⟩ := List.cons.inj closed
      obtain ⟨rfl, behind_eq⟩ := rest_ih rest_proper others_proper f_stops g_stops later
      exact ⟨rfl, behind_eq⟩

/-- No two proper forests spell the same stream. -/
theorem tokens_injective {f g : Forest} (f_proper : f.Proper) (g_proper : g.Proper)
    (same : f.tokens = g.tokens) : f = g := by
  have none_behind : Stops [] := by
    rintro token ⟨⟩
  exact (tokens_append_injective f_proper g_proper none_behind none_behind (by rw [same])).1

end Forest

/-! ## Closing what is open -/

/-- The streams that close the open entities, given by their kinds from the innermost outwards: a
forest and an end for each of them, and a forest behind the last. -/
def Closes : List EntityKind → TokenStream → Prop
  | [], s => ∃ f : Forest, f.Proper ∧ f.tokens = s
  | kind :: outer, s =>
    ∃ (f : Forest) (stop : Token) (rest : TokenStream),
      f.Proper ∧ stop.signal = .stop kind ∧ Closes outer rest ∧ f.tokens ++ stop :: rest = s

namespace Closes

/-- The forest in front of the next end may grow at its front. -/
theorem grow {kinds : List EntityKind} {s : TokenStream} (closes : Closes kinds s)
    (front : TokenStream) (extend : Forest → Forest)
    (proper : ∀ f : Forest, f.Proper → (extend f).Proper)
    (spelled : ∀ f : Forest, (extend f).tokens = front ++ f.tokens) :
    Closes kinds (front ++ s) := by
  cases kinds with
  | nil =>
    obtain ⟨f, f_proper, rfl⟩ := closes
    exact ⟨extend f, proper f f_proper, spelled f⟩
  | cons kind outer =>
    obtain ⟨f, stop, rest, f_proper, stops, later, rfl⟩ := closes
    refine ⟨extend f, stop, rest, proper f f_proper, stops, later, ?_⟩
    rw [spelled f, List.append_assoc]

theorem nil : Closes [] [] :=
  ⟨.empty, trivial, rfl⟩

theorem point {kinds : List EntityKind} {token : Token} {rest : TokenStream}
    (noStart : token.signal.isStart = false) (noEnd : token.signal.isEnd = false)
    (closes : Closes kinds rest) : Closes kinds (token :: rest) :=
  closes.grow [token] (.point token) (fun _ proper => ⟨noStart, noEnd, proper⟩) (fun _ => rfl)

theorem stop {kinds : List EntityKind} {kind : EntityKind} {token : Token} {rest : TokenStream}
    (stops : token.signal = .stop kind) (closes : Closes kinds rest) :
    Closes (kind :: kinds) (token :: rest) :=
  ⟨.empty, token, rest, trivial, stops, closes, rfl⟩

/-- A start adds an open entity to those that the rest of the stream closes. The forest in front of
the end that closes it becomes the inside of an entity. -/
theorem start {kinds : List EntityKind} {kind : EntityKind} {token : Token} {rest : TokenStream}
    (starts : token.signal = .start kind) (closes : Closes (kind :: kinds) rest) :
    Closes kinds (token :: rest) := by
  obtain ⟨inside, stop, later, inside_proper, stops, closes_later, rfl⟩ := closes
  have grown : Closes kinds ((token :: (inside.tokens ++ [stop])) ++ later) :=
    closes_later.grow _ (fun f => .entity token inside stop f)
      (fun _ proper => ⟨⟨kind, starts, stops⟩, inside_proper, proper⟩)
      (fun f => by simp [Forest.tokens])
  simpa using grown

end Closes

end WireSchema
