import WireSchema.Layout
import WireSchema.Layout.Exact
import WireSchema.Proofs.Nesting.Brackets

/-!
# Layout over the tree

The layout walks a flat stream with a stack of suspended entities, and it assigns the offset of a
start before the size of its entity is known. Over a well-nested stream the same layout is a
recursion over the forest: an entity is laid out on its own, and then it is passed as one unit. This
module proves the two equal, and then compares the recursion, which counts in 32 bits and stops at
the first overflow, with the exact layout in natural numbers.

Results:

1. `offsets_tokens_append`: the flat walk over the tokens of a forest is the recursion over the
   forest, whatever is suspended around it and whatever follows.
2. `layOut_of_fits`, `layOut_of_overflow`: the recursion yields the exact offsets when no unit
   overflows, and reports the first unit that does otherwise.
-/

namespace WireSchema

open Layout

/-! ## The recursion over a forest -/

/-- What laying out a forest yields: the progress behind it and the offset of every token. -/
structure Laid where
  behind : Progress
  offsets : List Offset

namespace Forest

/-- The size of an entity, given the progress behind its units. -/
def entitySize (start : Token) (inside : Progress) : Size :=
  if start.signal = .start .group ∨ start.size = .varying then .varying else inside.size

/-- Lays out a forest whose first token has the given position, in an entity that has come as far
as the given progress. -/
def layOut (position : Nat) (progress : Progress) : Forest → Except LayoutError Laid
  | empty => return ⟨progress, []⟩
  | point token rest => do
    let next ← progress.pass position token.size
    let later ← rest.layOut (position + 1) next
    return ⟨later.behind, progress.offset :: later.offsets⟩
  | entity start inside _ rest => do
    let within ← inside.layOut (position + 1) .zero
    let stop := position + 1 + inside.tokens.length
    let next ← progress.pass stop (entitySize start within.behind)
    let later ← rest.layOut (stop + 1) next
    return ⟨later.behind,
      progress.offset :: (within.offsets ++ progress.offset :: later.offsets)⟩

end Forest

/-! ## The flat walk is the recursion -/

namespace Layout

variable {index : Index} {position : Nat} {token : Token}

theorem offsets_point (noStart : token.signal.isStart = false)
    (noEnd : token.signal.isEnd = false) (progress : Progress) (pending : List Suspended)
    (rest : List Token) :
    offsets index progress pending position (token :: rest) = do
      let behind ← progress.pass position token.size
      let later ← offsets index behind pending (position + 1) rest
      return progress.offset :: later := by
  rw [offsets]
  cases signal : token.signal with
  | start kind =>
    rw [signal] at noStart
    cases noStart
  | stop kind =>
    rw [signal] at noEnd
    cases noEnd
  | enumValue | setChoice | encoding => rfl

theorem offsets_start {kind : EntityKind} (starts : token.signal = .start kind)
    (progress : Progress) (pending : List Suspended) (rest : List Token) :
    offsets index progress pending position (token :: rest) = do
      let later ← offsets index .zero (⟨position, kind, token.size, progress⟩ :: pending)
        (position + 1) rest
      return progress.offset :: later := by
  rw [offsets, starts]

theorem offsets_stop {innermost : Suspended} (stops : token.signal = .stop innermost.kind)
    (starts : index.startOf? position = some innermost.position) (progress : Progress)
    (outer : List Suspended) (rest : List Token) :
    offsets index progress (innermost :: outer) position (token :: rest) = do
      let around ← innermost.around.pass position (innermost.size progress)
      let later ← offsets index around outer (position + 1) rest
      return innermost.around.offset :: later := by
  rw [offsets, stops]
  exact if_pos ⟨starts, rfl⟩

/-- An entity is passed with the same size whether it was suspended or is a part of a forest. -/
theorem size_suspended {start : Token} {kind : EntityKind} (starts : start.signal = .start kind)
    (position : Nat) (inside around : Progress) :
    Suspended.size ⟨position, kind, start.size, around⟩ inside = Forest.entitySize start inside := by
  cases declared : start.size <;>
    simp [Suspended.size, Forest.entitySize, starts, declared, Size.isVarying]

/-- The flat walk over the tokens of a forest is the recursion over the forest, as long as the index
knows the start of every end. Nothing else of the index matters. -/
theorem offsets_tokens_append {f : Forest} (proper : f.Proper)
    (closed : ∀ start stop, (start, stop) ∈ f.brackets position → index.startOf? stop = some start)
    (progress : Progress) (pending : List Suspended) (rest : List Token) :
    offsets index progress pending position (f.tokens ++ rest) = do
      let laid ← f.layOut position progress
      let later ← offsets index laid.behind pending (position + f.tokens.length) rest
      return laid.offsets ++ later := by
  induction f generalizing position progress pending rest with
  | empty => simp [Forest.tokens, Forest.layOut]
  | point token others ih =>
    obtain ⟨noStart, noEnd, others_proper⟩ := proper
    have size : position + (Forest.point token others).tokens.length
        = position + 1 + others.tokens.length := by
      simp only [Forest.tokens, List.length_cons]
      omega
    rw [Forest.tokens, List.cons_append, offsets_point noStart noEnd, Forest.layOut, ← Forest.tokens,
      size]
    simp only [ih others_proper closed, bind_assoc, pure_bind, List.cons_append]
  | entity start inside stop others inside_ih others_ih =>
    obtain ⟨⟨kind, starts, stops⟩, inside_proper, others_proper⟩ := proper
    generalize last : position + 1 + inside.tokens.length = stop_position
    have opened := closed position stop_position ((Forest.mem_brackets_entity last).mpr (.inl rfl))
    have within (a b : Nat) (listed : (a, b) ∈ inside.brackets (position + 1)) :
        index.startOf? b = some a :=
      closed a b ((Forest.mem_brackets_entity last).mpr (.inr (.inl listed)))
    have behind (a b : Nat) (listed : (a, b) ∈ others.brackets (stop_position + 1)) :
        index.startOf? b = some a :=
      closed a b ((Forest.mem_brackets_entity last).mpr (.inr (.inr listed)))
    have size : position + (Forest.entity start inside stop others).tokens.length
        = stop_position + 1 + others.tokens.length := by
      simp only [Forest.tokens, List.length_cons, List.length_append]
      omega
    -- the inside is walked with the entity suspended, and the end takes it off the stack again
    have inner := inside_ih inside_proper within .zero
      (⟨position, kind, start.size, progress⟩ :: pending) (stop :: (others.tokens ++ rest))
    rw [last] at inner
    have ends (content : Progress) (more : List Token) :
        offsets index content (⟨position, kind, start.size, progress⟩ :: pending) stop_position
          (stop :: more) = do
            let around ← progress.pass stop_position (Forest.entitySize start content)
            let later ← offsets index around pending (stop_position + 1) more
            return progress.offset :: later := by
      rw [← size_suspended starts position content progress]
      exact offsets_stop stops opened content pending more
    rw [Forest.layOut, size, last, Forest.tokens, List.cons_append, List.append_assoc,
      List.cons_append, offsets_start starts, inner]
    simp only [ends, others_ih others_proper behind, bind_assoc, pure_bind, List.cons_append,
      List.append_assoc]

end Layout

/-! ## Counting exactly -/

/-- A size as a natural number, when it is known. -/
def Size.exact (s : Size) : Option Nat := s.bytes?.map UInt32.toNat

/-- An offset as a natural number, when it is known. -/
def Offset.exact (o : Offset) : Option Nat := o.bytes?.map UInt32.toNat

/-- The bytes passed so far as a natural number, when they are known. -/
def Layout.Progress.exact (p : Progress) : Option Nat := p.offset.exact

namespace Layout.Progress

theorem size_exact (p : Progress) : p.size.exact = p.exact := by
  cases p <;> rfl

/-- A unit that ends within 32 bits is passed, and its bytes are added. -/
theorem pass_of_fits (position : Nat) {progress : Progress} {size : Size}
    (fits : Forest.exceeds (Forest.behind progress.exact size.exact) = false) :
    ∃ next, progress.pass position size = .ok next ∧
      next.exact = Forest.behind progress.exact size.exact := by
  cases progress with
  | unmeasured => exact ⟨.unmeasured, by cases size <;> rfl, rfl⟩
  | measured before =>
    cases size with
    | varying => exact ⟨.unmeasured, rfl, rfl⟩
    | fixed bytes =>
      have bound : before.toNat + bytes.toNat < 2 ^ 32 := Nat.not_le.mp (of_decide_eq_false fits)
      refine ⟨.measured (before + bytes), if_pos bound, ?_⟩
      show some (before + bytes).toNat = some (before.toNat + bytes.toNat)
      rw [UInt32.toNat_add, Nat.mod_eq_of_lt bound]

/-- A unit that ends beyond 32 bits stops the layout at its last position. -/
theorem pass_of_exceeds (position : Nat) {progress : Progress} {size : Size}
    (exceeded : Forest.exceeds (Forest.behind progress.exact size.exact) = true) :
    progress.pass position size = .error (.overflow position) := by
  cases progress with
  | unmeasured => cases exceeded
  | measured before =>
    cases size with
    | varying => cases exceeded
    | fixed bytes =>
      have bound : 2 ^ 32 ≤ before.toNat + bytes.toNat := of_decide_eq_true exceeded
      exact if_neg (Nat.not_lt.mpr bound)

end Layout.Progress

namespace Forest

theorem behind_zero (bytes : Option Nat) : behind (some 0) bytes = bytes := by
  cases bytes <;> simp [behind]

theorem behind_assoc (offset first second : Option Nat) :
    behind (behind offset first) second = behind offset (behind first second) := by
  cases offset <;> cases first <;> cases second <;> simp [behind, Nat.add_assoc]

theorem entitySize_exact (start : Token) (inside : Progress) :
    (entitySize start inside).exact = entityBytes start inside.exact := by
  rw [entitySize, entityBytes]
  split
  · rfl
  · exact inside.size_exact

/-- The size of an entity is counted exactly when its units are, which begin at zero. -/
theorem entitySize_exact_of_inside (start : Token) {inside : Forest} {content : Progress}
    (counted : content.exact = behind Progress.zero.exact inside.bytes) :
    (entitySize start content).exact = entityBytes start inside.bytes := by
  rw [entitySize_exact, counted]
  exact congrArg _ (behind_zero _)

theorem ite_nil_eq_nil {exceeded : Bool} {position : Nat}
    (none : (if exceeded then [position] else []) = []) : exceeded = false := by
  cases exceeded with
  | false => rfl
  | true => cases none

/-- Without an overflow the recursion yields the exact offsets. -/
theorem layOut_of_fits {f : Forest} (position : Nat) (progress : Progress)
    (fits : f.overflows position progress.exact = []) :
    ∃ laid, f.layOut position progress = .ok laid ∧
      laid.behind.exact = behind progress.exact f.bytes ∧
      laid.offsets.map Offset.exact = f.offsets progress.exact := by
  induction f generalizing position progress with
  | empty =>
    refine ⟨⟨progress, []⟩, rfl, ?_, rfl⟩
    show progress.exact = behind progress.exact (some 0)
    cases progress.exact <;> rfl
  | point token rest ih =>
    obtain ⟨here, later⟩ := List.append_eq_nil_iff.mp fits
    rw [ownBytes, ← Size.exact] at here later
    obtain ⟨next, passed, counted⟩ := Progress.pass_of_fits position (ite_nil_eq_nil here)
    rw [← counted] at later
    obtain ⟨laid, laid_eq, behind_eq, offsets_eq⟩ := ih (position + 1) next later
    refine ⟨⟨laid.behind, progress.offset :: laid.offsets⟩, ?_, ?_, ?_⟩
    · rw [layOut, passed, ok_bind, laid_eq]
      rfl
    · show laid.behind.exact = _
      rw [behind_eq, counted, bytes, behind_assoc]
      rfl
    · rw [List.map_cons, offsets_eq, counted]
      rfl
  | entity start inside stop rest inside_ih rest_ih =>
    obtain ⟨inner, others⟩ := List.append_eq_nil_iff.mp fits
    obtain ⟨here, outer⟩ := List.append_eq_nil_iff.mp others
    obtain ⟨within, within_eq, inside_eq, inside_offsets⟩ := inside_ih (position + 1) .zero inner
    have extent := entitySize_exact_of_inside start inside_eq
    rw [← extent] at here outer
    obtain ⟨next, passed, counted⟩ := Progress.pass_of_fits (position + 1 + inside.tokens.length)
      (ite_nil_eq_nil here)
    rw [← counted] at outer
    obtain ⟨laid, laid_eq, behind_eq, offsets_eq⟩ := rest_ih _ next outer
    refine ⟨⟨laid.behind, progress.offset :: (within.offsets ++ progress.offset :: laid.offsets)⟩,
      ?_, ?_, ?_⟩
    · rw [layOut, within_eq, ok_bind]
      dsimp only
      rw [passed, ok_bind, laid_eq]
      rfl
    · show laid.behind.exact = _
      rw [behind_eq, counted, extent, bytes, behind_assoc]
    · rw [List.map_cons, List.map_append, List.map_cons, inside_offsets, offsets_eq, counted, extent]
      rfl

/-- The recursion reports the first unit that overflows. -/
theorem layOut_of_overflow {f : Forest} (position : Nat) (progress : Progress) {last : Nat}
    {others : List Nat} (exceeded : f.overflows position progress.exact = last :: others) :
    f.layOut position progress = .error (.overflow last) := by
  induction f generalizing position progress others with
  | empty => cases exceeded
  | point token rest ih =>
    change (if exceeds (behind progress.exact token.size.exact) then [position] else [])
      ++ rest.overflows (position + 1) (behind progress.exact token.size.exact) = _ at exceeded
    cases here : exceeds (behind progress.exact token.size.exact) with
    | true =>
      rw [here] at exceeded
      obtain ⟨rfl, _⟩ := List.cons.inj exceeded
      rw [layOut, Progress.pass_of_exceeds position here, error_bind]
    | false =>
      obtain ⟨next, passed, counted⟩ := Progress.pass_of_fits position here
      rw [here, ← counted] at exceeded
      rw [layOut, passed, ok_bind, ih (position + 1) next exceeded, error_bind]
  | entity start inside stop rest inside_ih rest_ih =>
    change inside.overflows (position + 1) Progress.zero.exact ++ _ = _ at exceeded
    -- the first overflow is inside the entity, at its end, or behind it
    cases inner : inside.overflows (position + 1) Progress.zero.exact with
    | cons first more =>
      rw [inner] at exceeded
      obtain ⟨rfl, _⟩ := List.cons.inj exceeded
      rw [layOut, inside_ih (position + 1) .zero inner, error_bind]
    | nil =>
      obtain ⟨within, within_eq, inside_eq, _⟩ := layOut_of_fits (position + 1) .zero inner
      have extent := entitySize_exact_of_inside start inside_eq
      rw [inner, List.nil_append, ← extent] at exceeded
      rw [layOut, within_eq, ok_bind]
      dsimp only
      cases here : exceeds (behind progress.exact (entitySize start within.behind).exact) with
      | true =>
        rw [here] at exceeded
        obtain ⟨rfl, _⟩ := List.cons.inj exceeded
        rw [Progress.pass_of_exceeds _ here, error_bind]
      | false =>
        obtain ⟨next, passed, counted⟩ :=
          Progress.pass_of_fits (position + 1 + inside.tokens.length) here
        rw [here, ← counted] at exceeded
        rw [passed, ok_bind, rest_ih _ next exceeded, error_bind]

/-- Nothing overflows in a forest that has been laid out. -/
theorem fits_of_layOut {f : Forest} {position : Nat} {progress : Progress} {laid : Laid}
    (done : f.layOut position progress = .ok laid) : f.overflows position progress.exact = [] := by
  cases exceeded : f.overflows position progress.exact with
  | nil => rfl
  | cons last others =>
    rw [layOut_of_overflow position progress exceeded] at done
    cases done

/-- The offsets that the recursion assigns are the exact ones. -/
theorem offsets_of_layOut {f : Forest} {position : Nat} {progress : Progress} {laid : Laid}
    (done : f.layOut position progress = .ok laid) :
    laid.offsets.map Offset.exact = f.offsets progress.exact := by
  obtain ⟨found, found_eq, _, offsets_eq⟩ := layOut_of_fits position progress (fits_of_layOut done)
  obtain rfl := Except.ok.inj (found_eq.symm.trans done)
  exact offsets_eq

/-- Behind a forest the bytes of its units have been passed. -/
theorem behind_of_layOut {f : Forest} {position : Nat} {progress : Progress} {laid : Laid}
    (done : f.layOut position progress = .ok laid) :
    laid.behind.exact = behind progress.exact f.bytes := by
  obtain ⟨found, found_eq, behind_eq, _⟩ := layOut_of_fits position progress (fits_of_layOut done)
  obtain rfl := Except.ok.inj (found_eq.symm.trans done)
  exact behind_eq

theorem length_of_layOut {f : Forest} {position : Nat} {progress : Progress} {laid : Laid}
    (done : f.layOut position progress = .ok laid) : laid.offsets.length = f.tokens.length := by
  rw [← List.length_map Offset.exact, offsets_of_layOut done, offsets_length]

/-- The recursion fails for an overflow and for nothing else. -/
theorem overflow_of_layOut {f : Forest} {position : Nat} {progress : Progress} {e : LayoutError}
    (failed : f.layOut position progress = .error e) : ∃ last, e = .overflow last := by
  cases exceeded : f.overflows position progress.exact with
  | nil =>
    obtain ⟨found, found_eq, _⟩ := layOut_of_fits position progress exceeded
    rw [found_eq] at failed
    cases failed
  | cons last others =>
    rw [layOut_of_overflow position progress exceeded] at failed
    exact ⟨last, (Except.error.inj failed).symm⟩

end Forest

end WireSchema
