/-!
# Sequences of steps

The passes over a stream are sequences of steps of which each may fail. A sequence succeeds when
every step of it does, and stops with the first failure.
-/

namespace WireSchema

variable {ε α β : Type}

theorem ok_bind (a : α) (next : α → Except ε β) : (Except.ok a >>= next) = next a :=
  rfl

theorem error_bind (e : ε) (next : α → Except ε β) : (Except.error e >>= next) = .error e :=
  rfl

/-- A step and what follows it succeed together. -/
theorem bind_eq_ok_iff {step : Except ε α} {next : α → Except ε β} {b : β} :
    (step >>= next) = .ok b ↔ ∃ a, step = .ok a ∧ next a = .ok b := by
  cases step with
  | error e =>
    rw [error_bind]
    constructor
    · intro done
      cases done
    · rintro ⟨a, done, _⟩
      cases done
  | ok a =>
    rw [ok_bind]
    constructor
    · intro done
      exact ⟨a, rfl, done⟩
    · rintro ⟨_, same, done⟩
      obtain rfl := Except.ok.inj same
      exact done

/-- A sequence fails with the step, or with what follows it. -/
theorem bind_eq_error_iff {step : Except ε α} {next : α → Except ε β} {e : ε} :
    (step >>= next) = .error e ↔ step = .error e ∨ ∃ a, step = .ok a ∧ next a = .error e := by
  cases step with
  | error e' =>
    rw [error_bind]
    constructor
    · intro failed
      obtain rfl := Except.error.inj failed
      exact .inl rfl
    · rintro (failed | ⟨a, done, _⟩)
      · obtain rfl := Except.error.inj failed
        rfl
      · cases done
  | ok a =>
    rw [ok_bind]
    constructor
    · intro failed
      exact .inr ⟨a, rfl, failed⟩
    · rintro (failed | ⟨_, same, failed⟩)
      · cases failed
      · obtain rfl := Except.ok.inj same
        exact failed

/-- A last step that cannot fail adds no failure. -/
theorem bind_pure_eq_error_iff {step : Except ε α} {last : α → β} {e : ε} :
    (step >>= fun a => pure (last a)) = .error e ↔ step = .error e := by
  refine bind_eq_error_iff.trans ⟨fun failed => failed.resolve_right ?_, .inl⟩
  rintro ⟨a, _, done⟩
  cases done

theorem mapError_ok {ε' : Type} (tell : ε → ε') (a : α) :
    (Except.ok a).mapError tell = .ok a :=
  rfl

theorem mapError_error {ε' : Type} (tell : ε → ε') (e : ε) :
    (Except.error e : Except ε α).mapError tell = .error (tell e) :=
  rfl

/-- Telling a failure otherwise does not change what succeeds. -/
theorem mapError_eq_ok_iff {ε' : Type} {step : Except ε α} {tell : ε → ε'} {a : α} :
    step.mapError tell = .ok a ↔ step = .ok a := by
  cases step with
  | error e =>
    constructor <;> intro done <;> cases done
  | ok a' =>
    constructor <;> intro same <;> obtain rfl := Except.ok.inj same <;> rfl

end WireSchema
