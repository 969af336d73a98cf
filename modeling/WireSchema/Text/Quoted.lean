import WireSchema.Text.Unprintable

/-!
# Quoted text

Names and strings are shown between double quotes, on one line whatever they contain: a few
characters have escapes of their own, and every character without a visible form is written as
its code point in braces.

Results:

1. `quoteChar_ne_control`: no control character below the space survives quoting.
-/

namespace WireSchema.Text

def decimal (n : Nat) : List Char :=
  Nat.toDigits 10 n

def hexadecimal (n : Nat) : List Char :=
  Nat.toDigits 16 n

/-- A character inside quotes. -/
def quoteChar (c : Char) : List Char :=
  if c = '\x00' then ['\\', '0']
  else if c = '\t' then ['\\', 't']
  else if c = '\r' then ['\\', 'r']
  else if c = '\n' then ['\\', 'n']
  else if c = '\\' then ['\\', '\\']
  else if c = '"' then ['\\', '"']
  else if isUnprintable c then ['\\', 'u', '\x7b'] ++ hexadecimal c.toNat ++ ['\x7d']
  else [c]

/-- A text between double quotes. -/
def quote (text : List Char) : List Char :=
  '"' :: text.flatMap quoteChar ++ ['"']

/-- Digits of any base up to sixteen lie above the space. -/
theorem digitChar_ne_control (n : Nat) : 0x20 ≤ (Nat.digitChar n).toNat := by
  by_cases small : n < 16
  · have each : ∀ m < 16, 0x20 ≤ (Nat.digitChar m).toNat := by decide
    exact each n small
  · rw [Nat.digitChar_eq_star.2 (by omega)]
    decide

theorem toDigits_ne_control {base n : Nat} {c : Char} (h : c ∈ Nat.toDigits base n) :
    0x20 ≤ c.toNat := by
  have core : ∀ fuel n (ds : List Char), (∀ d ∈ ds, 0x20 ≤ d.toNat) →
      ∀ d ∈ Nat.toDigitsCore base fuel n ds, 0x20 ≤ d.toNat := by
    intro fuel
    induction fuel with
    | zero => intro n ds hds d hd; exact hds d (by simpa [Nat.toDigitsCore] using hd)
    | succ fuel ih =>
      intro n ds hds d hd
      have grown : ∀ d ∈ (Nat.digitChar (n % base) :: ds), 0x20 ≤ d.toNat := by
        intro d hd
        rcases List.mem_cons.1 hd with rfl | old
        · exact digitChar_ne_control _
        · exact hds d old
      simp only [Nat.toDigitsCore] at hd
      split at hd
      · exact grown d hd
      · exact ih _ _ grown d hd
  exact core _ _ [] (by simp) c h

theorem quoteChar_ne_control {c d : Char} (h : d ∈ quoteChar c) : 0x20 ≤ d.toNat := by
  unfold quoteChar at h
  split at h
  · rcases (by simpa using h : d = '\\' ∨ d = '0') with rfl | rfl <;> decide
  split at h
  · rcases (by simpa using h : d = '\\' ∨ d = 't') with rfl | rfl <;> decide
  split at h
  · rcases (by simpa using h : d = '\\' ∨ d = 'r') with rfl | rfl <;> decide
  split at h
  · rcases (by simpa using h : d = '\\' ∨ d = 'n') with rfl | rfl <;> decide
  split at h
  · rcases (by simpa using h : d = '\\') with rfl; decide
  split at h
  · rcases (by simpa using h : d = '\\' ∨ d = '"') with rfl | rfl <;> decide
  split at h
  · simp only [List.mem_append, List.mem_cons, List.not_mem_nil, or_false] at h
    rcases h with ((rfl | rfl | rfl) | digits) | rfl
    · decide
    · decide
    · decide
    · exact toDigits_ne_control digits
    · decide
  · rename_i visible
    obtain rfl : d = c := by simpa using h
    by_cases ascii : d.toNat < 0x7f
    · exact (printable_ascii ascii).1 (by simpa using visible)
    · omega

end WireSchema.Text
