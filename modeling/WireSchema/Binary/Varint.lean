import WireSchema.Sequencing

/-!
# Variable-length integers

Unsigned integers are written in base 128, the least significant digit first; every byte but the
last has its top bit set. A width bounds the number of bytes and the last digit, so that exactly
the integers of that width have a written form. Readers accept digits of value zero at the end as
long as the number of bytes allows them. Signed integers are folded into unsigned ones, so that
small magnitudes stay short.

Results:

1. `read_write`: an integer of the width is read back, whatever follows it.
2. `unfold_fold`, `fold_unfold`: folding is a bijection.
-/

namespace WireSchema

/-- Why a payload cannot be read. -/
inductive PayloadError
  | unexpectedEnd
  /-- An integer with too many digits. -/
  | badVarint
  /-- A mark of presence that is neither zero nor one. -/
  | badOption
  | badText
  /-- A well-formed value that means nothing: an unknown number in a vocabulary, a wire integer
  out of range, a token without metadata. -/
  | badValue
  deriving DecidableEq, Repr

def PayloadError.message : PayloadError → String
  | unexpectedEnd => "Hit the end of buffer, expected more data"
  | badVarint =>
    "Found a varint that didn't terminate. Is the usize too big for this platform?"
  | badOption => "Found an Option discriminant that wasn't 0 or 1"
  | badText => "Tried to parse invalid utf-8"
  | badValue => "Serde Deserialization Error"

/-- Reads a value off the front of a payload and leaves the rest. -/
abbrev PayloadReader := StateT (List UInt8) (Except PayloadError)

/-- A reader goes on where the one before it stopped. -/
theorem PayloadReader.bind_eq {α β : Type} {read : PayloadReader α} {next : α → PayloadReader β}
    {bytes rest : List UInt8} {a : α} (h : read bytes = .ok (a, rest)) :
    (read >>= next) bytes = next a rest := by
  show (read bytes >>= fun p => next p.1 p.2) = _
  rw [h]
  rfl

/-- A reader that fails stops the ones behind it. -/
theorem PayloadReader.bind_error {α β : Type} {read : PayloadReader α}
    {next : α → PayloadReader β} {bytes : List UInt8} {e : PayloadError}
    (h : read bytes = .error e) : (read >>= next) bytes = .error e := by
  show (read bytes >>= fun p => next p.1 p.2) = _
  rw [h]
  rfl

/-- A sequence of readers succeeds when each of them does on what the one before it left. -/
theorem PayloadReader.exists_of_bind {α β : Type} {read : PayloadReader α}
    {next : α → PayloadReader β} {bytes rest : List UInt8} {b : β}
    (h : (read >>= next) bytes = .ok (b, rest)) :
    ∃ a left, read bytes = .ok (a, left) ∧ next a left = .ok (b, rest) := by
  obtain ⟨⟨a, left⟩, first, then_read⟩ := bind_eq_ok_iff.mp h
  exact ⟨a, left, first, then_read⟩

namespace Varint

/-- How long an integer may be: bytes before the last, and the largest last byte. -/
structure Width where
  before : Nat
  last : Nat
  deriving DecidableEq, Repr

/-- Integers below `2 ^ 32`: five bytes, the last one at most 15. -/
def word : Width := ⟨4, 15⟩

/-- Integers below `2 ^ 64`: ten bytes, the last one at most 1. -/
def long : Width := ⟨9, 1⟩

/-- The number of integers of a width. -/
def Width.bound (w : Width) : Nat := (w.last + 1) * Nat.pow 128 w.before

/-- The digits of an integer, given how many bytes may precede the last. -/
def digits : (before : Nat) → Nat → List UInt8
  | 0, n => [UInt8.ofNat n]
  | before + 1, n =>
    if n < 128 then [UInt8.ofNat n]
    else UInt8.ofNat (n % 128 + 128) :: digits before (n / 128)

def write (w : Width) (n : Nat) : List UInt8 :=
  digits w.before n

/-- Reads digits, given how many bytes may precede the last and how large the last may be. -/
def readDigits (last : Nat) : (before : Nat) →
    List UInt8 → Except PayloadError (Nat × List UInt8)
  | _, [] => .error .unexpectedEnd
  | 0, byte :: rest => if byte.toNat ≤ last then .ok (byte.toNat, rest) else .error .badVarint
  | before + 1, byte :: rest =>
    if byte.toNat < 128 then .ok (byte.toNat, rest)
    else
      match readDigits last before rest with
      | .error e => .error e
      | .ok (high, rest) => .ok (byte.toNat - 128 + 128 * high, rest)

def read (w : Width) : PayloadReader Nat :=
  readDigits w.last w.before

theorem digits_length_pos (before n : Nat) : 0 < (digits before n).length := by
  cases before with
  | zero => exact Nat.one_pos
  | succ before =>
    rw [digits]
    split <;> exact Nat.succ_pos _

theorem Width.bound_zero (last : Nat) : Width.bound ⟨0, last⟩ = last + 1 :=
  Nat.mul_one (last + 1)

theorem Width.bound_succ (before last : Nat) :
    Width.bound ⟨before + 1, last⟩ = Width.bound ⟨before, last⟩ * 128 :=
  (Nat.mul_assoc (last + 1) (Nat.pow 128 before) 128).symm

theorem readDigits_digits {last before n : Nat} (small : last < 128)
    (bound : n < Width.bound ⟨before, last⟩) (rest : List UInt8) :
    readDigits last before (digits before n ++ rest) = .ok (n, rest) := by
  induction before generalizing n with
  | zero =>
    rw [Width.bound_zero] at bound
    have byte : (UInt8.ofNat n).toNat = n := by
      rw [UInt8.toNat_ofNat']
      omega
    simp only [digits, List.cons_append, List.nil_append, readDigits, byte]
    rw [if_pos (by omega)]
  | succ before ih =>
    rw [digits]
    split
    · rename_i short
      have byte : (UInt8.ofNat n).toNat = n := by
        rw [UInt8.toNat_ofNat']
        omega
      simp [readDigits, byte, short]
    · have byte : (UInt8.ofNat (n % 128 + 128)).toNat = n % 128 + 128 := by
        rw [UInt8.toNat_ofNat']
        omega
      have high : n / 128 < Width.bound ⟨before, last⟩ := by
        apply Nat.div_lt_of_lt_mul
        rw [Width.bound_succ, Nat.mul_comm] at bound
        exact bound
      simp only [List.cons_append, readDigits, byte, ih high]
      rw [if_neg (by omega)]
      simp only [Except.ok.injEq, Prod.mk.injEq, and_true]
      omega

theorem read_write_word {n : Nat} (bound : n < UInt32.size) (rest : List UInt8) :
    read word (write word n ++ rest) = .ok (n, rest) :=
  readDigits_digits (by decide) bound rest

theorem read_write_long {n : Nat} (bound : n < UInt64.size) (rest : List UInt8) :
    read long (write long n ++ rest) = .ok (n, rest) :=
  readDigits_digits (by decide) bound rest

/-- The unsigned integer for a signed one: non-negative integers become even, negative ones
odd. -/
def fold (i : Int) : Nat :=
  if 0 ≤ i then 2 * i.toNat else 2 * (-i).toNat - 1

/-- The signed integer that an unsigned one stands for. -/
def unfold (n : Nat) : Int :=
  if n % 2 = 0 then (n / 2 : Nat) else -((n / 2 : Nat) + 1 : Int)

theorem unfold_fold (i : Int) : unfold (fold i) = i := by
  unfold fold unfold
  split <;> split <;> omega

theorem fold_unfold (n : Nat) : fold (unfold n) = n := by
  unfold fold unfold
  split <;> split <;> omega

end Varint

end WireSchema
