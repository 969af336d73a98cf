import WireSchema.Decimal.Binary64

/-!
# Numerals

The spelling of a JSON number, and the number it stands for. A numeral without point and exponent
is an integer as far as 64 bits reach; any other is a floating-point number. Of its digits only as
many count as fit in an unsigned integer of 64 bits; the power of ten is applied to the number made
of them.
-/

namespace WireSchema.Json

/-- Why a text stops being JSON: it ends too early, or it goes on with a character that cannot
stand there. -/
inductive Fault
  | truncated
  | malformed
  deriving DecidableEq, Repr

/-- The fault of a text that should go on with something else. -/
def faultAt : List Char → Fault
  | [] => .truncated
  | _ :: _ => .malformed

/-- The digits and marks of a number. -/
structure Numeral where
  negative : Bool
  whole : List Char
  fraction : Option (List Char)
  /-- Whether the exponent is negative, and its digits. -/
  exponent : Option (Bool × List Char)
  deriving DecidableEq, Repr

/-- What a numeral stands for. -/
inductive Number
  | integer (value : Int)
  | floating (negative : Bool) (magnitude : Binary64)
  deriving DecidableEq, Repr

namespace Numeral

/-! ## Reading -/

/-- Reads at least one digit. -/
def readDigits (s : List Char) : Except Fault (List Char × List Char) :=
  match s.span Char.isDigit with
  | ([], rest) => .error (faultAt rest)
  | (digits, rest) => .ok (digits, rest)

/-- Reads the digits before the point. A zero stands alone. -/
def readWhole (s : List Char) : Except Fault (List Char × List Char) := do
  match ← readDigits s with
  | ('0' :: _ :: _, _) => .error .malformed
  | read => return read

/-- Reads a point and the digits behind it, if there is a point. -/
def readFraction : List Char → Except Fault (Option (List Char) × List Char)
  | '.' :: rest => do
    let (digits, rest) ← readDigits rest
    return (some digits, rest)
  | rest => .ok (none, rest)

def readSign : List Char → Bool × List Char
  | '+' :: rest => (false, rest)
  | '-' :: rest => (true, rest)
  | rest => (false, rest)

/-- Reads an exponent, if there is one. -/
def readExponent : List Char → Except Fault (Option (Bool × List Char) × List Char)
  | mark :: rest =>
    if mark = 'e' || mark = 'E' then do
      let (negative, rest) := readSign rest
      let (digits, rest) ← readDigits rest
      return (some (negative, digits), rest)
    else .ok (none, mark :: rest)
  | [] => .ok (none, [])

def read (s : List Char) : Except Fault (Numeral × List Char) := do
  let (negative, s) := match s with
    | '-' :: rest => (true, rest)
    | _ => (false, s)
  let (whole, s) ← readWhole s
  let (fraction, s) ← readFraction s
  let (exponent, s) ← readExponent s
  return (⟨negative, whole, fraction, exponent⟩, s)

/-! ## Meaning -/

def digitValue (c : Char) : Nat :=
  c.toNat - '0'.toNat

/-- Adds digits to a number as long as it stays below a bound; the digits left over. -/
def gather (bound : Nat) (n : Nat) : List Char → Nat × List Char
  | [] => (n, [])
  | c :: rest =>
    if n * 10 + digitValue c < bound then gather bound (n * 10 + digitValue c) rest
    else (n, c :: rest)

/-- The coefficient that the digits before and behind the point make together, and the power of
ten that belongs to it. -/
def coefficient (numeral : Numeral) : Nat × Int :=
  let (n, dropped) := gather UInt64.size 0 numeral.whole
  match numeral.fraction with
  | none => (n, dropped.length)
  | some digits =>
    let (n, ignored) := gather UInt64.size n digits
    (n, dropped.length - (digits.length - ignored.length : Nat))

/-- A coefficient times a power of ten, unless that is too large. -/
def floating (negative : Bool) (coefficient : Nat) (exponent : Int) : Except Fault Number :=
  match (Binary64.ofNat coefficient).scale exponent with
  | some magnitude => .ok (.floating negative magnitude)
  | none => .error .malformed

/-- The number that a numeral stands for. A number too large for the floating-point format is a
fault. -/
def value (numeral : Numeral) : Except Fault Number :=
  let (n, power) := numeral.coefficient
  match numeral.exponent with
  | some (negative, digits) =>
    match gather 0x80000000 0 digits with
    | (exponent, []) =>
      floating numeral.negative n (if negative then power - exponent else power + exponent)
    | (_, _ :: _) =>
      if n = 0 ∨ negative then .ok (.floating numeral.negative .zero) else .error .malformed
  | none =>
    if numeral.fraction.isSome ∨ power ≠ 0 then floating numeral.negative n power
    else if numeral.negative then
      if 0 < n ∧ n ≤ 0x8000000000000000 then .ok (.integer (-n)) else floating true n 0
    else .ok (.integer n)

end Numeral

end WireSchema.Json
