/-!
# Binary floating-point numbers

Finite non-negative numbers of the 64-bit binary format, as a significand and a power of two, with
the operations rounded to the nearest number of the format, ties to the even significand. All
arithmetic is on natural numbers.
-/

namespace WireSchema

/-- The number `significand * 2 ^ exponent`. -/
structure Binary64 where
  significand : Nat
  exponent : Int
  deriving DecidableEq, Repr

namespace Binary64

/-- The exponent of the smallest numbers of the format. -/
def minExponent : Int := -1074

/-- The exponent of the largest numbers of the format. -/
def maxExponent : Int := 971

def zero : Binary64 := ⟨0, minExponent⟩

/-- A power of two with a possibly negative exponent, as a fraction. -/
def powerOfTwo (exponent : Int) : Nat × Nat :=
  if 0 ≤ exponent then (1 <<< exponent.toNat, 1) else (1, 1 <<< (-exponent).toNat)

def toFraction (x : Binary64) : Nat × Nat :=
  let (n, d) := powerOfTwo x.exponent
  (x.significand * n, d)

/-- The natural number nearest to a quotient; of two equally near, the even one. -/
def roundQuotient (n d : Nat) : Nat :=
  let q := n / d
  let r := n % d
  if 2 * r < d then q
  else if d < 2 * r then q + 1
  else if q % 2 = 0 then q else q + 1

/-- The number of the format nearest to a fraction, unless it is too large for the format. -/
def ofFraction (n d : Nat) : Option Binary64 :=
  if n = 0 then some zero
  else
    let guess := max minExponent ((Nat.log2 n : Int) - Nat.log2 d - 53)
    let (p, r) := powerOfTwo guess
    let exponent := if n * r / (d * p) < 1 <<< 53 then guess else guess + 1
    let (p, r) := powerOfTwo exponent
    let significand := roundQuotient (n * r) (d * p)
    let x : Binary64 :=
      if significand = 1 <<< 53 then ⟨1 <<< 52, exponent + 1⟩ else ⟨significand, exponent⟩
    if x.exponent ≤ maxExponent then some x else none

/-- The number of the format nearest to a natural number below `2 ^ 1024`. -/
def ofNat (n : Nat) : Binary64 :=
  (ofFraction n 1).getD zero

/-- The product, rounded; nothing when it is too large. -/
def mul (x y : Binary64) : Option Binary64 :=
  let (a, b) := x.toFraction
  let (c, d) := y.toFraction
  ofFraction (a * c) (b * d)

/-- The quotient by a number other than zero, rounded; nothing when it is too large. -/
def div (x y : Binary64) : Option Binary64 :=
  let (a, b) := x.toFraction
  let (c, d) := y.toFraction
  ofFraction (a * d) (b * c)

/-- The number of the format nearest to a power of ten, for exponents up to 308. -/
def powerOfTen (exponent : Nat) : Binary64 :=
  ofNat (Nat.pow 10 exponent)

/-- The largest power of ten of the format. -/
def largestPower : Nat := 308

/-- A number divided by the largest power of ten, a number of times; zero stays zero. -/
def divideOff : Nat → Binary64 → Option Binary64
  | 0, x => some x
  | times + 1, x =>
    if x.significand = 0 then some x
    else
      match x.div (powerOfTen largestPower) with
      | none => none
      | some y => divideOff times y

/-- A number times a power of ten. The power is rounded before the product or quotient is; a power
below the reach of the format is divided off in steps. Nothing when the result is too large. -/
def scale (x : Binary64) (exponent : Int) : Option Binary64 :=
  if 0 ≤ exponent then
    if exponent ≤ largestPower then x.mul (powerOfTen exponent.toNat)
    else if x.significand = 0 then some x
    else none
  else
    let places := (-exponent).toNat
    let times := (places - 1) / largestPower
    match divideOff times x with
    | none => none
    | some y => y.div (powerOfTen (places - largestPower * times))

end Binary64

end WireSchema
