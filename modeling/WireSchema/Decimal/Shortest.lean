import WireSchema.Decimal.Binary64
import WireSchema.Text.Quoted

/-!
# Shortest decimals

The text of a floating-point number: the fewest decimal digits that no other number of the format
is nearer to, and of those the nearest. The digits are written with a point between the sixth
place behind it and the sixteenth before it, and with an exponent outside; a whole number shows
that it is a floating-point number by a zero behind the point.
-/

namespace WireSchema

/-- The decimal `coefficient * 10 ^ exponent`. -/
structure Decimal where
  coefficient : Nat
  exponent : Int
  deriving DecidableEq, Repr

namespace Binary64

/-- Four times the distances of a number to the ends of the interval that rounds to it, in units of
the last place: the interval is narrower below a power of two. -/
def margins (x : Binary64) : Nat × Nat :=
  if x.significand = 1 <<< 52 ∧ minExponent < x.exponent then (1, 2) else (2, 2)

/-- The position of the first digit of a positive fraction: the exponent of the largest power of
ten that does not exceed it. -/
def leadingPlace (n d : Nat) : Int :=
  if d ≤ n then (Text.decimal (n / d)).length - 1
  else -((Text.decimal ((d + n - 1) / n - 1)).length : Int)

/-- The decimal nearest to a number among those with a given last place that round to it. -/
def onGrid? (x : Binary64) (place : Int) : Option Decimal :=
  let (p, r) := powerOfTwo (x.exponent - 2)
  let (s, t) := if 0 ≤ place then (1, Nat.pow 10 place.toNat) else (Nat.pow 10 (-place).toNat, 1)
  let unit := r * t
  let value := 4 * x.significand * p * s
  let low := (4 * x.significand - x.margins.1) * p * s
  let high := (4 * x.significand + x.margins.2) * p * s
  let inside (k : Nat) : Bool :=
    if x.significand % 2 = 0 then low ≤ k * unit && k * unit ≤ high
    else low < k * unit && k * unit < high
  let below := value / unit
  match inside below, inside (below + 1) with
  | true, true => some ⟨roundQuotient value unit, place⟩
  | true, false => some ⟨below, place⟩
  | false, true => some ⟨below + 1, place⟩
  | false, false => none

/-- The shortest decimal that rounds to a positive number. Seventeen digits always suffice. -/
def shortest (x : Binary64) : Decimal :=
  let (n, d) := x.toFraction
  let first := leadingPlace n d
  ((List.range 17).findSome? fun (k : Nat) => x.onGrid? (first - k)).getD ⟨0, 0⟩

/-- Digits and the place of the first one as text. -/
def layDigits (digits : List Char) (place : Int) : List Char :=
  let zeros (n : Int) := List.replicate n.toNat '0'
  if 0 ≤ place ∧ place ≤ 15 then
    if digits.length ≤ place + 1 then
      digits ++ zeros (place + 1 - digits.length) ++ ['.', '0']
    else digits.take (place + 1).toNat ++ '.' :: digits.drop (place + 1).toNat
  else if -5 ≤ place ∧ place < 0 then
    '0' :: '.' :: zeros (-place - 1) ++ digits
  else
    let mantissa :=
      match digits with
      | first :: second :: others => first :: '.' :: second :: others
      | _ => digits
    let sign := if place < 0 then '-' else '+'
    mantissa ++ 'e' :: sign :: Text.decimal place.natAbs

def toText (x : Binary64) : List Char :=
  if x.significand = 0 then ['0', '.', '0']
  else
    let decimal := x.shortest
    let digits := Text.decimal decimal.coefficient
    let kept := (digits.reverse.dropWhile (· == '0')).reverse
    layDigits kept (digits.length - 1 + decimal.exponent)

end Binary64

end WireSchema
