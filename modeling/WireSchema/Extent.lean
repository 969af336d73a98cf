/-!
# Sizes and offsets

Sizes and offsets are byte counts that may be unknown until run time. Serialized forms write such
a count as one signed integer, with a sentinel for the unknown case; in memory the two cases are
constructors, so that a deferred count is never mistaken for a legitimate zero.

Results:

1. `Size.ofWire_toWire`, `Offset.ofWire_toWire`: every size and offset survives its wire integer.
-/

namespace WireSchema

/-- The wire integer of a size or offset that is not known statically. -/
def sentinel : Int64 := -1

/-- The two quantities that a wire integer may stand for. -/
inductive Quantity
  | size
  | offset
  deriving DecidableEq, Repr

/-- The word for the quantity in messages. -/
def Quantity.word : Quantity → String
  | size => "size"
  | offset => "offset"

/-- A wire integer that is neither a 32-bit count nor the sentinel. -/
structure WireError where
  quantity : Quantity
  value : Int64
  deriving DecidableEq, Repr

def WireError.message (e : WireError) : String :=
  "invalid " ++ e.quantity.word ++ " on the wire: " ++ e.value.toInt.repr
    ++ " (expected -1 or 0..=4294967295)"

/-- A byte count on the wire: itself, or the sentinel when it is unknown. -/
def wireOfCount : Option UInt32 → Int64
  | some n => Int64.ofNat n.toNat
  | none => sentinel

/-- The count that a wire integer stands for, if it stands for one. -/
def countOfWire? (value : Int64) : Option (Option UInt32) :=
  if value = sentinel then some none
  else if 0 ≤ value.toInt ∧ value.toInt < UInt32.size then
    some (some (UInt32.ofNat value.toInt.toNat))
  else none

theorem toInt_ofNat_of_lt {n : Nat} (h : n < UInt32.size) : (Int64.ofNat n).toInt = n := by
  have bound : n < 2 ^ 32 := h
  rw [← Int64.ofInt_eq_ofNat]
  exact Int64.toInt_ofInt_of_le (by omega) (by omega)

theorem countOfWire?_wireOfCount (count : Option UInt32) :
    countOfWire? (wireOfCount count) = some count := by
  cases count with
  | none => simp [countOfWire?, wireOfCount]
  | some n =>
    have value := toInt_ofNat_of_lt n.toNat_lt
    have inside : 0 ≤ (Int64.ofNat n.toNat).toInt ∧ (Int64.ofNat n.toNat).toInt < UInt32.size := by
      rw [value]
      exact ⟨Int.natCast_nonneg _, Int.ofNat_lt.mpr n.toNat_lt⟩
    have proper : Int64.ofNat n.toNat ≠ sentinel := by
      intro h
      have : (Int64.ofNat n.toNat).toInt = -1 := by rw [h]; decide
      omega
    rw [wireOfCount, countOfWire?, if_neg proper, if_pos inside]
    simp [value]

/-- The byte length of a token. -/
inductive Size
  /-- Statically known. Zero means that the token occupies no bytes. -/
  | fixed (bytes : UInt32)
  /-- Determined only when a message is encoded or decoded. -/
  | varying
  deriving DecidableEq, Repr

namespace Size

/-- The size of a token that occupies no bytes. -/
def zero : Size := fixed 0

/-- The number of bytes, when it is known. -/
def bytes? : Size → Option UInt32
  | fixed n => some n
  | varying => none

/-- Whether the size is only known at run time. -/
def isVarying : Size → Bool
  | fixed _ => false
  | varying => true

def toWire (s : Size) : Int64 :=
  wireOfCount s.bytes?

def ofWire (value : Int64) : Except WireError Size :=
  match countOfWire? value with
  | some (some n) => .ok (fixed n)
  | some none => .ok varying
  | none => .error ⟨.size, value⟩

def display : Size → String
  | fixed n => n.toNat.repr
  | varying => "var"

theorem ofWire_toWire (s : Size) : ofWire s.toWire = .ok s := by
  rw [ofWire, toWire, countOfWire?_wireOfCount]
  cases s <;> rfl

end Size

/-- The byte position of a token within its enclosing entity. -/
inductive Offset
  | known (bytes : UInt32)
  /-- Depends on the run-time length of what comes before. -/
  | unknown
  deriving DecidableEq, Repr

namespace Offset

/-- The offset of the first unit of an entity. -/
def zero : Offset := known 0

/-- The byte position, when it is known. -/
def bytes? : Offset → Option UInt32
  | known n => some n
  | unknown => none

/-- Whether the position depends on run-time lengths. -/
def isUnknown : Offset → Bool
  | known _ => false
  | unknown => true

def toWire (o : Offset) : Int64 :=
  wireOfCount o.bytes?

def ofWire (value : Int64) : Except WireError Offset :=
  match countOfWire? value with
  | some (some n) => .ok (known n)
  | some none => .ok unknown
  | none => .error ⟨.offset, value⟩

def display : Offset → String
  | known n => n.toNat.repr
  | unknown => "?"

theorem ofWire_toWire (o : Offset) : ofWire o.toWire = .ok o := by
  rw [ofWire, toWire, countOfWire?_wireOfCount]
  cases o <;> rfl

end Offset

end WireSchema
