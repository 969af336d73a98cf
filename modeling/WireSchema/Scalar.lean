import WireSchema.Vocabulary

/-!
# Scalar encodings

The primitive type and the byte order that a leaf token carries.
-/

namespace WireSchema

/-- The primitive type of a leaf. -/
inductive ScalarType
  /-- A single-byte ASCII character. -/
  | char
  | int8
  | int16
  | int32
  | int64
  | uint8
  | uint16
  | uint32
  | uint64
  /-- IEEE 754 single precision. -/
  | float
  /-- IEEE 754 double precision. -/
  | double
  deriving DecidableEq, Repr

namespace ScalarType

def name : ScalarType → String
  | char => "char"
  | int8 => "int8"
  | int16 => "int16"
  | int32 => "int32"
  | int64 => "int64"
  | uint8 => "uint8"
  | uint16 => "uint16"
  | uint32 => "uint32"
  | uint64 => "uint64"
  | float => "float"
  | double => "double"

instance : Vocabulary ScalarType where
  terms := [char, int8, int16, int32, int64, uint8, uint16, uint32, uint64, float, double]
  name := name
  complete a := by cases a <;> decide
  name_injective a b h := by cases a <;> cases b <;> simp_all [name]

def size : ScalarType → UInt32
  | char | int8 | uint8 => 1
  | int16 | uint16 => 2
  | int32 | uint32 | float => 4
  | int64 | uint64 | double => 8

/-- Whether values of the type may be negative. -/
def isSigned : ScalarType → Bool
  | int8 | int16 | int32 | int64 | float | double => true
  | _ => false

/-- Whether the type is one of the two IEEE 754 formats. -/
def isFloatingPoint : ScalarType → Bool
  | float | double => true
  | _ => false

end ScalarType

inductive ByteOrder
  | littleEndian
  | bigEndian
  deriving DecidableEq, Repr

namespace ByteOrder

/-- Leaves are little-endian unless told otherwise. -/
instance : Inhabited ByteOrder := ⟨littleEndian⟩

instance : Vocabulary ByteOrder where
  terms := [littleEndian, bigEndian]
  name
    | littleEndian => "little_endian"
    | bigEndian => "big_endian"
  complete a := by cases a <;> decide
  name_injective a b h := by cases a <;> cases b <;> simp_all

/-- The short label used in listings. -/
def label : ByteOrder → String
  | littleEndian => "le"
  | bigEndian => "be"

end ByteOrder

end WireSchema
