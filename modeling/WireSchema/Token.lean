import WireSchema.Extent
import WireSchema.Metadata
import WireSchema.Scalar
import WireSchema.Signal

/-!
# Tokens

A token describes one position of a schema: its role, its encoding if it is a leaf, its size and
offset, and its metadata. A whole schema is one list of tokens; nesting is expressed by start and
end signals, and the order of the list is the layout order.

Results:

1. `make_leafEncoding`, `structural_leafEncoding`, `leaf_leafEncoding`, `varyingLeaf_leafEncoding`:
   every constructor yields a token whose encoding, if any, belongs to a leaf.
2. `withSize_leafEncoding`, `withOffset_leafEncoding`: so does every copy.
3. `make_of_leafEncoding`: such a token is made again of its own attributes.
-/

namespace WireSchema

/-- One position of a schema. -/
structure Token where
  signal : Signal
  scalar : Option ScalarType
  size : Size
  offset : Offset
  byteOrder : Option ByteOrder
  metadata : Metadata
  deriving DecidableEq, Repr

/-- A schema: the tokens of one top-level entity in layout order. -/
abbrev TokenStream := List Token

def TokenStream.signals (s : TokenStream) : List Signal :=
  s.map Token.signal

/-- Why a token cannot be built. -/
inductive TokenError
  | missingMetadata (signal : Signal)
  deriving DecidableEq, Repr

def TokenError.message : TokenError → String
  | .missingMetadata signal => "metadata of a " ++ signal.name ++ " token must not be missing"

namespace Token

/-- Builds a token from every attribute. Missing metadata is refused, not defaulted, and an
encoding is dropped unless the token is a leaf. -/
def make (signal : Signal) (scalar : Option ScalarType) (size : Size) (offset : Offset)
    (byteOrder : Option ByteOrder) : Option Metadata → Except TokenError Token
  | none => .error (.missingMetadata signal)
  | some metadata =>
    .ok {
      signal := signal
      scalar := scalar.filter fun _ => signal.isEncoding
      size := size
      offset := offset
      byteOrder := byteOrder.filter fun _ => signal.isEncoding
      metadata := metadata }

/-- A token without encoding that occupies no bytes. -/
def structural (signal : Signal) (metadata : Metadata) : Token where
  signal := signal
  scalar := none
  size := .zero
  offset := .zero
  byteOrder := none
  metadata := metadata

/-- A leaf as wide as its scalar type, not yet laid out. -/
def leaf (scalar : ScalarType) (byteOrder : ByteOrder) (metadata : Metadata) : Token where
  signal := .encoding
  scalar := some scalar
  size := .fixed scalar.size
  offset := .unknown
  byteOrder := some byteOrder
  metadata := metadata

/-- A leaf of run-time length made of elements of the scalar type, not yet laid out. -/
def varyingLeaf (scalar : ScalarType) (byteOrder : ByteOrder) (metadata : Metadata) : Token :=
  { leaf scalar byteOrder metadata with size := .varying }

def withOffset (t : Token) (offset : Offset) : Token :=
  { t with offset := offset }

def withSize (t : Token) (size : Size) : Token :=
  { t with size := size }

def name (t : Token) : String := t.metadata.name

def id (t : Token) : Option Ident := t.metadata.id

/-- The identifier of the token that this one is paired with. -/
def xref (t : Token) : Option Ident := t.metadata.xref

/-- Only a leaf carries an encoding. -/
def LeafEncoding (t : Token) : Prop :=
  t.signal ≠ .encoding → t.scalar = none ∧ t.byteOrder = none

theorem make_leafEncoding {signal : Signal} {scalar : Option ScalarType} {size : Size}
    {offset : Offset} {byteOrder : Option ByteOrder} {metadata : Option Metadata} {t : Token}
    (h : make signal scalar size offset byteOrder metadata = .ok t) : t.LeafEncoding := by
  cases metadata with
  | none => cases h
  | some m =>
    cases h
    intro structured
    cases signal <;> simp_all [Signal.isEncoding]

/-- A token is made again of its own attributes. -/
theorem make_of_leafEncoding {t : Token} (h : t.LeafEncoding) :
    make t.signal t.scalar t.size t.offset t.byteOrder (some t.metadata) = .ok t := by
  obtain ⟨signal, scalar, size, offset, byteOrder, metadata⟩ := t
  cases signal with
  | encoding => cases scalar <;> cases byteOrder <;> rfl
  | _ =>
    obtain ⟨rfl, rfl⟩ : scalar = none ∧ byteOrder = none := h (by simp)
    rfl

theorem structural_leafEncoding (signal : Signal) (metadata : Metadata) :
    (structural signal metadata).LeafEncoding :=
  fun _ => ⟨rfl, rfl⟩

theorem leaf_leafEncoding (scalar : ScalarType) (byteOrder : ByteOrder) (metadata : Metadata) :
    (leaf scalar byteOrder metadata).LeafEncoding :=
  fun structured => absurd rfl structured

theorem varyingLeaf_leafEncoding (scalar : ScalarType) (byteOrder : ByteOrder)
    (metadata : Metadata) : (varyingLeaf scalar byteOrder metadata).LeafEncoding :=
  fun structured => absurd rfl structured

theorem withSize_leafEncoding {t : Token} (h : t.LeafEncoding) (size : Size) :
    (t.withSize size).LeafEncoding :=
  h

theorem withOffset_leafEncoding {t : Token} (h : t.LeafEncoding) (offset : Offset) :
    (t.withOffset offset).LeafEncoding :=
  h

end Token

end WireSchema
