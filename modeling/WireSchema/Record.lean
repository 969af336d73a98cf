import WireSchema.Token

/-!
# Records

The serialized shape of a token: sizes and offsets are wire integers, and the metadata may be
missing. Both serialized forms write records and turn the records they read into tokens.

Results:

1. `toToken_toRecord`: a token whose encoding, if any, belongs to a leaf survives its record.
-/

namespace WireSchema

/-- The serialized shape of a token. -/
structure Record where
  signal : Signal
  scalar : Option ScalarType
  size : Int64
  offset : Int64
  byteOrder : Option ByteOrder
  metadata : Option Metadata
  deriving DecidableEq, Repr

/-- Why a record is not a token. -/
inductive RecordError
  | wire (error : WireError)
  | token (error : TokenError)
  deriving DecidableEq, Repr

def Token.toRecord (t : Token) : Record where
  signal := t.signal
  scalar := t.scalar
  size := t.size.toWire
  offset := t.offset.toWire
  byteOrder := t.byteOrder
  metadata := some t.metadata

namespace Record

/-- The token that a record stands for. The size is checked before the offset, and both before
the metadata. -/
def toToken (r : Record) : Except RecordError Token :=
  match Size.ofWire r.size with
  | .error e => .error (.wire e)
  | .ok size =>
    match Offset.ofWire r.offset with
    | .error e => .error (.wire e)
    | .ok offset =>
      match Token.make r.signal r.scalar size offset r.byteOrder r.metadata with
      | .error e => .error (.token e)
      | .ok t => .ok t

theorem toToken_toRecord {t : Token} (h : t.LeafEncoding) : t.toRecord.toToken = .ok t := by
  simp only [toToken, Token.toRecord, Size.ofWire_toWire, Offset.ofWire_toWire,
    Token.make_of_leafEncoding h]

end Record

end WireSchema
