import WireSchema.Binary.Varint
import WireSchema.Record

/-!
# Payloads

The bytes of a stream, without any header: the number of records, then the fields of each record
in order. Words of a vocabulary are written by number, options behind a mark of presence, texts
behind their length in bytes, wire integers folded. Nothing says where a field begins, so a reader
takes the fields in the same order and stops at the first error.

Results:

1. `readWord_writeWord`, `readText_writeText`, `readOption_writeOption`, `readWire_writeWire`: a
   field is read back, whatever follows it.
2. `readToken_leafEncoding`: only leaves come out with an encoding.
-/

namespace WireSchema.Payload

/-! ## Writing -/

/-- Writes a word of a vocabulary by its number. -/
def writeWord {α : Type} [Vocabulary α] (a : α) : List UInt8 :=
  Varint.write Varint.word (Vocabulary.code a)

/-- Writes a mark of presence, and the value when there is one. -/
def writeOption {α : Type} (write : α → List UInt8) : Option α → List UInt8
  | none => [0]
  | some a => 1 :: write a

def writeIdent (id : Ident) : List UInt8 :=
  Varint.write Varint.word id.toNat

def textBytes (text : String) : List UInt8 :=
  text.toByteArray.data.toList

/-- Writes a text behind the number of its bytes. -/
def writeText (text : String) : List UInt8 :=
  Varint.write Varint.long (textBytes text).length ++ textBytes text

def writeWire (value : Int64) : List UInt8 :=
  Varint.write Varint.long (Varint.fold value.toInt)

def writeMetadata (m : Metadata) : List UInt8 :=
  writeText m.name ++ (writeOption writeIdent m.id ++ (writeOption writeIdent m.xref
    ++ (writeWord m.presence ++ writeOption writeText m.description)))

def writeRecord (r : Record) : List UInt8 :=
  writeWord r.signal ++ (writeOption writeWord r.scalar ++ (writeWire r.size ++ (writeWire r.offset
    ++ (writeOption writeWord r.byteOrder ++ writeOption writeMetadata r.metadata))))

/-- Writes a list of records behind its length. -/
def write (records : List Record) : List UInt8 :=
  Varint.write Varint.long records.length ++ records.flatMap writeRecord

/-! ## Reading -/

def readWord {α : Type} [Vocabulary α] : PayloadReader α := do
  match Vocabulary.ofCode? (← Varint.read Varint.word) with
  | some a => return a
  | none => throw .badValue

def readByte : PayloadReader UInt8
  | [] => .error .unexpectedEnd
  | byte :: rest => .ok (byte, rest)

/-- Reads a mark of presence, and the value when there is one. -/
def readOption {α : Type} (read : PayloadReader α) : PayloadReader (Option α) := do
  let mark ← readByte
  if mark = 0 then return none
  else if mark = 1 then return some (← read)
  else throw .badOption

def readIdent : PayloadReader Ident := do
  return UInt32.ofNat (← Varint.read Varint.word)

def readBytes (length : Nat) : PayloadReader (List UInt8) := fun bytes =>
  let taken := bytes.take length
  if taken.length = length then .ok (taken, bytes.drop length) else .error .unexpectedEnd

/-- The text that a list of bytes spells. -/
def textOfBytes? (bytes : List UInt8) : Option String :=
  String.fromUTF8? ⟨bytes.toArray⟩

def readText : PayloadReader String := do
  match textOfBytes? (← readBytes (← Varint.read Varint.long)) with
  | some text => return text
  | none => throw .badText

def readWire : PayloadReader Int64 := do
  return Int64.ofInt (Varint.unfold (← Varint.read Varint.long))

/-- Reads a size; the wire integer is checked at once. -/
def readSize : PayloadReader Size := do
  match Size.ofWire (← readWire) with
  | .ok size => return size
  | .error _ => throw .badValue

/-- Reads an offset; the wire integer is checked at once. -/
def readOffset : PayloadReader Offset := do
  match Offset.ofWire (← readWire) with
  | .ok offset => return offset
  | .error _ => throw .badValue

def readMetadata : PayloadReader Metadata := do
  let name ← readText
  let id ← readOption readIdent
  let xref ← readOption readIdent
  let presence ← readWord
  let description ← readOption readText
  return ⟨name, id, xref, presence, description⟩

/-- Makes a token of the fields of a record, reading nothing more. -/
def makeToken (signal : Signal) (scalar : Option ScalarType) (size : Size) (offset : Offset)
    (byteOrder : Option ByteOrder) (metadata : Option Metadata) : PayloadReader Token :=
  match Token.make signal scalar size offset byteOrder metadata with
  | .ok token => return token
  | .error _ => throw .badValue

/-- Reads the fields of a record and makes a token of them. Missing metadata is only noticed at
the end. -/
def readToken : PayloadReader Token := do
  let signal ← readWord
  let scalar ← readOption readWord
  let size ← readSize
  let offset ← readOffset
  let byteOrder ← readOption readWord
  let metadata ← readOption readMetadata
  makeToken signal scalar size offset byteOrder metadata

def readTokens : Nat → PayloadReader TokenStream
  | 0 => return []
  | n + 1 => do
    let token ← readToken
    let later ← readTokens n
    return token :: later

/-- Reads a stream. Bytes behind the announced number of records are ignored. -/
def read (bytes : List UInt8) : Except PayloadError TokenStream :=
  (Varint.read Varint.long >>= readTokens).run' bytes

/-! ## Fields are read back -/

theorem readWord_writeWord {α : Type} [Vocabulary α] (a : α)
    (few : (Vocabulary.terms : List α).length ≤ UInt32.size) (rest : List UInt8) :
    readWord (writeWord a ++ rest) = .ok (a, rest) := by
  have bound := Nat.lt_of_lt_of_le (Vocabulary.code_lt a) few
  rw [readWord, writeWord, PayloadReader.bind_eq (Varint.read_write_word bound rest),
    Vocabulary.ofCode?_code]
  rfl

theorem readOption_writeOption {α : Type} {read : PayloadReader α} {write : α → List UInt8}
    {value : Option α} {rest : List UInt8}
    (h : ∀ a ∈ value, read (write a ++ rest) = .ok (a, rest)) :
    readOption read (writeOption write value ++ rest) = .ok (value, rest) := by
  cases value with
  | none => rfl
  | some a =>
    show (read >>= fun a => pure (some a)) (write a ++ rest) = _
    rw [PayloadReader.bind_eq (h a rfl)]
    rfl

theorem readIdent_writeIdent (id : Ident) (rest : List UInt8) :
    readIdent (writeIdent id ++ rest) = .ok (id, rest) := by
  rw [readIdent, writeIdent, PayloadReader.bind_eq (Varint.read_write_word id.toNat_lt rest),
    UInt32.ofNat_toNat]
  rfl

theorem readBytes_append (bytes rest : List UInt8) :
    readBytes bytes.length (bytes ++ rest) = .ok (bytes, rest) := by
  simp [readBytes]

theorem textOfBytes?_textBytes (text : String) : textOfBytes? (textBytes text) = some text := by
  have same : (⟨(textBytes text).toArray⟩ : ByteArray) = text.toByteArray := by
    simp [textBytes]
  rw [textOfBytes?, same, String.fromUTF8?, dif_pos text.isValidUTF8]
  rfl

theorem readText_writeText {text : String} (bound : (textBytes text).length < UInt64.size)
    (rest : List UInt8) : readText (writeText text ++ rest) = .ok (text, rest) := by
  rw [readText, writeText, List.append_assoc,
    PayloadReader.bind_eq (Varint.read_write_long bound _),
    PayloadReader.bind_eq (readBytes_append _ rest), textOfBytes?_textBytes]
  rfl

theorem readWire_writeWire (value : Int64) (rest : List UInt8) :
    readWire (writeWire value ++ rest) = .ok (value, rest) := by
  have low := value.le_toInt
  have high := value.toInt_lt
  have bound : Varint.fold value.toInt < 2 ^ 64 := by
    unfold Varint.fold
    split <;> omega
  rw [readWire, writeWire, PayloadReader.bind_eq (Varint.read_write_long bound rest),
    Varint.unfold_fold, Int64.ofInt_toInt]
  rfl

theorem makeToken_leafEncoding {signal : Signal} {scalar : Option ScalarType} {size : Size}
    {offset : Offset} {byteOrder : Option ByteOrder} {metadata : Option Metadata}
    {bytes rest : List UInt8} {t : Token}
    (h : makeToken signal scalar size offset byteOrder metadata bytes = .ok (t, rest)) :
    t.LeafEncoding := by
  unfold makeToken at h
  cases made : Token.make signal scalar size offset byteOrder metadata with
  | error e =>
    rw [made] at h
    cases h
  | ok token =>
    rw [made] at h
    cases h
    exact Token.make_leafEncoding made

theorem readToken_leafEncoding {bytes rest : List UInt8} {t : Token}
    (h : readToken bytes = .ok (t, rest)) : t.LeafEncoding := by
  obtain ⟨signal, _, _, h⟩ := PayloadReader.exists_of_bind h
  obtain ⟨scalar, _, _, h⟩ := PayloadReader.exists_of_bind h
  obtain ⟨size, _, _, h⟩ := PayloadReader.exists_of_bind h
  obtain ⟨offset, _, _, h⟩ := PayloadReader.exists_of_bind h
  obtain ⟨byteOrder, _, _, h⟩ := PayloadReader.exists_of_bind h
  obtain ⟨metadata, _, _, h⟩ := PayloadReader.exists_of_bind h
  exact makeToken_leafEncoding h

end WireSchema.Payload
