import Mathlib.Algebra.GroupWithZero.Nat
import WireSchema.Proofs.Binary.Header
import WireSchema.Proofs.Record.Meaning

/-!
# The container round trip

A stream is written as the records of its tokens and read back as tokens. The reader checks wire
integers, texts and metadata that the writer never gets wrong, and it drops the encoding of every
token that is not a leaf, so that the way back needs the tokens to be ones that can be built.

Results:

1. `obtainable_iff`: the tokens that can be built are those whose encoding, if any, belongs to a
   leaf.
2. `readToken_writeRecord`: the fields of a record are read as the token that it stands for,
   whatever follows, or refused when it stands for none.
3. `Payload.read_write_records`: so it is with the payload of any records.
4. `decode_encode`: a stream of such tokens survives its container, unless its payload is too long
   for the header.
-/

namespace WireSchema

/-! ## Tokens that can be built -/

/-- The tokens that can be built: from every attribute, from a role or a scalar type alone, or as a
copy with another size or offset. -/
inductive Token.Obtainable : Token → Prop
  | make {signal : Signal} {scalar : Option ScalarType} {size : Size} {offset : Offset}
      {byteOrder : Option ByteOrder} {metadata : Option Metadata} {t : Token}
      (made : make signal scalar size offset byteOrder metadata = .ok t) : t.Obtainable
  | structural (signal : Signal) (metadata : Metadata) : (structural signal metadata).Obtainable
  | leaf (scalar : ScalarType) (byteOrder : ByteOrder) (metadata : Metadata) :
      (leaf scalar byteOrder metadata).Obtainable
  | varyingLeaf (scalar : ScalarType) (byteOrder : ByteOrder) (metadata : Metadata) :
      (varyingLeaf scalar byteOrder metadata).Obtainable
  | withSize {t : Token} (size : Size) (built : t.Obtainable) : (t.withSize size).Obtainable
  | withOffset {t : Token} (offset : Offset) (built : t.Obtainable) :
      (t.withOffset offset).Obtainable

theorem Token.obtainable_iff {t : Token} : t.Obtainable ↔ t.LeafEncoding := by
  constructor
  · intro built
    induction built with
    | make made => exact make_leafEncoding made
    | structural signal metadata => exact structural_leafEncoding signal metadata
    | leaf scalar byteOrder metadata => exact leaf_leafEncoding scalar byteOrder metadata
    | varyingLeaf scalar byteOrder metadata =>
      exact varyingLeaf_leafEncoding scalar byteOrder metadata
    | withSize size _ leafEncoding => exact withSize_leafEncoding leafEncoding size
    | withOffset offset _ leafEncoding => exact withOffset_leafEncoding leafEncoding offset
  · intro leafEncoding
    exact .make (make_of_leafEncoding leafEncoding)

namespace Payload

/-! ## Reading a record back -/

/-- Reading nothing more: a value that has been made of what was read, or the failure to make it. -/
def orBadValue {ε α : Type} : Except ε α → PayloadReader α
  | .ok a => return a
  | .error _ => throw .badValue

section

variable {ε α β : Type} {read : PayloadReader α} {next : α → PayloadReader β}
  {bytes rest : List UInt8}

/-- Readers go on behind what has been read, whether or not a value could be made of it. -/
theorem bind_of_orBadValue {outcome : Except ε α} (h : read bytes = orBadValue outcome rest) :
    (read >>= next) bytes = (orBadValue outcome >>= next) rest := by
  cases outcome with
  | error e => exact PayloadReader.bind_error h
  | ok a => exact PayloadReader.bind_eq h

theorem orBadValue_ok_bind (a : α) :
    (orBadValue (.ok a : Except ε α) >>= next) = next a :=
  rfl

end

theorem readSize_writeWire (value : Int64) (rest : List UInt8) :
    readSize (writeWire value ++ rest) = orBadValue (Size.ofWire value) rest := by
  rw [readSize, PayloadReader.bind_eq (readWire_writeWire value rest)]
  cases Size.ofWire value <;> rfl

theorem readOffset_writeWire (value : Int64) (rest : List UInt8) :
    readOffset (writeWire value ++ rest) = orBadValue (Offset.ofWire value) rest := by
  rw [readOffset, PayloadReader.bind_eq (readWire_writeWire value rest)]
  cases Offset.ofWire value <;> rfl

/-- The texts of metadata are short enough for their lengths to be written. -/
structure TextsFit (m : Metadata) : Prop where
  name : (textBytes m.name).length < 2 ^ 64
  description : ∀ text ∈ m.description, (textBytes text).length < 2 ^ 64

theorem readMetadata_writeMetadata {m : Metadata} (fit : TextsFit m) (rest : List UInt8) :
    readMetadata (writeMetadata m ++ rest) = .ok (m, rest) := by
  have ident (id : Option Ident) (rest : List UInt8) :
      readOption readIdent (writeOption writeIdent id ++ rest) = .ok (id, rest) :=
    readOption_writeOption fun id _ => readIdent_writeIdent id rest
  have description : readOption readText (writeOption writeText m.description ++ rest)
      = .ok (m.description, rest) :=
    readOption_writeOption fun text given => readText_writeText (fit.description text given) rest
  simp only [writeMetadata, List.append_assoc]
  rw [readMetadata, PayloadReader.bind_eq (readText_writeText fit.name _),
    PayloadReader.bind_eq (ident m.id _), PayloadReader.bind_eq (ident m.xref _),
    PayloadReader.bind_eq (readWord_writeWord m.presence (by decide) _),
    PayloadReader.bind_eq description]
  rfl

/-- A record is read as the token that it stands for, or refused when it stands for none. -/
theorem readToken_writeRecord {r : Record} (fit : ∀ m ∈ r.metadata, TextsFit m)
    (rest : List UInt8) : readToken (writeRecord r ++ rest) = orBadValue r.toToken rest := by
  have scalar (rest : List UInt8) :
      readOption readWord (writeOption writeWord r.scalar ++ rest) = .ok (r.scalar, rest) :=
    readOption_writeOption fun scalar _ => readWord_writeWord scalar (by decide) rest
  have byteOrder (rest : List UInt8) :
      readOption readWord (writeOption writeWord r.byteOrder ++ rest) = .ok (r.byteOrder, rest) :=
    readOption_writeOption fun byteOrder _ => readWord_writeWord byteOrder (by decide) rest
  have metadata : readOption readMetadata (writeOption writeMetadata r.metadata ++ rest)
      = .ok (r.metadata, rest) :=
    readOption_writeOption fun m given => readMetadata_writeMetadata (fit m given) rest
  simp only [writeRecord, List.append_assoc]
  -- each rewriting takes one field off the front, in the order in which they are written
  rw [readToken, PayloadReader.bind_eq (readWord_writeWord r.signal (by decide) _),
    PayloadReader.bind_eq (scalar _), bind_of_orBadValue (readSize_writeWire r.size _),
    Record.toToken]
  cases Size.ofWire r.size with
  | error e => rfl
  | ok size =>
    rw [orBadValue_ok_bind, bind_of_orBadValue (readOffset_writeWire r.offset _)]
    cases Offset.ofWire r.offset with
    | error e => rfl
    | ok offset =>
      rw [orBadValue_ok_bind, PayloadReader.bind_eq (byteOrder _), PayloadReader.bind_eq metadata,
        makeToken]
      dsimp only
      cases Token.make r.signal r.scalar size offset r.byteOrder r.metadata <;> rfl

theorem readTokens_flatMap {records : List Record}
    (fit : ∀ r ∈ records, ∀ m ∈ r.metadata, TextsFit m) (rest : List UInt8) :
    readTokens records.length (records.flatMap writeRecord ++ rest)
      = orBadValue (TokenStream.ofRecords records) rest := by
  induction records with
  | nil => rfl
  | cons r later ih =>
    obtain ⟨here, behind⟩ := List.forall_mem_cons.mp fit
    rw [List.flatMap_cons, List.append_assoc, List.length_cons, readTokens,
      bind_of_orBadValue (readToken_writeRecord here _), TokenStream.ofRecords]
    cases r.toToken with
    | error e => rfl
    | ok token =>
      rw [orBadValue_ok_bind, bind_of_orBadValue (ih behind)]
      cases TokenStream.ofRecords later <;> rfl

/-! ## What the length of a payload bounds -/

theorem writeRecord_length_pos (r : Record) : 0 < (writeRecord r).length := by
  have word : 0 < (writeWord r.signal).length := Varint.digits_length_pos _ _
  rw [writeRecord, List.length_append]
  omega

/-- Every record takes a byte at least. -/
theorem length_le_flatMap (records : List Record) :
    records.length ≤ (records.flatMap writeRecord).length := by
  induction records with
  | nil => exact Nat.le_refl 0
  | cons r later ih =>
    have here := writeRecord_length_pos r
    rw [List.flatMap_cons, List.length_append, List.length_cons]
    omega

theorem writeRecord_length_le {r : Record} {records : List Record} (listed : r ∈ records) :
    (writeRecord r).length ≤ (write records).length := by
  have part : (writeRecord r).length ≤ (records.flatMap writeRecord).length :=
    (List.sublist_flatten_of_mem (List.mem_map_of_mem listed)).length_le
  rw [write, List.length_append]
  omega

theorem textsFit_of_length {r : Record} (short : (writeRecord r).length < 2 ^ 64) :
    ∀ m ∈ r.metadata, TextsFit m := by
  intro m given
  have metadata : (writeMetadata m).length < 2 ^ 64 := by
    rw [writeRecord, Option.mem_def.mp given] at short
    simp only [writeOption, List.length_append, List.length_cons] at short
    omega
  simp only [writeMetadata, writeText, List.length_append] at metadata
  constructor
  · omega
  · intro text given
    rw [Option.mem_def.mp given] at metadata
    simp only [writeOption, writeText, List.length_append, List.length_cons] at metadata
    omega

/-- A payload is read back as the stream that its records stand for. -/
theorem read_write_records {records : List Record} (short : (write records).length < 2 ^ 64) :
    read (write records) = (TokenStream.ofRecords records).mapError fun _ => .badValue := by
  -- the payload is longer than any of its texts and has more bytes than records
  have fit (r : Record) (listed : r ∈ records) : ∀ m ∈ r.metadata, TextsFit m :=
    textsFit_of_length (Nat.lt_of_le_of_lt (writeRecord_length_le listed) short)
  have count : records.length < 2 ^ 64 := by
    have each := length_le_flatMap records
    rw [write, List.length_append] at short
    omega
  have tokens := readTokens_flatMap fit []
  rw [List.append_nil] at tokens
  rw [read, StateT.run', write]
  show Prod.fst <$> (Varint.read Varint.long >>= readTokens) _ = _
  rw [PayloadReader.bind_eq (Varint.read_write_long count _), tokens]
  cases TokenStream.ofRecords records <;> rfl

/-- A payload is read back as the stream that it was written for. -/
theorem read_write {s : TokenStream} (leafEncoding : ∀ t ∈ s, t.LeafEncoding)
    (short : (write (s.map Token.toRecord)).length < 2 ^ 64) :
    read (write (s.map Token.toRecord)) = .ok s := by
  rw [read_write_records short, TokenStream.ofRecords_toRecord leafEncoding]
  rfl

end Payload

/-! ## Behind the header -/

namespace TokenStream

/-- A stream of tokens that can be built is put into a container and taken out of it unchanged,
unless its payload is too long for the header. -/
theorem decode_encode {s : TokenStream} (built : ∀ t ∈ s, t.Obtainable)
    (short : (Payload.write (s.map Token.toRecord)).length < 2 ^ 32) :
    ∃ bytes, s.encode = .ok bytes ∧ decode bytes = .ok s := by
  have payload : Payload.read (Payload.write (s.map Token.toRecord)) = .ok s :=
    Payload.read_write (fun t listed => Token.obtainable_iff.mp (built t listed)) (by omega)
  obtain ⟨header, framed⟩ := Header.exists_ofPayload short
  refine ⟨header.toBytes ++ Payload.write (s.map Token.toRecord), ?_, ?_⟩
  · rw [encode, framed]
  · rw [decode_of_ofPayload framed, payload]
    rfl

/-- A bitset and a leaf whose extents are the largest ones, with a name outside the ASCII range. -/
def unusualMessage : TokenStream :=
  [.structural (.stop .bitset) ⟨"größe", some 4294967295, none, .optional, some "日"⟩,
   ((Token.leaf .double .bigEndian ⟨"x", none, some 0, .constant, none⟩).withSize
     (.fixed 4294967295)).withOffset (.known 4294967295),
   .varyingLeaf .char .littleEndian ⟨"", none, none, default, some ""⟩]

theorem unusualMessage_decode :
    (∀ t ∈ unusualMessage, t.Obtainable) ∧
      (Payload.write (unusualMessage.map Token.toRecord)).length < 2 ^ 32 ∧
      ∃ bytes, unusualMessage.encode = .ok bytes ∧ decode bytes = .ok unusualMessage := by
  have built : ∀ t ∈ unusualMessage, t.Obtainable := by
    refine List.forall_mem_cons.mpr ⟨.structural _ _, List.forall_mem_cons.mpr ⟨?_, ?_⟩⟩
    · exact .withOffset _ (.withSize _ (.leaf _ _ _))
    · exact List.forall_mem_singleton.mpr (.varyingLeaf _ _ _)
  have short : (Payload.write (unusualMessage.map Token.toRecord)).length < 2 ^ 32 := by
    decide +kernel
  exact ⟨built, short, decode_encode built short⟩

end TokenStream

end WireSchema
