import Mathlib.Algebra.Group.Int.Defs
import WireSchema.Proofs.Binary.RoundTrip
import WireSchema.Proofs.Json.Spelling
import WireSchema.Proofs.Json.Writing

/-!
# The JSON round trip

A stream is written as an array of objects and read back member by member. The reader knows
neither the order of the keys nor what was written as null, so that every field is looked up by its
name and every absent value has to be told from a present one.

Results:

1. `decimal_value`: an integer of 64 bits is read back from the numeral that it is written as.
2. `RecordShape.readMembers_member`: a member that names a field not met before is one step of
   reading a record.
3. `readToken_document`: the object of a record is read as the token that it stands for, or refused
   for the same reason as the record.
4. `ofJson_toJson`: a stream of tokens that can be built survives its text.
-/

namespace WireSchema.Json

/-! ## Integers -/

theorem le_ofDigitChars (digits : List Char) (n : Nat) : n ≤ Nat.ofDigitChars 10 digits n := by
  induction digits generalizing n with
  | nil => simp
  | cons c digits ih =>
    rw [Nat.ofDigitChars_cons]
    have later := ih (10 * n + (c.toNat - '0'.toNat))
    omega

/-- No digit is left over while the number stays below the bound. -/
theorem Numeral.gather_of_lt {bound n : Nat} {digits : List Char}
    (small : Nat.ofDigitChars 10 digits n < bound) :
    gather bound n digits = (Nat.ofDigitChars 10 digits n, []) := by
  induction digits generalizing n with
  | nil => simp [gather]
  | cons c digits ih =>
    have value : n * 10 + digitValue c = 10 * n + (c.toNat - '0'.toNat) := by
      rw [digitValue, Nat.mul_comm]
    rw [Nat.ofDigitChars_cons] at small ⊢
    have next := le_ofDigitChars digits (10 * n + (c.toNat - '0'.toNat))
    rw [gather, value, if_pos (by omega), ih small]

/-- Digits that all count stand for an integer, unless it is a negative one out of reach. -/
theorem Numeral.value_of_gather {negative : Bool} {whole : List Char} {n : Nat}
    (gathered : gather UInt64.size 0 whole = (n, [])) :
    value ⟨negative, whole, none, none⟩ =
      if negative then
        if 0 < n ∧ n ≤ 0x8000000000000000 then .ok (.integer (-n)) else floating true n 0
      else .ok (.integer n) := by
  rw [value, coefficient, gathered]
  rfl

/-- An integer of 64 bits, signed or not, is read back from its numeral. -/
theorem decimal_value {n : Int} (low : -2 ^ 63 ≤ n) (high : n < 2 ^ 64) :
    (decimal n).value = .ok (.integer n) := by
  have small : Nat.ofDigitChars 10 (Nat.toDigits 10 n.natAbs) 0 < UInt64.size := by
    rw [Nat.ofDigitChars_ten_toDigits]
    show n.natAbs < 2 ^ 64
    omega
  have gathered := Numeral.gather_of_lt small
  rw [Nat.ofDigitChars_ten_toDigits] at gathered
  rw [decimal, Numeral.value_of_gather gathered]
  by_cases negative : n < 0
  · rw [if_pos (decide_eq_true negative), if_pos (by omega), show -(n.natAbs : Int) = n by omega]
  · rw [if_neg (by simpa using negative), show (n.natAbs : Int) = n by omega]

theorem readInteger_decimal {expected : Expected} {low high n : Int} (above : low ≤ n)
    (below : n < high) (wide_low : -2 ^ 63 ≤ low) (wide_high : high ≤ 2 ^ 64) :
    readInteger expected low high (.number (decimal n)) = .ok n := by
  rw [readInteger, decimal_value (by omega) (by omega)]
  exact if_pos ⟨above, below⟩

theorem readIdent_document (id : Ident) : readIdent (ofIdent id).document = .ok id := by
  have above : (0 : Int) ≤ id.toNat := Int.natCast_nonneg _
  have below : (id.toNat : Int) < UInt32.size := Int.ofNat_lt.mpr id.toNat_lt
  rw [readIdent, ofIdent, Value.document,
    readInteger_decimal above below (by decide) (by decide), ok_bind, Int.toNat_natCast,
    UInt32.ofNat_toNat]
  rfl

theorem readWire_document (wire : Int64) :
    readWire (Value.integer wire.toInt).document = .ok wire := by
  rw [readWire, Value.document,
    readInteger_decimal (by simpa using wire.le_toInt) (by simpa using wire.toInt_lt)
      (by decide) (by decide), ok_bind,
    Int64.ofInt_toInt]
  rfl

theorem readSize_document (wire : Int64) :
    readSize (Value.integer wire.toInt).document
      = (Size.ofWire wire).mapError fun e => .data (.record (.wire e)) := by
  rw [readSize, readWire_document, ok_bind]

theorem readOffset_document (wire : Int64) :
    readOffset (Value.integer wire.toInt).document
      = (Offset.ofWire wire).mapError fun e => .data (.record (.wire e)) := by
  rw [readOffset, readWire_document, ok_bind]

/-! ## Texts, words and absent values -/

theorem readText_document (text : String) : readText (Value.string text).document = .ok text := by
  rw [Value.document, readText, characters?_writtenUnit]
  simp

theorem readWordOf_document {α : Type} [Vocabulary α] (a : α) :
    readWordOf (ofWord a).document = .ok a := by
  rw [ofWord, Value.document, readWordOf, wordOfUnits, characters?_writtenUnit]
  simp [Vocabulary.ofName?_name]

theorem readOption_document {α : Type} {read : Reading α} {value : α → Value}
    (present : ∀ a, value a ≠ .null) {o : Option α}
    (read_value : ∀ a ∈ o, read (value a).document = .ok a) :
    readOption read (ofOption value o).document = .ok o := by
  cases o with
  | none => rfl
  | some a =>
    have same := read_value a rfl
    have given := present a
    rw [ofOption]
    cases written : value a with
    | null => exact absurd written given
    | _ =>
      -- no other value is written as null, or breaks off behind its first letter
      rw [written] at same
      simp only [Value.document] at same ⊢
      rw [readOption, same]
      · rfl
      all_goals simp

/-! ## Records -/

/-- A member that names a field not met before is one step of reading a record. -/
theorem RecordShape.readMembers_member {σ α : Type} {shape : RecordShape σ α} {field : Field σ}
    {seen : List String} {collected next : σ} {name : String} {value : Value}
    {rest : List (String × Value)}
    (found : (shape.fields.find? fun field => field.name == name) = some field)
    (fresh : name ∉ seen) (read : field.read value.document collected = .ok next) :
    shape.readMembers seen collected (membersDocument ((name, value) :: rest))
      = shape.readMembers (name :: seen) next (membersDocument rest) := by
  rw [membersDocument, readMembers, characters?_writtenUnit]
  simp only [String.ofList_toList, found, List.contains_iff_mem, fresh, if_false, read]

/-- A member that cannot be read as the field that it names is the end of reading a record. -/
theorem RecordShape.readMembers_refused {σ α : Type} {shape : RecordShape σ α} {field : Field σ}
    {seen : List String} {collected : σ} {name : String} {value : Value}
    {rest : List (String × Value)} {e : Failure}
    (found : (shape.fields.find? fun field => field.name == name) = some field)
    (fresh : name ∉ seen) (read : field.read value.document collected = .error e) :
    shape.readMembers seen collected (membersDocument ((name, value) :: rest)) = .error e := by
  rw [membersDocument, readMembers, characters?_writtenUnit]
  simp only [String.ofList_toList, found, List.contains_iff_mem, fresh, if_false, read]

/-- What a field is read from is put into what has been collected. -/
theorem read_into {α σ : Type} {step : Except Failure α} {a : α} (done : step = .ok a)
    (put : α → σ) : (do return put (← step)) = .ok (put a) := by
  rw [done]
  rfl

theorem refused_into {α σ : Type} {step : Except Failure α} {e : Failure} (failed : step = .error e)
    (put : α → σ) : (do return put (← step)) = .error e := by
  rw [failed]
  rfl

theorem readMetadata_document (m : Metadata) : readMetadata (ofMetadata m).document = .ok m := by
  have ident (id : Option Ident) : readOption readIdent (ofOption ofIdent id).document = .ok id :=
    readOption_document (by simp [ofIdent]) fun id _ => readIdent_document id
  have description : readOption readText (ofOption .string m.description).document
      = .ok m.description :=
    readOption_document (by simp) fun text _ => readText_document text
  -- each rewriting reads one member, in the order in which the members are written
  rw [ofMetadata, Value.document, readMetadata, RecordShape.read,
    RecordShape.readMembers_member rfl (by simp) (read_into (readText_document m.name) _),
    RecordShape.readMembers_member rfl (by simp) (read_into (ident m.id) _),
    RecordShape.readMembers_member rfl (by simp) (read_into (ident m.xref) _),
    RecordShape.readMembers_member rfl (by simp) (read_into (readWordOf_document m.presence) _),
    RecordShape.readMembers_member rfl (by simp) (read_into description _)]
  rfl

/-- The object of a record is read as the token that it stands for, or refused for the same reason
as the record. -/
theorem readToken_document (r : Record) :
    readToken (ofRecord r).document = r.toToken.mapError fun e => .data (.record e) := by
  have scalar : readOption readWordOf (ofOption ofWord r.scalar).document = .ok r.scalar :=
    readOption_document (by simp [ofWord]) fun scalar _ => readWordOf_document scalar
  have byteOrder : readOption readWordOf (ofOption ofWord r.byteOrder).document
      = .ok r.byteOrder :=
    readOption_document (by simp [ofWord]) fun byteOrder _ => readWordOf_document byteOrder
  have metadata : readOption readMetadata (ofOption ofMetadata r.metadata).document
      = .ok r.metadata :=
    readOption_document (by simp [ofMetadata]) fun m _ => readMetadata_document m
  -- each rewriting reads one member, up to the one that is refused
  rw [readToken, ofRecord, Value.document, RecordShape.read,
    RecordShape.readMembers_member rfl (by simp) (read_into (readWordOf_document r.signal) _),
    RecordShape.readMembers_member rfl (by simp) (read_into scalar _), Record.toToken]
  have size_read := readSize_document r.size
  have offset_read := readOffset_document r.offset
  cases size_eq : Size.ofWire r.size with
  | error e =>
    rw [size_eq] at size_read
    rw [RecordShape.readMembers_refused rfl (by simp) (refused_into size_read _)]
    rfl
  | ok size =>
    rw [size_eq] at size_read
    rw [RecordShape.readMembers_member rfl (by simp) (read_into size_read _)]
    cases offset_eq : Offset.ofWire r.offset with
    | error e =>
      rw [offset_eq] at offset_read
      rw [RecordShape.readMembers_refused rfl (by simp) (refused_into offset_read _)]
      rfl
    | ok offset =>
      rw [offset_eq] at offset_read
      have finished : tokenShape.finish
          ⟨some r.signal, r.scalar, some size, some offset, r.byteOrder, r.metadata⟩
            = .ok (Token.make r.signal r.scalar size offset r.byteOrder r.metadata) := rfl
      rw [RecordShape.readMembers_member rfl (by simp) (read_into offset_read _),
        RecordShape.readMembers_member rfl (by simp) (read_into byteOrder _),
        RecordShape.readMembers_member rfl (by simp) (read_into metadata _), membersDocument,
        RecordShape.readMembers]
      dsimp only
      rw [finished]
      cases Token.make r.signal r.scalar size offset r.byteOrder r.metadata <;> rfl

theorem readTokens_records (records : List Record) :
    readTokens (itemsDocument (records.map ofRecord))
      = (TokenStream.ofRecords records).mapError fun e => .data (.record e) := by
  induction records with
  | nil => rfl
  | cons r later ih =>
    rw [List.map_cons, itemsDocument, readTokens, readToken_document, ih, TokenStream.ofRecords]
    cases r.toToken with
    | error e => rfl
    | ok token => cases TokenStream.ofRecords later <;> rfl

theorem readTokens_document {s : TokenStream} (leafEncoding : ∀ t ∈ s, t.LeafEncoding) :
    readTokens (itemsDocument ((s.map Token.toRecord).map ofRecord)) = .ok s := by
  rw [readTokens_records, TokenStream.ofRecords_toRecord leafEncoding]
  rfl

end WireSchema.Json

namespace WireSchema.TokenStream

/-- A stream of tokens that can be built is written as JSON and read back unchanged. -/
theorem ofJson_toJson {s : TokenStream} (built : ∀ t ∈ s, t.Obtainable) :
    ofJson s.toJson = .ok s := by
  rw [ofJson, toJson, Json.ofText_of_textOf (Json.textOf_write .indented _), Json.ofRecords,
    Json.Value.document, Json.readStream]
  exact Json.readTokens_document fun t listed => Token.obtainable_iff.mp (built t listed)

/-- The end of a group that was never begun, a leaf with the largest extents and one with unknown
ones. The texts hold what has to be escaped, and characters of two and four bytes. -/
def escapedMessage : TokenStream :=
  [.structural (.stop .group)
     ⟨"\"größe\" \\ \x01\t😀", some 4294967295, none, .optional, some "\r\n"⟩,
   ((Token.leaf .double .bigEndian ⟨"", none, some 0, .constant, none⟩).withSize
     (.fixed 4294967295)).withOffset (.known 4294967295),
   (Token.varyingLeaf .char .littleEndian ⟨"null", none, none, default, some ""⟩).withOffset
     .unknown]

theorem escapedMessage_ofJson :
    (∀ t ∈ escapedMessage, t.Obtainable) ∧ ofJson escapedMessage.toJson = .ok escapedMessage := by
  have built : ∀ t ∈ escapedMessage, t.Obtainable := by
    refine List.forall_mem_cons.mpr ⟨.structural _ _, List.forall_mem_cons.mpr ⟨?_, ?_⟩⟩
    · exact .withOffset _ (.withSize _ (.leaf _ _ _))
    · exact List.forall_mem_singleton.mpr (.withOffset _ (.varyingLeaf _ _ _))
  exact ⟨built, ofJson_toJson built⟩

end WireSchema.TokenStream
