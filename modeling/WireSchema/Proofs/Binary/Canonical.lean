import WireSchema.Proofs.Binary.RoundTrip

/-!
# Canonical containers

A container may be written in more than one way: integers may have zeros at their end, bytes may
follow the last record, and a record may carry an encoding that its token drops. The writer never
does any of this, and whatever a reader takes off a payload, it takes no fewer bytes than the writer
needs for what was read. A container is therefore never shorter than the one its stream is written
to, and the number of its tokens is bounded by its length alone.

Results:

1. `covers_varint`, `covers_token`: readers of integers and of tokens take no fewer bytes than the
   writers need.
2. `length_write_le_of_read`: so it is with whole payloads.
3. `exists_encode_of_decode`: every container that is accepted has a canonical one that is no
   longer.
-/

namespace WireSchema

/-- A reader takes no fewer bytes than the writing of what it has read. -/
def PayloadReader.Covers {α : Type} (read : PayloadReader α) (write : α → List UInt8) : Prop :=
  ∀ {bytes rest : List UInt8} {a : α}, read bytes = .ok (a, rest) →
    (write a).length + rest.length ≤ bytes.length

/-! ## Integers -/

namespace Varint

theorem readDigits_lt {last before n : Nat} {bytes rest : List UInt8}
    (read : readDigits last before bytes = .ok (n, rest)) : n < Width.bound ⟨before, last⟩ := by
  induction before generalizing n bytes with
  | zero =>
    cases bytes with
    | nil => cases read
    | cons byte others =>
      rw [readDigits] at read
      split at read
      · next small =>
        cases read
        rw [Width.bound_zero]
        omega
      · cases read
  | succ before ih =>
    rw [Width.bound_succ]
    cases bytes with
    | nil => cases read
    | cons byte others =>
      have top := byte.toNat_lt
      rw [readDigits] at read
      split at read
      · next short =>
        cases read
        have positive : 0 < Width.bound ⟨before, last⟩ :=
          Nat.mul_pos (Nat.succ_pos last) (Nat.pow_pos (by decide))
        omega
      · split at read
        · cases read
        · next high _ later =>
          cases read
          have below := ih later
          omega

/-- Zeros at the end of an integer are bytes that its writing does without. -/
theorem length_digits_le_of_readDigits {last before n : Nat} {bytes rest : List UInt8}
    (read : readDigits last before bytes = .ok (n, rest)) :
    (digits before n).length + rest.length ≤ bytes.length := by
  induction before generalizing n bytes with
  | zero =>
    cases bytes with
    | nil => cases read
    | cons byte others =>
      rw [readDigits] at read
      split at read
      · cases read
        simp [digits, Nat.add_comm]
      · cases read
  | succ before ih =>
    cases bytes with
    | nil => cases read
    | cons byte others =>
      have top := byte.toNat_lt
      rw [readDigits] at read
      rw [digits]
      split at read
      · next short =>
        cases read
        rw [if_pos short]
        simp [Nat.add_comm]
      · split at read
        · cases read
        · next high _ later =>
          cases read
          have taken := ih later
          have positive := digits_length_pos before high
          split
          · simp only [List.length_cons, List.length_nil]
            omega
          · rw [show (byte.toNat - 128 + 128 * high) / 128 = high by omega, List.length_cons,
              List.length_cons]
            omega

theorem covers_varint (w : Width) : (read w).Covers (write w) :=
  length_digits_le_of_readDigits

theorem write_length_pos (w : Width) (n : Nat) : 0 < (write w n).length :=
  digits_length_pos _ _

theorem write_length_of_lt {n : Nat} (small : n < 128) : (write word n).length = 1 := by
  rw [write, word, digits, if_pos small, List.length_singleton]

end Varint

/-! ## Fields -/

namespace Payload

open PayloadReader

variable {α : Type}

theorem writeWord_length [Vocabulary α] (few : (Vocabulary.terms : List α).length ≤ 128) (a : α) :
    (writeWord a).length = 1 :=
  Varint.write_length_of_lt (Nat.lt_of_lt_of_le (Vocabulary.code_lt a) few)

theorem covers_word [Vocabulary α] (few : (Vocabulary.terms : List α).length ≤ 128) :
    Covers (readWord (α := α)) writeWord := by
  intro bytes rest a read
  obtain ⟨n, left, number, read⟩ := exists_of_bind read
  have taken := Varint.covers_varint Varint.word number
  have positive := Varint.write_length_pos Varint.word n
  have single := writeWord_length few a
  cases meant : (Vocabulary.ofCode? n : Option α) with
  | none =>
    rw [meant] at read
    cases read
  | some b =>
    rw [meant] at read
    cases read
    omega

theorem covers_option {read : PayloadReader α} {write : α → List UInt8}
    (covers : read.Covers write) : (readOption read).Covers (writeOption write) := by
  intro bytes rest value done
  obtain ⟨mark, left, marked, given⟩ := exists_of_bind done
  cases bytes with
  | nil => cases marked
  | cons byte others =>
    cases marked
    by_cases absent : mark = 0
    · rw [if_pos absent] at given
      cases given
      simp [writeOption, Nat.add_comm]
    · rw [if_neg absent] at given
      by_cases present : mark = 1
      · rw [if_pos present] at given
        obtain ⟨a, behind, given_read, given⟩ := exists_of_bind given
        cases given
        have taken := covers given_read
        simp only [writeOption, List.length_cons]
        omega
      · rw [if_neg present] at given
        cases given

theorem covers_ident : readIdent.Covers writeIdent := by
  intro bytes rest id read
  obtain ⟨n, left, number, read⟩ := exists_of_bind read
  cases read
  have small : n < UInt32.size := Varint.readDigits_lt number
  rw [writeIdent, UInt32.toNat_ofNat_of_lt' small]
  exact Varint.covers_varint Varint.word number

theorem textBytes_of_textOfBytes? {bytes : List UInt8} {text : String}
    (spelled : textOfBytes? bytes = some text) : textBytes text = bytes := by
  rw [textOfBytes?, String.fromUTF8?] at spelled
  split at spelled
  · obtain rfl := Option.some.inj spelled
    rfl
  · cases spelled

theorem covers_text : readText.Covers writeText := by
  intro bytes rest text read
  obtain ⟨length, left, number, read⟩ := exists_of_bind read
  obtain ⟨taken, behind, part, read⟩ := exists_of_bind read
  have counted := Varint.covers_varint Varint.long number
  rw [readBytes] at part
  split at part
  · next whole =>
    cases part
    cases spelled : textOfBytes? (left.take length) with
    | none =>
      rw [spelled] at read
      cases read
    | some meant =>
      rw [spelled] at read
      cases read
      rw [writeText, textBytes_of_textOfBytes? spelled, whole, List.length_append, whole,
        List.length_drop]
      rw [List.length_take] at whole
      omega
  · cases part

theorem fold_ofInt_unfold {n : Nat} (small : n < 2 ^ 64) :
    Varint.fold (Int64.ofInt (Varint.unfold n)).toInt = n := by
  have inside : -2 ^ 63 ≤ Varint.unfold n ∧ Varint.unfold n < 2 ^ 63 := by
    unfold Varint.unfold
    split <;> omega
  rw [Int64.toInt_ofInt_of_le inside.1 inside.2, Varint.fold_unfold]

theorem covers_wire : readWire.Covers writeWire := by
  intro bytes rest value read
  obtain ⟨n, left, number, read⟩ := exists_of_bind read
  cases read
  rw [writeWire, fold_ofInt_unfold (Varint.readDigits_lt number)]
  exact Varint.covers_varint Varint.long number

theorem covers_size : readSize.Covers fun size => writeWire size.toWire := by
  intro bytes rest size read
  obtain ⟨wire, left, number, read⟩ := exists_of_bind read
  cases meant : Size.ofWire wire with
  | error e =>
    rw [meant] at read
    cases read
  | ok given =>
    rw [meant] at read
    cases read
    dsimp only
    rw [Size.ofWire_eq_ok_iff.mp meant]
    exact covers_wire number

theorem covers_offset : readOffset.Covers fun offset => writeWire offset.toWire := by
  intro bytes rest offset read
  obtain ⟨wire, left, number, read⟩ := exists_of_bind read
  cases meant : Offset.ofWire wire with
  | error e =>
    rw [meant] at read
    cases read
  | ok given =>
    rw [meant] at read
    cases read
    dsimp only
    rw [Offset.ofWire_eq_ok_iff.mp meant]
    exact covers_wire number

/-! ## Records -/

theorem covers_metadata : readMetadata.Covers writeMetadata := by
  intro bytes rest m read
  obtain ⟨name, _, name_read, read⟩ := exists_of_bind read
  obtain ⟨id, _, id_read, read⟩ := exists_of_bind read
  obtain ⟨xref, _, xref_read, read⟩ := exists_of_bind read
  obtain ⟨presence, _, presence_read, read⟩ := exists_of_bind read
  obtain ⟨description, _, description_read, read⟩ := exists_of_bind read
  cases read
  have name_taken := covers_text name_read
  have id_taken := covers_option covers_ident id_read
  have xref_taken := covers_option covers_ident xref_read
  have presence_taken := covers_word (by decide) presence_read
  have description_taken := covers_option covers_text description_read
  simp only [writeMetadata, List.length_append]
  omega

theorem writeOption_filter_length_le (write : α → List UInt8) (value : Option α) (kept : Bool) :
    (writeOption write (value.filter fun _ => kept)).length ≤ (writeOption write value).length := by
  cases value with
  | none => exact Nat.le_refl _
  | some a =>
    cases kept with
    | false => exact Nat.succ_le_succ (Nat.zero_le _)
    | true => exact Nat.le_refl _

/-- A token takes no more bytes than the fields it is made of, even if it drops some. -/
theorem covers_token : readToken.Covers fun t => writeRecord t.toRecord := by
  intro bytes rest t read
  obtain ⟨signal, _, signal_read, read⟩ := exists_of_bind read
  obtain ⟨scalar, _, scalar_read, read⟩ := exists_of_bind read
  obtain ⟨size, _, size_read, read⟩ := exists_of_bind read
  obtain ⟨offset, _, offset_read, read⟩ := exists_of_bind read
  obtain ⟨byteOrder, _, byteOrder_read, read⟩ := exists_of_bind read
  obtain ⟨metadata, _, metadata_read, read⟩ := exists_of_bind read
  have signal_taken := covers_word (by decide) signal_read
  have scalar_taken := covers_option (covers_word (by decide)) scalar_read
  have size_taken := covers_size size_read
  have offset_taken := covers_offset offset_read
  have byteOrder_taken := covers_option (covers_word (by decide)) byteOrder_read
  have metadata_taken := covers_option covers_metadata metadata_read
  cases metadata with
  | none => cases read
  | some m =>
    cases read
    have scalar_kept := writeOption_filter_length_le writeWord scalar signal.isEncoding
    have byteOrder_kept := writeOption_filter_length_le writeWord byteOrder signal.isEncoding
    simp only [writeRecord, Token.toRecord, List.length_append] at size_taken offset_taken ⊢
    omega

theorem covers_tokens (n : Nat) :
    (readTokens n).Covers fun s => (s.map Token.toRecord).flatMap writeRecord := by
  induction n with
  | zero =>
    intro bytes rest s read
    cases read
    simp
  | succ n ih =>
    intro bytes rest s read
    obtain ⟨token, _, token_read, read⟩ := exists_of_bind read
    obtain ⟨later, _, later_read, read⟩ := exists_of_bind read
    cases read
    have token_taken := covers_token token_read
    have later_taken := ih later_read
    simp only [List.map_cons, List.flatMap_cons, List.length_append] at token_taken later_taken ⊢
    omega

theorem length_of_readTokens {n : Nat} {bytes rest : List UInt8} {s : TokenStream}
    (read : readTokens n bytes = .ok (s, rest)) : s.length = n := by
  induction n generalizing bytes s with
  | zero =>
    cases read
    rfl
  | succ n ih =>
    obtain ⟨token, _, _, read⟩ := exists_of_bind read
    obtain ⟨later, _, later_read, read⟩ := exists_of_bind read
    cases read
    rw [List.length_cons, ih later_read]

theorem leafEncoding_of_readTokens {n : Nat} {bytes rest : List UInt8} {s : TokenStream}
    (read : readTokens n bytes = .ok (s, rest)) : ∀ t ∈ s, t.LeafEncoding := by
  induction n generalizing bytes s with
  | zero =>
    cases read
    exact fun t listed => nomatch listed
  | succ n ih =>
    obtain ⟨token, _, token_read, read⟩ := exists_of_bind read
    obtain ⟨later, _, later_read, read⟩ := exists_of_bind read
    cases read
    exact List.forall_mem_cons.mpr ⟨readToken_leafEncoding token_read, ih later_read⟩

/-! ## Payloads -/

/-- A payload that can be read announces the number of its tokens. -/
theorem exists_readTokens_of_read {bytes : List UInt8} {s : TokenStream}
    (done : read bytes = .ok s) :
    ∃ behind rest, Varint.read Varint.long bytes = .ok (s.length, behind) ∧
      readTokens s.length behind = .ok (s, rest) := by
  rw [read, StateT.run'] at done
  cases outcome : (Varint.read Varint.long >>= readTokens) bytes with
  | error e =>
    rw [outcome] at done
    cases done
  | ok result =>
    obtain ⟨stream, rest⟩ := result
    rw [outcome] at done
    cases done
    obtain ⟨n, behind, number, tokens⟩ := exists_of_bind outcome
    obtain rfl := length_of_readTokens tokens
    exact ⟨behind, rest, number, tokens⟩

theorem length_write_le_of_read {bytes : List UInt8} {s : TokenStream} (done : read bytes = .ok s) :
    (write (s.map Token.toRecord)).length ≤ bytes.length := by
  obtain ⟨behind, rest, number, tokens⟩ := exists_readTokens_of_read done
  have counted := Varint.covers_varint Varint.long number
  have taken := covers_tokens s.length tokens
  dsimp only at taken
  rw [write, List.length_append, List.length_map]
  omega

theorem leafEncoding_of_read {bytes : List UInt8} {s : TokenStream} (done : read bytes = .ok s) :
    ∀ t ∈ s, t.LeafEncoding := by
  obtain ⟨_, _, _, tokens⟩ := exists_readTokens_of_read done
  exact leafEncoding_of_readTokens tokens

theorem writeOption_length_pos (write : α → List UInt8) (value : Option α) :
    0 < (writeOption write value).length := by
  cases value <;> exact Nat.succ_pos _

/-- Six fields of a byte at least, of which the last is a mark and five fields more. -/
theorem length_writeRecord_ge (t : Token) : 11 ≤ (writeRecord t.toRecord).length := by
  have signal : 0 < (writeWord t.signal).length := Varint.write_length_pos _ _
  have size : 0 < (writeWire t.size.toWire).length := Varint.write_length_pos _ _
  have offset : 0 < (writeWire t.offset.toWire).length := Varint.write_length_pos _ _
  have scalar := writeOption_length_pos writeWord t.scalar
  have byteOrder := writeOption_length_pos writeWord t.byteOrder
  have metadata : 5 ≤ (writeMetadata t.metadata).length := by
    have name := Varint.write_length_pos Varint.long (textBytes t.metadata.name).length
    have id := writeOption_length_pos writeIdent t.metadata.id
    have xref := writeOption_length_pos writeIdent t.metadata.xref
    have presence : 0 < (writeWord t.metadata.presence).length := Varint.write_length_pos _ _
    have description := writeOption_length_pos writeText t.metadata.description
    rw [writeMetadata, writeText]
    simp only [List.length_append]
    omega
  have marked : (writeOption writeMetadata t.toRecord.metadata).length
      = (writeMetadata t.metadata).length + 1 := rfl
  simp only [writeRecord, List.length_append, marked]
  simp only [Token.toRecord]
  omega

theorem length_write_ge (s : TokenStream) :
    11 * s.length + 1 ≤ (write (s.map Token.toRecord)).length := by
  have records : 11 * s.length ≤ ((s.map Token.toRecord).flatMap writeRecord).length := by
    induction s with
    | nil => exact Nat.le_refl 0
    | cons t later ih =>
      have here := length_writeRecord_ge t
      rw [List.map_cons, List.flatMap_cons, List.length_append, List.length_cons]
      omega
  have count := Varint.write_length_pos Varint.long (s.map Token.toRecord).length
  rw [write, List.length_append]
  omega

end Payload

/-! ## Containers -/

namespace TokenStream

/-- A container that is accepted has the length that its header says. -/
theorem exists_frames_of_decode {bytes : List UInt8} {s : TokenStream}
    (decoded : decode bytes = .ok s) :
    ∃ (header : Header) (payload : List UInt8), bytes = header.toBytes ++ payload ∧
      header.Frames payload ∧ Payload.read payload = .ok s := by
  by_cases long : Container.headerSize ≤ bytes.length
  · obtain ⟨header, payload, rfl⟩ := Header.exists_toBytes_append long
    have frames : header.Frames payload := reachesPayload_append_iff.mp (.inl ⟨s, decoded⟩)
    rw [decode_of_frames frames, mapError_eq_ok_iff] at decoded
    exact ⟨header, payload, rfl, frames, decoded⟩
  · rw [decode_of_short (Nat.lt_of_not_le long)] at decoded
    cases decoded

/-- Whatever container a stream has been taken out of, its own is no longer and holds the same
stream; and a container has no more tokens than its length has room for, whatever number its payload
announces. -/
theorem exists_encode_of_decode {bytes : List UInt8} {s : TokenStream}
    (decoded : decode bytes = .ok s) :
    (∃ canonical, s.encode = .ok canonical ∧ canonical.length ≤ bytes.length ∧
      decode canonical = .ok s) ∧ 11 * s.length + 17 ≤ bytes.length := by
  obtain ⟨header, payload, rfl, frames, done⟩ := exists_frames_of_decode decoded
  have shorter := Payload.length_write_le_of_read done
  have room := Payload.length_write_ge s
  have small : payload.length < 2 ^ 32 := frames.length ▸ header.payloadLength.toNat_lt
  have built : ∀ t ∈ s, t.Obtainable := fun t listed =>
    Token.obtainable_iff.mpr (Payload.leafEncoding_of_read done t listed)
  obtain ⟨canonical, encoded, same⟩ := decode_encode built (Nat.lt_of_le_of_lt shorter small)
  obtain ⟨own, _, rfl⟩ := exists_header_of_encode encoded
  rw [List.length_append, Header.toBytes_length, Container.headerSize]
  refine ⟨⟨_, encoded, ?_, same⟩, by omega⟩
  rw [List.length_append, Header.toBytes_length, Container.headerSize]
  omega

/-- A group with an encoding and a leaf. Their number, the signal of the group, its scalar type and
its identifier have zeros at their end, and two bytes follow the leaf. -/
def paddedPayload : List UInt8 :=
  [0x82, 0x80, 0, 0x86, 0, 1, 0x83, 0, 0x82, 0, 0, 1, 1, 1, 1, 0x67, 1, 0x87, 0x80, 0, 0, 0, 0,
   14, 1, 5, 2, 1, 1, 0, 1, 2, 111, 107, 0, 0, 0, 0, 9, 9]

/-- The group without its encoding, and the leaf. -/
def paddedMessage : TokenStream :=
  [(Token.structural (.start .group) ⟨"g", some 7, none, default, none⟩).withSize (.fixed 1),
   .leaf .uint8 .littleEndian ⟨"ok", none, none, default, none⟩]

theorem paddedMessage_canonical :
    ∃ header : Header, Header.ofPayload paddedPayload = .ok header ∧
      decode (header.toBytes ++ paddedPayload) = .ok paddedMessage ∧
      (∃ canonical, paddedMessage.encode = .ok canonical ∧
        canonical.length ≤ (header.toBytes ++ paddedPayload).length ∧
        decode canonical = .ok paddedMessage) ∧
      11 * paddedMessage.length + 17 ≤ (header.toBytes ++ paddedPayload).length := by
  have read : Payload.read paddedPayload = .ok paddedMessage := by
    decide +kernel
  obtain ⟨header, framed⟩ :=
    Header.exists_ofPayload (show paddedPayload.length < UInt32.size by decide)
  have decoded : decode (header.toBytes ++ paddedPayload) = .ok paddedMessage := by
    rw [decode_of_ofPayload framed, read]
    rfl
  exact ⟨header, framed, decoded, exists_encode_of_decode decoded⟩

end TokenStream

end WireSchema
