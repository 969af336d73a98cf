import WireSchema.Proofs.Binary.RoundTrip
import WireSchema.Proofs.Json.RoundTrip

/-!
# Two readers of records

A container holds records by position, a JSON text holds them by the names of their fields. Neither
form keeps a foreign writer from records that no token is written as: sizes and offsets out of
range, missing metadata, an encoding where no leaf is. Both readers take the same records for
tokens, and for the same tokens.

Results:

1. `decode_records_eq_ok_iff`: a container of records is read as the stream that they denote.
2. `ofJson_records_eq_ok_iff`: so is the text of an array of them.
3. `readers_agree`: the readers accept the same records, namely the valid ones, and make the same
   stream of them.
-/

namespace WireSchema.TokenStream

variable {records : List Record} {s : TokenStream}

theorem decode_records_eq_ok_iff {header : Header}
    (framed : Header.ofPayload (Payload.write records) = .ok header) :
    decode (header.toBytes ++ Payload.write records) = .ok s
      ↔ List.Forall₂ Record.Denotes records s := by
  have short : (Payload.write records).length < 2 ^ 32 := by
    rw [← (Header.frames_of_ofPayload framed).length]
    exact header.payloadLength.toNat_lt
  rw [decode_of_ofPayload framed, Payload.read_write_records (by omega), mapError_eq_ok_iff,
    mapError_eq_ok_iff, ofRecords_eq_ok_iff]

theorem ofJson_records_eq_ok_iff (style : Json.Style) :
    ofJson (String.ofList (Json.write style 0 (Json.ofRecords records))) = .ok s
      ↔ List.Forall₂ Record.Denotes records s := by
  rw [ofJson, Json.ofText_of_textOf (Json.textOf_write style _), Json.ofRecords,
    Json.Value.document, Json.readStream, Json.readTokens_records, mapError_eq_ok_iff,
    ofRecords_eq_ok_iff]

/-- Records in a container and the same records in a JSON text, in either style, are read as the
stream that they denote, and they denote one exactly when each of them is valid. -/
theorem readers_agree {records : List Record} (short : (Payload.write records).length < 2 ^ 32)
    (style : Json.Style) :
    ∃ header, Header.ofPayload (Payload.write records) = .ok header ∧
      (∀ s, decode (header.toBytes ++ Payload.write records) = .ok s
        ↔ List.Forall₂ Record.Denotes records s) ∧
      (∀ s, ofJson (String.ofList (Json.write style 0 (Json.ofRecords records))) = .ok s
        ↔ List.Forall₂ Record.Denotes records s) ∧
      ((∃ s, List.Forall₂ Record.Denotes records s) ↔ ∀ r ∈ records, r.Valid) := by
  obtain ⟨header, framed⟩ := Header.exists_ofPayload short
  exact ⟨header, framed, fun s => decode_records_eq_ok_iff framed,
    fun s => ofJson_records_eq_ok_iff style, exists_denotes_iff⟩

/-- A group with an encoding and the largest offset, and a leaf with a byte order alone. -/
def strayRecords : List Record :=
  [⟨.start .group, some .double, -1, 4294967295, some .bigEndian, some ⟨"g", some 7, none, default,
     none⟩⟩,
   ⟨.encoding, none, 4294967295, -1, some .littleEndian, some ⟨"x", none, some 7, .constant,
     some ""⟩⟩]

/-- The group has lost its encoding, and the leaf has kept what it had of one. -/
def strayMessage : TokenStream :=
  [⟨.start .group, none, .varying, .known 4294967295, none, ⟨"g", some 7, none, default, none⟩⟩,
   ⟨.encoding, none, .fixed 4294967295, .unknown, some .littleEndian,
     ⟨"x", none, some 7, .constant, some ""⟩⟩]

theorem strayRecords_readers :
    (Payload.write strayRecords).length < 2 ^ 32 ∧
      ∃ header, Header.ofPayload (Payload.write strayRecords) = .ok header ∧
        decode (header.toBytes ++ Payload.write strayRecords) = .ok strayMessage ∧
        ofJson (String.ofList (Json.write .compact 0 (Json.ofRecords strayRecords)))
          = .ok strayMessage := by
  have short : (Payload.write strayRecords).length < 2 ^ 32 := by decide +kernel
  have denotes : List.Forall₂ Record.Denotes strayRecords strayMessage :=
    .cons ⟨rfl, rfl, by decide, by decide, rfl, rfl⟩
      (.cons ⟨rfl, rfl, by decide, by decide, rfl, rfl⟩ .nil)
  obtain ⟨header, framed, binary, json, _⟩ := readers_agree short .compact
  exact ⟨short, header, framed, (binary _).mpr denotes, (json _).mpr denotes⟩

end WireSchema.TokenStream
