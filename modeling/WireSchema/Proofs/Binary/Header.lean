import WireSchema.Binary.Container

/-!
# The checks in front of a payload

A text of bytes with room for a header is a header and a payload, whatever they say. What the checks
in front of the payload make of it depends on the four fields and the payload alone. The header that
belongs to a payload passes them all, and no other header does.

Results:

1. `Header.exists_toBytes_append`: a text with room for a header is a header and a payload.
2. `decode_append`: the outcome of the checks, field by field.
3. `decode_of_frames`, `refusedByHeader_of_not_frames`: behind the header that belongs to it, only
   the payload itself matters, and any other header is refused.
4. `reachesPayload_iff_own_header`: headers and their bytes determine each other, and so does a
   payload determine the header behind which it is looked at.
-/

namespace WireSchema

/-! ## Headers and texts -/

theorem Quad.length_toList (q : Quad) : q.toList.length = 4 := rfl

theorem Quad.exists_toList_append {bytes : List UInt8} (long : 4 ≤ bytes.length) :
    ∃ (q : Quad) (rest : List UInt8), bytes = q.toList ++ rest := by
  rcases bytes with _ | ⟨a, _ | ⟨b, _ | ⟨c, _ | ⟨d, rest⟩⟩⟩⟩
  case cons.cons.cons.cons => exact ⟨⟨a, b, c, d⟩, rest, rfl⟩
  all_goals simp at long

namespace Header

/-- A text of bytes with room for a header is a header and what follows it. -/
theorem exists_toBytes_append {bytes : List UInt8} (long : Container.headerSize ≤ bytes.length) :
    ∃ (header : Header) (payload : List UInt8), bytes = header.toBytes ++ payload := by
  have room : 16 ≤ bytes.length := long
  obtain ⟨magic, rest, rfl⟩ := Quad.exists_toList_append (show 4 ≤ bytes.length by omega)
  rw [List.length_append, Quad.length_toList] at room
  obtain ⟨version, rest, rfl⟩ := Quad.exists_toList_append (show 4 ≤ rest.length by omega)
  rw [List.length_append, Quad.length_toList] at room
  obtain ⟨checksum, rest, rfl⟩ := Quad.exists_toList_append (show 4 ≤ rest.length by omega)
  rw [List.length_append, Quad.length_toList] at room
  obtain ⟨length, payload, rfl⟩ := Quad.exists_toList_append (show 4 ≤ rest.length by omega)
  refine ⟨⟨magic, version.toWord, checksum.toWord, length.toWord⟩, payload, ?_⟩
  simp only [toBytes, Quad.ofWord_toWord, List.append_assoc]

theorem toBytes_injective {header other : Header} (same : header.toBytes = other.toBytes) :
    header = other := by
  have read := ofBytes_toBytes header []
  rw [same, ofBytes_toBytes other []] at read
  exact (Except.ok.inj read).symm

/-- What the checks in front of a payload ask for. -/
structure Frames (header : Header) (payload : List UInt8) : Prop where
  magic : header.magic = Container.magic
  version : header.version = Container.version
  length : header.payloadLength.toNat = payload.length
  checksum : header.checksum = Checksum.ofBytes payload

/-- No payload has two headers. -/
theorem Frames.unique {header other : Header} {payload : List UInt8}
    (frames : header.Frames payload) (frames' : other.Frames payload) : other = header := by
  obtain ⟨magic, version, checksum, length⟩ := header
  obtain ⟨magic', version', checksum', length'⟩ := other
  obtain ⟨rfl, rfl, size, rfl⟩ := frames
  obtain ⟨rfl, rfl, size', rfl⟩ := frames'
  obtain rfl : length' = length := UInt32.toNat_inj.mp (size'.trans size.symm)
  rfl

theorem exists_ofPayload {payload : List UInt8} (short : payload.length < UInt32.size) :
    ∃ header, ofPayload payload = .ok header :=
  ⟨_, if_pos short⟩

theorem frames_of_ofPayload {header : Header} {payload : List UInt8}
    (framed : ofPayload payload = .ok header) : header.Frames payload := by
  rw [ofPayload] at framed
  split at framed
  · next short =>
    obtain rfl := Except.ok.inj framed
    exact ⟨rfl, rfl, UInt32.toNat_ofNat_of_lt' short, rfl⟩
  · cases framed

/-- The header that is written in front of a payload is the one that belongs to it. -/
theorem ofPayload_eq_ok_iff {header : Header} {payload : List UInt8} :
    ofPayload payload = .ok header ↔ header.Frames payload := by
  refine ⟨frames_of_ofPayload, fun frames => ?_⟩
  have short : payload.length < UInt32.size := frames.length ▸ header.payloadLength.toNat_lt
  obtain ⟨own, framed⟩ := exists_ofPayload short
  rw [framed, frames.unique (frames_of_ofPayload framed)]

end Header

/-! ## The checks -/

namespace TokenStream

theorem decode_of_short {bytes : List UInt8} (short : bytes.length < Container.headerSize) :
    decode bytes = .error (.tooShort bytes.length) := by
  have refused : Header.ofBytes bytes = .error (.tooShort bytes.length) := by
    unfold Header.ofBytes
    split
    · simp [Container.headerSize] at short
      omega
    · rfl
  rw [decode, refused]

theorem decode_append (header : Header) (payload : List UInt8) :
    decode (header.toBytes ++ payload) =
      if header.magic ≠ Container.magic then .error .invalidMagic
      else if header.version ≠ Container.version then .error (.unsupportedVersion header.version)
      else if header.payloadLength.toNat ≠ payload.length then
        .error (.sizeMismatch header.payloadLength payload.length)
      else if Checksum.ofBytes payload ≠ header.checksum then
        .error (.checksumMismatch header.checksum (Checksum.ofBytes payload))
      else (Payload.read payload).mapError .payload := by
  rw [decode, Header.ofBytes_toBytes]
  dsimp only
  rw [← Header.toBytes_length header, List.drop_left]

/-- A container is refused by one of the checks in front of its payload. -/
def RefusedByHeader (outcome : Except ContainerError TokenStream) : Prop :=
  outcome = .error .invalidMagic ∨
    (∃ version, outcome = .error (.unsupportedVersion version)) ∨
    (∃ header actual, outcome = .error (.sizeMismatch header actual)) ∨
    ∃ header computed, outcome = .error (.checksumMismatch header computed)

/-- A header that does not belong to the payload fails one of the checks. -/
theorem refusedByHeader_of_not_frames {header : Header} {payload : List UInt8}
    (foreign : ¬header.Frames payload) : RefusedByHeader (decode (header.toBytes ++ payload)) := by
  rw [decode_append]
  split
  · exact .inl rfl
  · next magic =>
    split
    · exact .inr (.inl ⟨_, rfl⟩)
    · next version =>
      split
      · exact .inr (.inr (.inl ⟨_, _, rfl⟩))
      · next length =>
        split
        · exact .inr (.inr (.inr ⟨_, _, rfl⟩))
        · next checksum =>
          exact absurd ⟨Decidable.not_not.mp magic, Decidable.not_not.mp version,
            Decidable.not_not.mp length, (Decidable.not_not.mp checksum).symm⟩ foreign

/-- The header that belongs to a payload passes every check in front of it. -/
theorem decode_of_frames {header : Header} {payload : List UInt8}
    (frames : header.Frames payload) :
    decode (header.toBytes ++ payload) = (Payload.read payload).mapError .payload := by
  rw [decode_append, frames.magic, frames.version, frames.length, frames.checksum]
  simp only [ne_eq, not_true_eq_false, if_false]

theorem decode_of_ofPayload {header : Header} {payload : List UInt8}
    (framed : Header.ofPayload payload = .ok header) :
    decode (header.toBytes ++ payload) = (Payload.read payload).mapError .payload :=
  decode_of_frames (Header.frames_of_ofPayload framed)

/-- What a stream is encoded as: the header that belongs to its payload, and the payload. -/
theorem exists_header_of_encode {s : TokenStream} {bytes : List UInt8}
    (encoded : s.encode = .ok bytes) :
    ∃ header : Header, header.Frames (Payload.write (s.map Token.toRecord)) ∧
      bytes = header.toBytes ++ Payload.write (s.map Token.toRecord) := by
  rw [encode] at encoded
  split at encoded
  · cases encoded
  · next header framed =>
    exact ⟨header, Header.frames_of_ofPayload framed, (Except.ok.inj encoded).symm⟩

/-! ## Reaching the payload -/

/-- The checks in front of a payload have been passed: the stream is read, or it is refused for what
the payload says. -/
def ReachesPayload (outcome : Except ContainerError TokenStream) : Prop :=
  (∃ s, outcome = .ok s) ∨ ∃ e, outcome = .error (.payload e)

theorem RefusedByHeader.not_reachesPayload {outcome : Except ContainerError TokenStream}
    (refused : RefusedByHeader outcome) : ¬ReachesPayload outcome := by
  rcases refused with rfl | ⟨_, rfl⟩ | ⟨_, _, rfl⟩ | ⟨_, _, rfl⟩ <;>
    rintro (⟨_, reached⟩ | ⟨_, reached⟩) <;> cases reached

theorem reachesPayload_append_iff {header : Header} {payload : List UInt8} :
    ReachesPayload (decode (header.toBytes ++ payload)) ↔ header.Frames payload := by
  constructor
  · intro reached
    refine Classical.byContradiction fun foreign => ?_
    exact (refusedByHeader_of_not_frames foreign).not_reachesPayload reached
  · intro frames
    rw [decode_of_frames frames]
    cases Payload.read payload with
    | ok s => exact .inl ⟨s, rfl⟩
    | error e => exact .inr ⟨e, rfl⟩

theorem reachesPayload_iff {bytes : List UInt8} :
    ReachesPayload (decode bytes) ↔
      ∃ header, Header.ofPayload (bytes.drop 16) = .ok header ∧ bytes.take 16 = header.toBytes := by
  by_cases long : Container.headerSize ≤ bytes.length
  · obtain ⟨header, payload, rfl⟩ := Header.exists_toBytes_append long
    have front : (header.toBytes ++ payload).take 16 = header.toBytes := List.take_left' rfl
    have back : (header.toBytes ++ payload).drop 16 = payload := List.drop_left' rfl
    rw [reachesPayload_append_iff, front, back]
    constructor
    · intro frames
      exact ⟨header, Header.ofPayload_eq_ok_iff.mpr frames, rfl⟩
    · rintro ⟨own, framed, same⟩
      rw [Header.toBytes_injective same]
      exact Header.frames_of_ofPayload framed
  · rw [decode_of_short (Nat.lt_of_not_le long)]
    constructor
    · rintro (⟨_, refused⟩ | ⟨_, refused⟩) <;> cases refused
    · rintro ⟨header, _, same⟩
      -- there are not enough bytes for a header
      have length : min 16 bytes.length = 16 := by
        rw [← List.length_take, same]
        rfl
      exact absurd (show 16 ≤ bytes.length by omega) long

/-- A header is read back from its bytes, whatever follows them, and what is read as a header has
the bytes that it was read from. A container reaches its payload exactly when its first sixteen
bytes are the header that is written in front of that payload, so that no payload is looked at
behind two headers. -/
theorem reachesPayload_iff_own_header :
    (∀ (header : Header) (rest : List UInt8),
        Header.ofBytes (header.toBytes ++ rest) = .ok header) ∧
      (∀ bytes, 16 ≤ bytes.length →
        ∃ header, Header.ofBytes bytes = .ok header ∧ header.toBytes = bytes.take 16) ∧
      (∀ bytes, ReachesPayload (decode bytes) ↔
        ∃ header, Header.ofPayload (bytes.drop 16) = .ok header ∧
          bytes.take 16 = header.toBytes) ∧
      ∀ bytes other, ReachesPayload (decode bytes) → ReachesPayload (decode other) →
        bytes.drop 16 = other.drop 16 → bytes = other := by
  refine ⟨Header.ofBytes_toBytes, ?_, fun bytes => reachesPayload_iff, ?_⟩
  · intro bytes long
    obtain ⟨header, payload, rfl⟩ := Header.exists_toBytes_append long
    exact ⟨header, Header.ofBytes_toBytes header payload, (List.take_left' rfl).symm⟩
  · intro bytes other reached other_reached same
    obtain ⟨header, framed, front⟩ := reachesPayload_iff.mp reached
    obtain ⟨header', framed', front'⟩ := reachesPayload_iff.mp other_reached
    rw [same, framed'] at framed
    obtain rfl := Except.ok.inj framed
    rw [← List.take_append_drop 16 bytes, ← List.take_append_drop 16 other, front, front', same]

/-- The container of a payload that announces a leaf and breaks off. -/
def brokenContainer : List UInt8 :=
  [67, 73, 82, 83, 1, 0, 0, 0, 185, 14, 122, 191, 2, 0, 0, 0, 1, 14]

/-- It reaches its payload, whose header is no other one. -/
theorem brokenContainer_own_header :
    (∃ header, Header.ofBytes brokenContainer = .ok header ∧
      header.toBytes = brokenContainer.take 16) ∧
    ReachesPayload (decode brokenContainer) ∧
    ¬ReachesPayload (decode (brokenContainer.set 8 184)) := by
  obtain ⟨_, read, own, unique⟩ := reachesPayload_iff_own_header
  have checksum : Checksum.ofBytes [1, 14] = 3212447417 := by decide +kernel
  have reached : ReachesPayload (decode brokenContainer) :=
    (own brokenContainer).mpr ⟨⟨Container.magic, Container.version, 3212447417, 2⟩,
      by rw [Header.ofPayload, if_pos (by decide), ← checksum]; rfl, by decide⟩
  refine ⟨read brokenContainer (by decide), reached, fun other_reached => ?_⟩
  exact absurd (unique _ _ reached other_reached rfl) (by decide)

end TokenStream

end WireSchema
