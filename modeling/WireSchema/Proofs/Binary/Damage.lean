import WireSchema.Proofs.Binary.Checksum
import WireSchema.Proofs.Binary.Header

/-!
# Damaged containers

A container that has been damaged in up to four consecutive bytes, cut short or continued is refused
before its payload is read. The checks come in the order of the fields. A burst that leaves magic,
version and length as they were either changes the checksum and nothing else, or lies too far behind
to reach the checksum, and then the payload has another one.

Results:

1. `decode_of_burst`: what a burst leads to, wherever it lies.
2. `decode_of_length`: another length is noticed behind an undamaged header.
3. `decode_damaged`: containers of streams that have been damaged.
-/

namespace WireSchema

namespace Header

variable {start : Nat} {header other : Header} {payload payload' : List UInt8}

/-- A burst behind the first twelve bytes leaves the checksum as it was. -/
theorem checksum_eq_of_burst
    (burst : Burst start (header.toBytes ++ payload) (other.toBytes ++ payload'))
    (late : 12 ≤ start) : other.checksum = header.checksum := by
  have first := burst.outside 8 (by omega)
  have second := burst.outside 9 (by omega)
  have third := burst.outside 10 (by omega)
  have fourth := burst.outside 11 (by omega)
  simp only [toBytes, Quad.toList, List.cons_append, List.nil_append, List.getElem?_cons_succ,
    List.getElem?_cons_zero, Option.some.injEq] at first second third fourth
  have same : Quad.ofWord other.checksum = Quad.ofWord header.checksum := by
    cases written : Quad.ofWord other.checksum
    cases written' : Quad.ofWord header.checksum
    simp_all
  rw [← Quad.toWord_ofWord other.checksum, same, Quad.toWord_ofWord]

/-- A burst behind the header leaves the header as it was. -/
theorem eq_of_burst
    (burst : Burst start (header.toBytes ++ payload) (other.toBytes ++ payload'))
    (late : 16 ≤ start) : other = header := by
  apply toBytes_injective
  have front : (other.toBytes ++ payload').take 16 = (header.toBytes ++ payload).take 16 := by
    have longer := congrArg (List.take 16) burst.take_eq
    rwa [List.take_take, List.take_take, Nat.min_eq_left late] at longer
  exact front

/-- A burst that does not reach behind the header leaves the payload as it was. -/
theorem payload_eq_of_burst
    (burst : Burst start (header.toBytes ++ payload) (other.toBytes ++ payload'))
    (early : start ≤ 12) : payload' = payload := by
  have rest := congrArg (List.drop (12 - start)) burst.drop_eq
  rw [List.drop_drop, List.drop_drop, show start + 4 + (12 - start) = 16 by omega] at rest
  exact rest

/-- A burst that changes the payload changes its checksum, and no other field can make up for it. -/
theorem checksum_ne_of_burst (frames : header.Frames payload)
    (burst : Burst start (header.toBytes ++ payload) (other.toBytes ++ payload'))
    (differ : payload' ≠ payload) : Checksum.ofBytes payload' ≠ other.checksum := by
  have late : 12 ≤ start :=
    Nat.le_of_not_lt fun early => differ (payload_eq_of_burst burst (Nat.le_of_lt early))
  rw [checksum_eq_of_burst burst late, frames.checksum]
  exact (burst.behind rfl differ).checksum_ne

/-- After a burst, the header is not the one that belongs to the payload. -/
theorem not_frames_of_burst (frames : header.Frames payload)
    (burst : Burst start (header.toBytes ++ payload) (other.toBytes ++ payload')) :
    ¬other.Frames payload' := by
  intro frames'
  by_cases same : payload' = payload
  · subst same
    rw [frames.unique frames'] at burst
    exact burst.differ rfl
  · exact checksum_ne_of_burst frames burst same frames'.checksum.symm

end Header

namespace TokenStream

variable {start : Nat} {header : Header} {payload damaged : List UInt8}

theorem exists_of_burst (burst : Burst start (header.toBytes ++ payload) damaged) :
    ∃ (other : Header) (payload' : List UInt8), damaged = other.toBytes ++ payload' ∧
      payload'.length = payload.length := by
  have length := burst.length
  rw [List.length_append, Header.toBytes_length] at length
  obtain ⟨other, payload', rfl⟩ :=
    Header.exists_toBytes_append (show Container.headerSize ≤ damaged.length by omega)
  rw [List.length_append, Header.toBytes_length] at length
  exact ⟨other, payload', rfl, Nat.add_left_cancel length⟩

/-- A burst anywhere is noticed by one of the checks in front of the payload. -/
theorem decode_of_burst (frames : header.Frames payload)
    (burst : Burst start (header.toBytes ++ payload) damaged) :
    RefusedByHeader (decode damaged) := by
  obtain ⟨other, payload', rfl, _⟩ := exists_of_burst burst
  exact refusedByHeader_of_not_frames (Header.not_frames_of_burst frames burst)

/-- A burst behind the header is noticed by the checksum. -/
theorem decode_of_burst_behind (frames : header.Frames payload)
    (burst : Burst start (header.toBytes ++ payload) damaged) (late : 16 ≤ start) :
    ∃ computed, decode damaged = .error (.checksumMismatch header.checksum computed) := by
  obtain ⟨other, payload', rfl, length⟩ := exists_of_burst burst
  obtain rfl := Header.eq_of_burst burst late
  have differ : payload' ≠ payload := by
    rintro rfl
    exact burst.differ rfl
  refine ⟨Checksum.ofBytes payload', ?_⟩
  rw [decode_append, if_neg (not_not_intro frames.magic), if_neg (not_not_intro frames.version),
    if_neg (not_not_intro (frames.length.trans length.symm)),
    if_pos (Header.checksum_ne_of_burst frames burst differ)]

/-- A payload of another length is noticed before its checksum is computed. -/
theorem decode_of_length {payload' : List UInt8} (frames : header.Frames payload)
    (differ : payload'.length ≠ payload.length) :
    decode (header.toBytes ++ payload')
      = .error (.sizeMismatch (UInt32.ofNat payload.length) payload'.length) := by
  have announced : header.payloadLength = UInt32.ofNat payload.length := by
    rw [← frames.length, UInt32.ofNat_toNat]
  have mismatch : header.payloadLength.toNat ≠ payload'.length := by
    rw [frames.length]
    exact differ.symm
  rw [decode_append, if_neg (not_not_intro frames.magic), if_neg (not_not_intro frames.version),
    if_pos mismatch, announced]

/-- A container that has been cut short has no room for a header, or less payload than announced. -/
theorem decode_of_prefix (frames : header.Frames payload) {cut more : List UInt8}
    (whole : cut ++ more = header.toBytes ++ payload) (missing : more ≠ []) :
    decode cut =
      if cut.length < 16 then .error (.tooShort cut.length)
      else .error (.sizeMismatch (UInt32.ofNat payload.length) (cut.length - 16)) := by
  split
  · next short => exact decode_of_short short
  · next long =>
    obtain ⟨other, payload', rfl⟩ :=
      Header.exists_toBytes_append (show Container.headerSize ≤ cut.length by
        exact Nat.le_of_not_lt long)
    rw [List.append_assoc] at whole
    obtain ⟨same, rest⟩ := List.append_inj whole rfl
    obtain rfl := Header.toBytes_injective same
    have length : payload'.length ≠ payload.length := by
      have positive := List.length_pos_iff.mpr missing
      rw [← rest, List.length_append]
      omega
    rw [decode_of_length frames length, List.length_append, Header.toBytes_length]
    simp [Container.headerSize]

/-- A container that goes on has more payload than announced. -/
theorem decode_of_extension (frames : header.Frames payload) {more : List UInt8}
    (added : more ≠ []) :
    decode (header.toBytes ++ payload ++ more)
      = .error (.sizeMismatch (UInt32.ofNat payload.length) (payload.length + more.length)) := by
  have length : (payload ++ more).length ≠ payload.length := by
    have positive := List.length_pos_iff.mpr added
    rw [List.length_append]
    omega
  rw [List.append_assoc, decode_of_length frames length, List.length_append]

/-- The container of a stream survives no damage within four consecutive bytes, no loss of bytes at
its end and no bytes added there. It is refused before its payload is read, and for damage of the
payload by the checksum. -/
theorem decode_damaged {s : TokenStream} {bytes : List UInt8} (encoded : s.encode = .ok bytes) :
    (∀ start damaged, Burst start bytes damaged →
        RefusedByHeader (decode damaged) ∧
          (16 ≤ start → ∃ header computed,
            decode damaged = .error (.checksumMismatch header computed))) ∧
      (∀ cut, cut <+: bytes → cut ≠ bytes →
        decode cut =
          if cut.length < 16 then .error (.tooShort cut.length)
          else .error (.sizeMismatch (UInt32.ofNat (bytes.length - 16)) (cut.length - 16))) ∧
      ∀ longer, bytes <+: longer → longer ≠ bytes →
        decode longer
          = .error (.sizeMismatch (UInt32.ofNat (bytes.length - 16)) (longer.length - 16)) := by
  obtain ⟨header, frames, rfl⟩ := exists_header_of_encode encoded
  generalize Payload.write (s.map Token.toRecord) = payload at frames
  have size : (header.toBytes ++ payload).length - 16 = payload.length := by
    rw [List.length_append, Header.toBytes_length, Container.headerSize, Nat.add_sub_cancel_left]
  rw [size]
  refine ⟨fun start damaged burst => ⟨decode_of_burst frames burst, fun late => ?_⟩, ?_, ?_⟩
  · obtain ⟨computed, refused⟩ := decode_of_burst_behind frames burst late
    exact ⟨_, computed, refused⟩
  · rintro cut ⟨more, whole⟩ proper
    refine decode_of_prefix frames whole ?_
    rintro rfl
    exact proper ((List.append_nil cut).symm.trans whole)
  · rintro _ ⟨more, rfl⟩ proper
    have added : more ≠ [] := by
      rintro rfl
      exact proper (List.append_nil _)
    have longer : (header.toBytes ++ payload ++ more).length - 16
        = payload.length + more.length := by
      rw [List.append_assoc, List.length_append, Header.toBytes_length, Container.headerSize,
        Nat.add_sub_cancel_left, List.length_append]
    rw [decode_of_extension frames added, longer]

/-- A single leaf. -/
def okLeaf : TokenStream :=
  [.leaf .uint8 .littleEndian ⟨"ok", none, none, default, none⟩]

/-- The container of the leaf: sixteen bytes of header and sixteen of payload. -/
def okContainer : List UInt8 :=
  [67, 73, 82, 83, 1, 0, 0, 0, 209, 80, 130, 161, 16, 0, 0, 0,
   1, 14, 1, 5, 2, 1, 1, 0, 1, 2, 111, 107, 0, 0, 0, 0]

/-- A burst that reaches from the length into the payload, one within the payload, the loss of the
last twelve bytes, and one byte more. -/
theorem okLeaf_damaged :
    okLeaf.encode = .ok okContainer ∧
      RefusedByHeader (decode ((okContainer.set 13 1).set 16 3)) ∧
      (∃ header computed,
        decode ((okContainer.set 17 0).set 20 9) = .error (.checksumMismatch header computed)) ∧
      decode (okContainer.take 20) = .error (.sizeMismatch 16 4) ∧
      decode (okContainer ++ [0]) = .error (.sizeMismatch 16 17) := by
  have encoded : okLeaf.encode = .ok okContainer := by
    have payload : Payload.write (okLeaf.map Token.toRecord) = okContainer.drop 16 := by
      decide +kernel
    have checksum : Checksum.ofBytes (okContainer.drop 16) = 2709672145 := by decide +kernel
    rw [encode, payload, Header.ofPayload, checksum]
    rfl
  obtain ⟨bursts, cuts, longer⟩ := decode_damaged encoded
  have straddling : Burst 13 okContainer ((okContainer.set 13 1).set 16 3) :=
    @Burst.of_parts (okContainer.take 13) [0, 0, 0, 1] [1, 0, 0, 3] (okContainer.drop 17) rfl
      (by decide) (by decide)
  have behind : Burst 17 okContainer ((okContainer.set 17 0).set 20 9) :=
    @Burst.of_parts (okContainer.take 17) [14, 1, 5, 2] [0, 1, 5, 9] (okContainer.drop 21) rfl
      (by decide) (by decide)
  exact ⟨encoded, (bursts _ _ straddling).1, (bursts _ _ behind).2 (by decide),
    cuts _ (List.take_prefix 20 okContainer) (by decide),
    longer _ (List.prefix_append okContainer [0]) (by decide)⟩

end TokenStream

end WireSchema
