import WireSchema.Binary.Checksum

/-!
# Bursts of errors

The register of a checksum is shifted and added to, and neither loses anything: a shift is linear
over exclusive or, and injective because the polynomial sets the top bit, which shifting alone
leaves clear. Two texts that drive the register apart are never brought together again by equal
bytes. Four bytes fill the register: it takes them in as one word of 32 bits, so that no difference
within four bytes is lost.

Results:

1. `shifts_xor`, `shifts_injective`: shifting the register is linear and injective.
2. `register_eq_shifts`: up to four bytes enter the register as one word.
3. `Burst.checksum_ne`: texts that differ within four consecutive bytes only have different
   checksums.
-/

namespace WireSchema

namespace Checksum

/-! ## Shifting the register -/

theorem getLsbD_shift (a : BitVec 32) (i : Nat) :
    (shift a).getLsbD i = (a.getLsbD (i + 1) ^^ (a.getLsbD 0 && polynomial.getLsbD i)) := by
  rw [shift]
  cases low : a.getLsbD 0 with
  | false => simp [Nat.add_comm]
  | true => simp [Nat.add_comm]

theorem shift_xor (a b : BitVec 32) : shift (a ^^^ b) = shift a ^^^ shift b := by
  apply BitVec.eq_of_getLsbD_eq
  intro i _
  simp only [getLsbD_shift, BitVec.getLsbD_xor]
  cases a.getLsbD 0 <;> cases b.getLsbD 0 <;> cases polynomial.getLsbD i <;> simp

/-- The bit that is shifted out comes back as the top bit, so that nothing is lost. -/
theorem shift_injective {a b : BitVec 32} (same : shift a = shift b) : a = b := by
  have bits (i : Nat) : (shift a).getLsbD i = (shift b).getLsbD i := by rw [same]
  have top (x : BitVec 32) : (shift x).getLsbD 31 = x.getLsbD 0 := by
    have set : polynomial.getLsbD 31 = true := by decide
    rw [getLsbD_shift, set, BitVec.getLsbD_of_ge x 32 (Nat.le_refl 32), Bool.and_true,
      Bool.false_xor]
  have low : a.getLsbD 0 = b.getLsbD 0 := by rw [← top a, ← top b, same]
  apply BitVec.eq_of_getLsbD_eq
  intro i _
  cases i with
  | zero => exact low
  | succ i =>
    have bit := bits i
    rw [getLsbD_shift, getLsbD_shift, low] at bit
    exact Bool.xor_left_inj.mp bit

theorem shifts_xor (n : Nat) (a b : BitVec 32) :
    shifts n (a ^^^ b) = shifts n a ^^^ shifts n b := by
  induction n generalizing a b with
  | zero => rfl
  | succ n ih => rw [shifts, shifts, shifts, shift_xor, ih]

theorem shifts_injective {n : Nat} {a b : BitVec 32} (same : shifts n a = shifts n b) : a = b := by
  induction n generalizing a b with
  | zero => exact same
  | succ n ih => exact shift_injective (ih same)

theorem shifts_shifts (m n : Nat) (a : BitVec 32) : shifts m (shifts n a) = shifts (n + m) a := by
  induction n generalizing a with
  | zero => rw [Nat.zero_add, shifts]
  | succ n ih => rw [Nat.succ_add, shifts, shifts, ih]

/-- Shifting undoes a shift to the left, as long as that loses no bit. -/
theorem shifts_shiftLeft {n : Nat} {a : BitVec 32}
    (clear : ∀ i, 32 ≤ i + n → a.getLsbD i = false) : shifts n (a <<< n) = a := by
  induction n with
  | zero => rw [BitVec.shiftLeft_zero, shifts]
  | succ n ih =>
    have once : shift (a <<< (n + 1)) = a <<< n := by
      apply BitVec.eq_of_getLsbD_eq
      intro i bound
      have low : (a <<< (n + 1)).getLsbD 0 = false := by simp
      rw [getLsbD_shift, low, Bool.false_and, Bool.xor_false, BitVec.getLsbD_shiftLeft,
        BitVec.getLsbD_shiftLeft, Nat.add_sub_add_right]
      by_cases inside : i + 1 < 32
      · simp [inside, bound]
      · -- the top bit is shifted out to the left
        have gone : a.getLsbD (i - n) = false := clear (i - n) (by omega)
        rw [gone, Bool.and_false, Bool.and_false]
    rw [shifts, once, ih fun i far => clear i (by omega)]

/-! ## Feeding bytes -/

/-- Up to four bytes as a word, the first one in the lowest bits. -/
def word : List UInt8 → BitVec 32
  | [] => 0#32
  | byte :: rest => byte.toBitVec.setWidth 32 ^^^ word rest <<< 8

theorem getLsbD_word_of_ge {bytes : List UInt8} {i : Nat} (far : 8 * bytes.length ≤ i) :
    (word bytes).getLsbD i = false := by
  induction bytes generalizing i with
  | nil => simp [word]
  | cons byte rest ih =>
    rw [List.length_cons] at far
    have front : byte.toBitVec.getLsbD i = false := BitVec.getLsbD_of_ge _ i (by omega)
    have behind : (word rest).getLsbD (i - 8) = false := ih (by omega)
    simp [word, front, behind]

/-- The lowest bits of a word are its first byte. -/
theorem setWidth_word (byte : UInt8) (rest : List UInt8) :
    (word (byte :: rest)).setWidth 8 = byte.toBitVec := by
  apply BitVec.eq_of_getLsbD_eq
  intro i inside
  simp [word, inside]

/-- A word of at most three bytes moves up by a byte, and down again, without loss. -/
theorem shifts_word {bytes : List UInt8} (few : bytes.length ≤ 3) :
    shifts 8 (word bytes <<< 8) = word bytes :=
  shifts_shiftLeft fun _ _ => getLsbD_word_of_ge (by omega)

/-- Up to four bytes enter the register as one word. -/
theorem register_eq_shifts (start : BitVec 32) {bytes : List UInt8} (few : bytes.length ≤ 4) :
    register start bytes = shifts (8 * bytes.length) (start ^^^ word bytes) := by
  induction bytes generalizing start with
  | nil => simp [register, word, shifts]
  | cons byte rest ih =>
    have few_rest : rest.length ≤ 3 := Nat.le_of_succ_le_succ few
    calc register start (byte :: rest)
        = shifts (8 * rest.length) (feed start byte ^^^ word rest) :=
          ih (feed start byte) (by omega)
      _ = shifts (8 * rest.length)
            (shifts 8 ((start ^^^ byte.toBitVec.setWidth 32) ^^^ word rest <<< 8)) := by
          rw [shifts_xor 8 (start ^^^ _), shifts_word few_rest, feed]
      _ = shifts (8 * (rest.length + 1)) (start ^^^ word (byte :: rest)) := by
          rw [shifts_shifts, Nat.add_comm, ← Nat.mul_succ, BitVec.xor_assoc, word]

theorem word_injective {bytes other : List UInt8} (same_length : bytes.length = other.length)
    (few : bytes.length ≤ 4) (same : word bytes = word other) : bytes = other := by
  induction bytes generalizing other with
  | nil => exact (List.eq_nil_of_length_eq_zero same_length.symm).symm
  | cons byte rest ih =>
    cases other with
    | nil => cases same_length
    | cons byte' rest' =>
      have lengths : rest.length = rest'.length := Nat.succ.inj same_length
      have few_rest : rest.length ≤ 3 := Nat.le_of_succ_le_succ few
      have first : byte = byte' := by
        rw [← UInt8.toBitVec_inj, ← setWidth_word byte rest, same, setWidth_word]
      have behind : word rest <<< 8 = word rest' <<< 8 := by
        rw [word, word, first] at same
        exact (BitVec.xor_right_inj _).mp same
      have later : rest = rest' := by
        apply ih lengths (by omega)
        calc word rest = shifts 8 (word rest <<< 8) := (shifts_word few_rest).symm
          _ = shifts 8 (word rest' <<< 8) := by rw [behind]
          _ = word rest' := shifts_word (by omega)
      rw [first, later]

theorem register_append (start : BitVec 32) (front back : List UInt8) :
    register start (front ++ back) = register (register start front) back :=
  List.foldl_append

/-- Equal bytes keep registers apart. -/
theorem register_injective {a b : BitVec 32} {bytes : List UInt8}
    (same : register a bytes = register b bytes) : a = b := by
  induction bytes generalizing a b with
  | nil => exact same
  | cons byte rest ih =>
    have fed : feed a byte = feed b byte := ih same
    exact (BitVec.xor_left_inj _).mp (shifts_injective fed)

/-! ## Bursts -/

/-- Texts that differ in a middle part of up to four bytes have different checksums. -/
theorem ofBytes_ne_of_middle {front middle other back : List UInt8}
    (same_length : middle.length = other.length) (few : middle.length ≤ 4)
    (differ : middle ≠ other) :
    ofBytes (front ++ (middle ++ back)) ≠ ofBytes (front ++ (other ++ back)) := by
  intro same
  have registers : register (BitVec.allOnes 32) (front ++ (middle ++ back))
      = register (BitVec.allOnes 32) (front ++ (other ++ back)) :=
    BitVec.not_inj.mp (congrArg UInt32.toBitVec same)
  rw [register_append, register_append, register_append, register_append] at registers
  -- the equal bytes behind the middle are taken off first, then the equal register before it
  have behind := register_injective registers
  rw [register_eq_shifts _ few, register_eq_shifts _ (same_length ▸ few : other.length ≤ 4),
    same_length] at behind
  have words : word middle = word other := (BitVec.xor_right_inj _).mp (shifts_injective behind)
  exact differ (word_injective same_length few words)

end Checksum

/-- A text of bytes and a different one of the same length, with all differences within four
consecutive bytes from a position on. -/
structure Burst (start : Nat) (bytes damaged : List UInt8) : Prop where
  length : damaged.length = bytes.length
  outside : ∀ k, k < start ∨ start + 4 ≤ k → damaged[k]? = bytes[k]?
  differ : damaged ≠ bytes

namespace Burst

variable {start : Nat} {bytes damaged : List UInt8}

/-- A middle part of up to four bytes that is replaced by another one is a burst. -/
theorem of_parts {front middle other back : List UInt8} (same_length : other.length = middle.length)
    (few : middle.length ≤ 4) (differ : other ≠ middle) :
    Burst front.length (front ++ (middle ++ back)) (front ++ (other ++ back)) where
  length := by simp only [List.length_append, same_length]
  outside := by
    rintro k (before | behind)
    · rw [List.getElem?_append_left before, List.getElem?_append_left before]
    · rw [← List.append_assoc, ← List.append_assoc,
        List.getElem?_append_right (by rw [List.length_append]; omega),
        List.getElem?_append_right (by rw [List.length_append]; omega),
        List.length_append, List.length_append, same_length]
  differ := by
    intro same
    exact differ (List.append_cancel_right (List.append_cancel_left same))

theorem take_eq (burst : Burst start bytes damaged) : damaged.take start = bytes.take start := by
  apply List.ext_getElem?
  intro k
  rw [List.getElem?_take, List.getElem?_take]
  split
  · next before => exact burst.outside k (.inl before)
  · rfl

theorem drop_eq (burst : Burst start bytes damaged) :
    damaged.drop (start + 4) = bytes.drop (start + 4) := by
  apply List.ext_getElem?
  intro k
  rw [List.getElem?_drop, List.getElem?_drop]
  exact burst.outside _ (.inr (Nat.le_add_right _ _))

/-- The part before the burst, the four bytes of it as far as there are any, and the part behind. -/
theorem parts (start : Nat) (bytes : List UInt8) :
    bytes.take start ++ ((bytes.drop start).take 4 ++ bytes.drop (start + 4)) = bytes := by
  rw [← List.drop_drop, List.take_append_drop, List.take_append_drop]

/-- No burst goes unnoticed by the checksum. -/
theorem checksum_ne (burst : Burst start bytes damaged) :
    Checksum.ofBytes damaged ≠ Checksum.ofBytes bytes := by
  have same_length : ((damaged.drop start).take 4).length = ((bytes.drop start).take 4).length := by
    rw [List.length_take, List.length_take, List.length_drop, List.length_drop, burst.length]
  have differ : (damaged.drop start).take 4 ≠ (bytes.drop start).take 4 := by
    intro same
    apply burst.differ
    rw [← parts start damaged, ← parts start bytes, burst.take_eq, burst.drop_eq, same]
  rw [← parts start damaged, ← parts start bytes, burst.take_eq, burst.drop_eq]
  exact Checksum.ofBytes_ne_of_middle same_length (List.length_take_le _ _) differ

/-- Behind an undamaged length of front, a burst is one of the part that follows. -/
theorem behind {front front' rest rest' : List UInt8}
    (burst : Burst start (front ++ rest) (front' ++ rest'))
    (same_length : front'.length = front.length) (differ : rest' ≠ rest) :
    Burst (start - front.length) rest rest' where
  length := by
    have lengths := burst.length
    rw [List.length_append, List.length_append] at lengths
    omega
  outside := by
    intro k away
    have entry := burst.outside (front.length + k) (by omega)
    rw [List.getElem?_append_right (by omega), List.getElem?_append_right (by omega),
      same_length, Nat.add_sub_cancel_left] at entry
    exact entry
  differ := differ

end Burst

end WireSchema
