/-!
# Checksums

The cyclic redundancy check of 32 bits over the reflected polynomial `0xEDB88320`: the register
starts with all bits set, takes in each byte least significant bit first, and is inverted at the
end.
-/

namespace WireSchema.Checksum

def polynomial : BitVec 32 := 0xEDB88320#32

/-- Shifts the register by one bit, and subtracts the polynomial when the bit shifted out is
set. -/
def shift (register : BitVec 32) : BitVec 32 :=
  if register.getLsbD 0 then (register >>> 1) ^^^ polynomial else register >>> 1

/-- Shifts the register by a number of bits. -/
def shifts : Nat → BitVec 32 → BitVec 32
  | 0, register => register
  | n + 1, register => shifts n (shift register)

def feed (register : BitVec 32) (byte : UInt8) : BitVec 32 :=
  shifts 8 (register ^^^ byte.toBitVec.setWidth 32)

def register (start : BitVec 32) (bytes : List UInt8) : BitVec 32 :=
  bytes.foldl feed start

def ofBytes (bytes : List UInt8) : UInt32 :=
  ⟨~~~register (BitVec.allOnes 32) bytes⟩

-- the check value that the literature gives for this code: the one of the digits "123456789"
example :
    ofBytes [0x31, 0x32, 0x33, 0x34, 0x35, 0x36, 0x37, 0x38, 0x39] = 0xCBF43926 := by
  decide +kernel

end WireSchema.Checksum
