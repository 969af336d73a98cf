import WireSchema.Binary.Checksum
import WireSchema.Binary.Payload
import WireSchema.Binary.Quad
import WireSchema.Text.Quoted

/-!
# Containers

A payload behind a header of sixteen bytes: a magic, the format version, the checksum of the
payload and its length. All numbers are little-endian words. Every field of the header is checked
before the payload is looked at.

Results:

1. `ofBytes_toBytes`: a header is read back, whatever follows it.
-/

namespace WireSchema

/-- Why a stream cannot be put into a container. -/
inductive OversizeError
  /-- The length does not fit the header. -/
  | tooLarge (bytes : Nat)
  deriving DecidableEq, Repr

def OversizeError.message : OversizeError → String
  | .tooLarge bytes =>
    "payload of " ++ bytes.repr ++ " bytes does not fit the u32 length field"

/-- Why a container is refused. -/
inductive ContainerError
  | tooShort (bytes : Nat)
  | invalidMagic
  | unsupportedVersion (version : UInt32)
  | sizeMismatch (header : UInt32) (actual : Nat)
  | checksumMismatch (header computed : UInt32)
  | payload (error : PayloadError)
  deriving DecidableEq, Repr

namespace Container

/-- The bytes that open every container: `CIRS`. -/
def magic : Quad := ⟨0x43, 0x49, 0x52, 0x53⟩

def version : UInt32 := 1

/-- The number of bytes of a header. -/
def headerSize : Nat := 16

/-- A word as `0x` and eight hexadecimal digits. -/
def hexWord (w : UInt32) : String :=
  let digits := Text.hexadecimal w.toNat
  String.ofList ('0' :: 'x' :: List.replicate (8 - digits.length) '0' ++ digits)

end Container

def ContainerError.message : ContainerError → String
  | .tooShort bytes =>
    "binary stream too short: " ++ bytes.repr ++ " bytes (header needs 16)"
  | .invalidMagic => "invalid magic: expected CIRS"
  | .unsupportedVersion version =>
    "unsupported version: " ++ version.toNat.repr ++ " (expected 1)"
  | .sizeMismatch header actual =>
    "payload size mismatch: header says " ++ header.toNat.repr ++ ", actual " ++ actual.repr
  | .checksumMismatch header computed =>
    "checksum mismatch: header " ++ Container.hexWord header ++ ", computed "
      ++ Container.hexWord computed
  | .payload e => "invalid binary payload: " ++ e.message

structure Header where
  magic : Quad
  version : UInt32
  checksum : UInt32
  payloadLength : UInt32
  deriving DecidableEq, Repr

namespace Header

def toBytes (h : Header) : List UInt8 :=
  h.magic.toList ++ (Quad.ofWord h.version).toList ++ (Quad.ofWord h.checksum).toList
    ++ (Quad.ofWord h.payloadLength).toList

/-- Reads a header without checking what it says. -/
def ofBytes : List UInt8 → Except ContainerError Header
  | m₀ :: m₁ :: m₂ :: m₃ :: v₀ :: v₁ :: v₂ :: v₃ :: c₀ :: c₁ :: c₂ :: c₃
      :: l₀ :: l₁ :: l₂ :: l₃ :: _ =>
    .ok ⟨⟨m₀, m₁, m₂, m₃⟩, Quad.toWord ⟨v₀, v₁, v₂, v₃⟩, Quad.toWord ⟨c₀, c₁, c₂, c₃⟩,
      Quad.toWord ⟨l₀, l₁, l₂, l₃⟩⟩
  | bytes => .error (.tooShort bytes.length)

/-- The header that belongs to a payload. -/
def ofPayload (payload : List UInt8) : Except OversizeError Header :=
  if payload.length < UInt32.size then
    .ok ⟨Container.magic, Container.version, Checksum.ofBytes payload,
      UInt32.ofNat payload.length⟩
  else .error (.tooLarge payload.length)

theorem toBytes_length (h : Header) : h.toBytes.length = Container.headerSize := rfl

theorem ofBytes_toBytes (h : Header) (rest : List UInt8) :
    ofBytes (h.toBytes ++ rest) = .ok h := by
  have version := Quad.toWord_ofWord h.version
  have checksum := Quad.toWord_ofWord h.checksum
  have length := Quad.toWord_ofWord h.payloadLength
  simp only [toBytes, Quad.toList, List.cons_append, List.nil_append, ofBytes, version, checksum,
    length]

end Header

namespace TokenStream

def encode (s : TokenStream) : Except OversizeError (List UInt8) :=
  let payload := Payload.write (s.map Token.toRecord)
  match Header.ofPayload payload with
  | .error e => .error e
  | .ok header => .ok (header.toBytes ++ payload)

def decode (bytes : List UInt8) : Except ContainerError TokenStream :=
  match Header.ofBytes bytes with
  | .error e => .error e
  | .ok header =>
    let payload := bytes.drop Container.headerSize
    let computed := Checksum.ofBytes payload
    if header.magic ≠ Container.magic then .error .invalidMagic
    else if header.version ≠ Container.version then .error (.unsupportedVersion header.version)
    else if header.payloadLength.toNat ≠ payload.length then
      .error (.sizeMismatch header.payloadLength payload.length)
    else if computed ≠ header.checksum then
      .error (.checksumMismatch header.checksum computed)
    else (Payload.read payload).mapError .payload

end TokenStream

end WireSchema
