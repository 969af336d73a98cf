import WireSchema.Json.Document
import WireSchema.Json.Failure

/-!
# Reading JSON

The meaning of a document. Records may be objects or arrays of their fields in order. In an
object, keys may come in any order and unknown keys are skipped; a field that may be absent may
also be null. Everything is looked at in the order of the text, and the first error wins.

Results:

1. `readToken_leafEncoding`: only leaves come out with an encoding.
-/

namespace WireSchema.Json

/-- Reads a value of a type out of a document. -/
abbrev Reading (α : Type) := Document → Except Failure α

/-- The failure of a document that is something else than expected. -/
def wrongType (expected : Expected) (doc : Document) : Failure :=
  let found (what : Found) : Failure := .data (.wrongType what expected)
  match doc with
  | .null => found .null
  | .boolean value => found (.boolean value)
  | .number numeral =>
    match numeral.value with
    | .ok number => found (.number number)
    | .error fault => .fault fault
  | .string units =>
    match characters? units with
    | some text => found (.string text)
    | none => .fault .malformed
  | .array _ => found .sequence
  | .object _ => found .map
  | .broken _ needed _ => .fault needed

/-! ## Single values -/

def readText : Reading String
  | .string units =>
    match characters? units with
    | some text => .ok (String.ofList text)
    | none => .error (.fault .malformed)
  | doc => .error (wrongType .text doc)

/-- Reads an integer from a lower bound up to, not including, an upper one. -/
def readInteger (expected : Expected) (low high : Int) : Reading Int
  | .number numeral =>
    match numeral.value with
    | .error fault => .error (.fault fault)
    | .ok (.integer value) =>
      if low ≤ value ∧ value < high then .ok value
      else .error (.data (.outOfRange value expected))
    | .ok number => .error (.data (.wrongType (.number number) expected))
  | doc => .error (wrongType expected doc)

def readIdent : Reading Ident := fun doc => do
  return UInt32.ofNat (← readInteger .ident 0 UInt32.size doc).toNat

def readWire : Reading Int64 := fun doc => do
  return Int64.ofInt
    (← readInteger .wireInteger (-0x8000000000000000) 0x8000000000000000 doc)

def readSize : Reading Size := fun doc => do
  (Size.ofWire (← readWire doc)).mapError fun e => .data (.record (.wire e))

def readOffset : Reading Offset := fun doc => do
  (Offset.ofWire (← readWire doc)).mapError fun e => .data (.record (.wire e))

/-- Reads a value that may be null. A document that breaks off behind the first letter of null
is taken for one. -/
def readOption {α : Type} (read : Reading α) : Reading (Option α)
  | .null => .ok none
  | .broken (some 'n') needed _ => .error (.fault needed)
  | doc => (read doc).map some

/-- The word of a vocabulary that a string names. -/
def wordOfUnits {α : Type} [Vocabulary α] (units : List StringUnit) : Except Failure α :=
  match characters? units with
  | none => .error (.fault .malformed)
  | some text =>
    match Vocabulary.ofName? (String.ofList text) with
    | some a => .ok a
    | none =>
      .error (.data (.unknownWord (String.ofList text)
        ((Vocabulary.terms : List α).map Vocabulary.name)))

/-- Accepts null alone. -/
def readUnit : Reading Unit
  | .null => .ok ()
  | doc => .error (wrongType .unit doc)

/-- Reads a word of a vocabulary: a string, or an object that maps the name to null. -/
def readWordOf {α : Type} [Vocabulary α] : Reading α
  | .string units => wordOfUnits units
  | .object members =>
    match members with
    | .closed => .error (.fault .malformed)
    | .stopped fault => .error (.fault fault)
    | .noKey instead => .error (wrongType .word instead)
    | .member key value rest => do
      let a ← wordOfUnits key
      readUnit value
      match rest with
      | .closed => return a
      | .stopped fault => .error (.fault fault)
      | _ => .error (.fault .malformed)
  | .broken none needed _ => .error (.fault needed)
  | .broken (some '"') needed _ => .error (.fault needed)
  | _ => .error (.fault .malformed)

/-! ## Records -/

/-- A field of a record that is collected in `σ`. -/
structure Field (σ : Type) where
  name : String
  read : Document → σ → Except Failure σ

/-- How a record is read: its fields are collected, then put together. What cannot be put together
lacks the field of a number and a name. -/
structure RecordShape (σ α : Type) where
  expected : Expected
  fields : List (Field σ)
  empty : σ
  finish : σ → Except (Nat × String) α

namespace RecordShape

variable {σ α : Type}

/-- Reads the fields of an object that are left, given the names of those already met. -/
def readMembers (shape : RecordShape σ α) (seen : List String) (collected : σ) :
    Members → Except Failure α
  | .closed => (shape.finish collected).mapError fun lack => .data (.missingField lack.2)
  | .stopped fault => .error (.fault fault)
  | .noKey instead => .error (.fault (instead.keyFault false))
  | .member key value rest =>
    match characters? key with
    | none => .error (.fault .malformed)
    | some text =>
      let name := String.ofList text
      match shape.fields.find? fun field => field.name == name with
      | none =>
        match value.skipFault with
        | some fault => .error (.fault fault)
        | none => readMembers shape seen collected rest
      | some field =>
        if seen.contains name then .error (.data (.duplicateField name))
        else
          match field.read value collected with
          | .error e => .error e
          | .ok collected => readMembers shape (name :: seen) collected rest

/-- Reads the fields of an array that are left. -/
def readItems (shape : RecordShape σ α) (left : List (Field σ)) (collected : σ) :
    Items → Except Failure α
  | .closed =>
    (shape.finish collected).mapError fun lack => .data (.wrongLength lack.1 shape.expected)
  | .stopped fault => .error (.fault fault)
  | .item value rest =>
    match left with
    | [] => .error (.fault .malformed)
    | field :: left =>
      match field.read value collected with
      | .error e => .error e
      | .ok collected => readItems shape left collected rest

def read (shape : RecordShape σ α) : Reading α
  | .object members => shape.readMembers [] shape.empty members
  | .array items => shape.readItems shape.fields shape.empty items
  | doc => .error (wrongType shape.expected doc)

theorem finish_of_mapError {shape : RecordShape σ α} {collected : σ} {a : α}
    {failure : Nat × String → Failure}
    (h : (shape.finish collected).mapError failure = .ok a) : shape.finish collected = .ok a := by
  cases finished : shape.finish collected with
  | error lack =>
    rw [finished] at h
    cases h
  | ok b =>
    rw [finished] at h
    cases h
    rfl

theorem finish_of_readMembers {shape : RecordShape σ α} {seen : List String} {collected : σ}
    {members : Members} {a : α} (h : shape.readMembers seen collected members = .ok a) :
    ∃ all, shape.finish all = .ok a := by
  fun_induction shape.readMembers seen collected members with
  | case1 => exact ⟨_, finish_of_mapError h⟩
  | case6 _ _ _ _ _ _ _ _ _ _ ih => exact ih h
  | case9 _ _ _ _ _ _ _ _ _ _ _ _ _ ih => exact ih h
  | _ => cases h

theorem finish_of_readItems {shape : RecordShape σ α} {left : List (Field σ)} {collected : σ}
    {items : Items} {a : α} (h : shape.readItems left collected items = .ok a) :
    ∃ all, shape.finish all = .ok a := by
  fun_induction shape.readItems left collected items with
  | case1 => exact ⟨_, finish_of_mapError h⟩
  | case5 _ _ _ _ _ _ _ ih => exact ih h
  | _ => cases h

/-- Whatever a record is read from, it is put together from collected fields. -/
theorem finish_of_read {shape : RecordShape σ α} {doc : Document} {a : α}
    (h : shape.read doc = .ok a) : ∃ all, shape.finish all = .ok a := by
  unfold read at h
  split at h
  · exact finish_of_readMembers h
  · exact finish_of_readItems h
  · cases h

end RecordShape

structure MetadataDraft where
  name : Option String := none
  id : Option Ident := none
  xref : Option Ident := none
  presence : Presence := default
  description : Option String := none

def metadataShape : RecordShape MetadataDraft Metadata where
  expected := .metadataRecord
  fields := [
    ⟨"name", fun doc m => do return { m with name := some (← readText doc) }⟩,
    ⟨"id", fun doc m => do return { m with id := ← readOption readIdent doc }⟩,
    ⟨"xref_id", fun doc m => do return { m with xref := ← readOption readIdent doc }⟩,
    ⟨"presence", fun doc m => do return { m with presence := ← readWordOf doc }⟩,
    ⟨"description", fun doc m => do return { m with description := ← readOption readText doc }⟩]
  empty := {}
  finish m :=
    match m.name with
    | some name => .ok ⟨name, m.id, m.xref, m.presence, m.description⟩
    | none => .error (0, "name")

def readMetadata : Reading Metadata :=
  metadataShape.read

structure TokenDraft where
  signal : Option Signal := none
  scalar : Option ScalarType := none
  size : Option Size := none
  offset : Option Offset := none
  byteOrder : Option ByteOrder := none
  metadata : Option Metadata := none

def tokenShape : RecordShape TokenDraft (Except TokenError Token) where
  expected := .tokenRecord
  fields := [
    ⟨"signal", fun doc t => do return { t with signal := some (← readWordOf doc) }⟩,
    ⟨"primitive_type", fun doc t => do return { t with scalar := ← readOption readWordOf doc }⟩,
    ⟨"size", fun doc t => do return { t with size := some (← readSize doc) }⟩,
    ⟨"offset", fun doc t => do return { t with offset := some (← readOffset doc) }⟩,
    ⟨"byte_order", fun doc t => do return { t with byteOrder := ← readOption readWordOf doc }⟩,
    ⟨"metadata", fun doc t => do return { t with metadata := ← readOption readMetadata doc }⟩]
  empty := {}
  finish t :=
    match t.signal, t.size, t.offset with
    | none, _, _ => .error (0, "signal")
    | some _, none, _ => .error (2, "size")
    | some _, some _, none => .error (3, "offset")
    | some signal, some size, some offset =>
      .ok (Token.make signal t.scalar size offset t.byteOrder t.metadata)

/-- Reads a token. Missing metadata is noticed once the record has been read. -/
def readToken : Reading Token := fun doc =>
  match tokenShape.read doc with
  | .error e => .error e
  | .ok (.error e) => .error (.data (.record (.token e)))
  | .ok (.ok token) => .ok token

theorem readToken_leafEncoding {doc : Document} {t : Token} (h : readToken doc = .ok t) :
    t.LeafEncoding := by
  unfold readToken at h
  split at h
  · cases h
  · cases h
  · rename_i read
    cases h
    obtain ⟨draft, finished⟩ := RecordShape.finish_of_read read
    simp only [tokenShape] at finished
    split at finished
    · cases finished
    · cases finished
    · cases finished
    · exact Token.make_leafEncoding (Except.ok.inj finished)

def readTokens : Items → Except Failure TokenStream
  | .closed => .ok []
  | .stopped fault => .error (.fault fault)
  | .item value rest => do
    let token ← readToken value
    let later ← readTokens rest
    return token :: later

def readStream : Reading TokenStream
  | .array items => readTokens items
  | doc => .error (wrongType .sequence doc)

/-! ## Texts -/

/-- Reads a text that consists of one value and blanks. -/
def ofText {α : Type} (read : Reading α) (text : String) : Except Failure α :=
  let (doc, rest) := Document.ofText text.toList
  match read doc with
  | .error e => .error e
  | .ok a => if skipBlank rest = [] then .ok a else .error (.fault .malformed)

end WireSchema.Json

namespace WireSchema

def TokenStream.ofJson (text : String) : Except Json.Failure TokenStream :=
  Json.ofText Json.readStream text

end WireSchema
