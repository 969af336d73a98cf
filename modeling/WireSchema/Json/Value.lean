import WireSchema.Record

/-!
# Written JSON

The values that a stream is written as, and their two layouts: on one line, or indented by two
spaces a level. Absent fields are written as null, and a record always shows all its fields in the
same order.
-/

namespace WireSchema.Json

open Vocabulary (name)

/-- A value as it is written. -/
inductive Value
  | null
  | integer (value : Int)
  | string (text : String)
  | array (items : List Value)
  | object (members : List (String × Value))
  deriving Repr

/-- How the parts of a value are set apart. -/
inductive Style
  | compact
  | indented
  deriving DecidableEq, Repr

/-- What stands before a part at a depth. -/
def Style.break : Style → Nat → List Char
  | .compact, _ => []
  | .indented, depth => '\n' :: List.replicate (2 * depth) ' '

/-- What stands between a key and its value. -/
def Style.colon : Style → List Char
  | .compact => [':']
  | .indented => [':', ' ']

/-- A character inside a written string. -/
def escape (c : Char) : List Char :=
  if c = '"' then ['\\', '"']
  else if c = '\\' then ['\\', '\\']
  else if c = '\x08' then ['\\', 'b']
  else if c = '\t' then ['\\', 't']
  else if c = '\n' then ['\\', 'n']
  else if c = '\x0c' then ['\\', 'f']
  else if c = '\r' then ['\\', 'r']
  else if c.toNat < 0x20 then
    ['\\', 'u', '0', '0', Nat.digitChar (c.toNat / 16), Nat.digitChar (c.toNat % 16)]
  else [c]

def writeString (text : String) : List Char :=
  '"' :: text.toList.flatMap escape ++ ['"']

def writeInteger (value : Int) : List Char :=
  if value < 0 then '-' :: Nat.toDigits 10 value.natAbs else Nat.toDigits 10 value.natAbs

/-- The parts of a container between its brackets, each at the depth within. -/
def enclose (style : Style) (depth : Nat) (opening closing : Char) :
    List (List Char) → List Char
  | [] => [opening, closing]
  | first :: others =>
    opening :: style.break (depth + 1) ++ first
      ++ others.flatMap (fun part => ',' :: style.break (depth + 1) ++ part)
      ++ style.break depth ++ [closing]

mutual

/-- A value in a style, at a depth. -/
def write (style : Style) (depth : Nat) : Value → List Char
  | .null => "null".toList
  | .integer value => writeInteger value
  | .string text => writeString text
  | .array items => enclose style depth '[' ']' (writeItems style (depth + 1) items)
  | .object members => enclose style depth '\x7b' '\x7d' (writeMembers style (depth + 1) members)

def writeItems (style : Style) (depth : Nat) : List Value → List (List Char)
  | [] => []
  | item :: rest => write style depth item :: writeItems style depth rest

def writeMembers (style : Style) (depth : Nat) : List (String × Value) → List (List Char)
  | [] => []
  | (key, value) :: rest =>
    (writeString key ++ style.colon ++ write style depth value) :: writeMembers style depth rest

end

/-! ## Values of the domain -/

/-- An absent value is null. -/
def ofOption {α : Type} (value : α → Value) : Option α → Value
  | none => .null
  | some a => value a

/-- A word of a vocabulary, by name. -/
def ofWord {α : Type} [Vocabulary α] (a : α) : Value :=
  .string (name a)

def ofIdent (id : Ident) : Value :=
  .integer id.toNat

def ofMetadata (m : Metadata) : Value :=
  .object [("name", .string m.name), ("id", ofOption ofIdent m.id),
    ("xref_id", ofOption ofIdent m.xref), ("presence", ofWord m.presence),
    ("description", ofOption .string m.description)]

def ofRecord (r : Record) : Value :=
  .object [("signal", ofWord r.signal), ("primitive_type", ofOption ofWord r.scalar),
    ("size", .integer r.size.toInt), ("offset", .integer r.offset.toInt),
    ("byte_order", ofOption ofWord r.byteOrder), ("metadata", ofOption ofMetadata r.metadata)]

def ofRecords (records : List Record) : Value :=
  .array (records.map ofRecord)

end WireSchema.Json

namespace WireSchema

def TokenStream.toJson (s : TokenStream) : String :=
  String.ofList (Json.write .indented 0 (Json.ofRecords (s.map Token.toRecord)))

end WireSchema
