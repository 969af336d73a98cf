import WireSchema.Json.Numeral
import WireSchema.Decimal.Shortest
import WireSchema.Record

/-!
# Failures of reading JSON

A text fails to be a stream because it is no JSON, or because it means something else. The second
kind of error says what was found and what was expected.
-/

namespace WireSchema.Json

/-- What is found where something else is expected. -/
inductive Found
  | null
  | boolean (value : Bool)
  | number (number : Number)
  | string (text : List Char)
  | sequence
  | map
  deriving DecidableEq, Repr

inductive Expected
  | sequence
  | tokenRecord
  | metadataRecord
  | text
  | wireInteger
  | ident
  | unit
  | word
  deriving DecidableEq, Repr

/-- Why a JSON value does not mean what is expected. -/
inductive DataError
  | wrongType (found : Found) (expected : Expected)
  | outOfRange (value : Int) (expected : Expected)
  /-- An array of fields that ends before the field of that number. -/
  | wrongLength (field : Nat) (expected : Expected)
  | missingField (name : String)
  | duplicateField (name : String)
  | unknownWord (word : String) (known : List String)
  | record (error : RecordError)
  deriving DecidableEq, Repr

/-- Why a text cannot be read. -/
inductive Failure
  | fault (fault : Fault)
  | data (error : DataError)
  deriving DecidableEq, Repr

def Number.describe : Number → String
  | .integer value => "integer `" ++ value.repr ++ "`"
  | .floating negative magnitude =>
    "floating point `" ++ (if negative then "-" else "") ++ String.ofList magnitude.toText ++ "`"

def Found.describe : Found → String
  | .null => "null"
  | .boolean value => "boolean `" ++ (if value then "true" else "false") ++ "`"
  | .number n => n.describe
  | .string text => "string " ++ String.ofList (Text.quote text)
  | .sequence => "sequence"
  | .map => "map"

def Expected.describe : Expected → String
  | .sequence => "a sequence"
  | .tokenRecord => "struct RawToken"
  | .metadataRecord => "struct Metadata"
  | .text => "a string"
  | .wireInteger => "i64"
  | .ident => "u32"
  | .unit => "unit"
  | .word => "variant identifier"

/-- How a record of fields is shown where its length is wrong. -/
def Expected.describeFields : Expected → String
  | .tokenRecord => "struct RawToken with 6 elements"
  | .metadataRecord => "struct Metadata with 5 elements"
  | other => other.describe

/-- How the choice between words is shown. -/
def describeChoice (words : List String) : String :=
  let quoted := words.map fun word => "`" ++ word ++ "`"
  match quoted with
  | [first, second] => first ++ " or " ++ second
  | _ => "one of " ++ ", ".intercalate quoted

def DataError.message : DataError → String
  | .wrongType found expected =>
    "invalid type: " ++ found.describe ++ ", expected " ++ expected.describe
  | .outOfRange value expected =>
    "invalid value: " ++ (Number.integer value).describe ++ ", expected " ++ expected.describe
  | .wrongLength field expected =>
    "invalid length " ++ field.repr ++ ", expected " ++ expected.describeFields
  | .missingField name => "missing field `" ++ name ++ "`"
  | .duplicateField name => "duplicate field `" ++ name ++ "`"
  | .unknownWord word known =>
    "unknown variant `" ++ word ++ "`, expected " ++ describeChoice known
  | .record (.wire e) => e.message
  | .record (.token e) => e.message

/-- The text of the error when a whole stream is read. -/
def DataError.streamMessage (e : DataError) : String :=
  "invalid JSON stream: " ++ e.message

end WireSchema.Json
