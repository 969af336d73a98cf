import WireSchema.Json.Numeral

/-!
# Documents

A JSON text as a tree, up to its first fault. Nothing is lost by reading the whole text before its
meaning is looked at: a fault sits in the tree where it sits in the text, so that whoever walks
the tree in order meets errors of meaning and faults in the order of the text.

Strings are kept as units, because a surrogate written as an escape is only a fault where the
characters of the string are asked for.
-/

namespace WireSchema.Json

/-- A unit of a string: a character, or sixteen bits written as an escape. -/
inductive StringUnit
  | char (c : Char)
  | escaped (code : Nat)
  deriving DecidableEq, Repr

mutual

inductive Document
  | null
  | boolean (value : Bool)
  | number (numeral : Numeral)
  | string (units : List StringUnit)
  | array (items : Items)
  | object (members : Members)
  /-- The text breaks off within this value, or instead of it. The first character of the value is
  kept, as far as there is one, and the fault once for who needs the value and once for who skips
  it. -/
  | broken (lead : Option Char) (needed skipped : Fault)

/-- The items of an array and how it ends. -/
inductive Items
  | closed
  | stopped (fault : Fault)
  | item (value : Document) (rest : Items)

/-- The members of an object and how it ends. -/
inductive Members
  | closed
  | stopped (fault : Fault)
  /-- Something else stands where a key should. -/
  | noKey (instead : Document)
  | member (key : List StringUnit) (value : Document) (rest : Members)

end

/-! ## Strings -/

/-- Whether sixteen bits are the first half of a character. -/
def isHighSurrogate (code : Nat) : Bool :=
  0xD800 ≤ code && code ≤ 0xDBFF

/-- Whether sixteen bits are the second half of a character. -/
def isLowSurrogate (code : Nat) : Bool :=
  0xDC00 ≤ code && code ≤ 0xDFFF

/-- The character that two halves make. -/
def joinSurrogates (high low : Nat) : Char :=
  Char.ofNat (0x10000 + (high - 0xD800) * 0x400 + (low - 0xDC00))

/-- The characters of a string, unless a half of a character stands alone. -/
def characters? : List StringUnit → Option (List Char)
  | [] => some []
  | .char c :: rest => (characters? rest).map (c :: ·)
  | .escaped code :: rest =>
    if isHighSurrogate code then
      match rest with
      | .escaped low :: rest =>
        if isLowSurrogate low then (characters? rest).map (joinSurrogates code low :: ·) else none
      | _ => none
    else if isLowSurrogate code then none
    else (characters? rest).map (Char.ofNat code :: ·)

/-- Whether some half of a character already stands alone, whatever follows. -/
def hasLoneHalf : List StringUnit → Bool
  | [] => false
  | .char _ :: rest => hasLoneHalf rest
  | .escaped code :: rest =>
    if isHighSurrogate code then
      match rest with
      | [] => false
      | .escaped low :: rest => !isLowSurrogate low || hasLoneHalf rest
      | .char _ :: _ => true
    else isLowSurrogate code || hasLoneHalf rest

def hexValue? (c : Char) : Option Nat :=
  if '0' ≤ c ∧ c ≤ '9' then some (c.toNat - '0'.toNat)
  else if 'a' ≤ c ∧ c ≤ 'f' then some (c.toNat - 'a'.toNat + 10)
  else if 'A' ≤ c ∧ c ≤ 'F' then some (c.toNat - 'A'.toNat + 10)
  else none

def hexCode? (a b c d : Char) : Option Nat := do
  return ((← hexValue? a) * 16 + (← hexValue? b)) * 256 + ((← hexValue? c) * 16 + (← hexValue? d))

/-- The fault of an escape without four hexadecimal digits: the text is only truncated when fewer
than four bytes are left. -/
def hexFault (s : List Char) : Fault :=
  if (String.ofList (s.take 4)).utf8ByteSize < 4 then .truncated else .malformed

/-- The character that a letter behind a backslash stands for. -/
def shortEscape? (c : Char) : Option Char :=
  match c with
  | '"' => some '"'
  | '\\' => some '\\'
  | '/' => some '/'
  | 'b' => some '\x08'
  | 'f' => some '\x0c'
  | 'n' => some '\n'
  | 'r' => some '\r'
  | 't' => some '\t'
  | _ => none

/-- Reads a string behind its opening quote: its units, as far as they go, and what is left behind
the closing quote. -/
def readString : List Char → List StringUnit × Except Fault (List Char)
  | [] => ([], .error .truncated)
  | '"' :: rest => ([], .ok rest)
  | ['\\'] => ([], .error .truncated)
  | '\\' :: 'u' :: rest =>
    match rest with
    | a :: b :: c :: d :: behind =>
      match hexCode? a b c d with
      | some code =>
        let (units, left) := readString behind
        (.escaped code :: units, left)
      | none => ([], .error (hexFault rest))
    | _ => ([], .error (hexFault rest))
  | '\\' :: letter :: rest =>
    match shortEscape? letter with
    | some c =>
      let (units, left) := readString rest
      (.char c :: units, left)
    | none => ([], .error .malformed)
  | c :: rest =>
    if c.toNat < 0x20 then ([], .error .malformed)
    else
      let (units, left) := readString rest
      (.char c :: units, left)

/-- A string that breaks off behind some units. -/
def brokenString (units : List StringUnit) (fault : Fault) : Document :=
  .broken (some '"') (if hasLoneHalf units then .malformed else fault) fault

/-! ## Values -/

def isBlank (c : Char) : Bool :=
  c = ' ' || c = '\n' || c = '\t' || c = '\r'

def skipBlank (s : List Char) : List Char :=
  s.dropWhile isBlank

/-- Reads the rest of a fixed word. -/
def readWord : List Char → List Char → Except Fault (List Char)
  | [], s => .ok s
  | _ :: _, [] => .error .truncated
  | expected :: more, c :: s => if c = expected then readWord more s else .error .malformed

/-- A value spelled by a fixed word. -/
def readConstant (value : Document) (lead : Char) (word s : List Char) : Document × List Char :=
  match readWord word s with
  | .ok rest => (value, rest)
  | .error fault => (.broken (some lead) fault fault, [])

mutual

/-- Reads a value. The limit bounds the steps of the reading; two for every character suffice. -/
def readValue : (limit : Nat) → List Char → Document × List Char
  | 0, _ => (.broken none .truncated .truncated, [])
  | limit + 1, s =>
    match skipBlank s with
    | [] => (.broken none .truncated .truncated, [])
    | '"' :: rest =>
      match readString rest with
      | (units, .ok rest) => (.string units, rest)
      | (units, .error fault) => (brokenString units fault, [])
    | '[' :: rest =>
      match skipBlank rest with
      | [] => (.array (.stopped .truncated), [])
      | ']' :: rest => (.array .closed, rest)
      | rest =>
        let (items, rest) := readItems limit rest
        (.array items, rest)
    | '\x7b' :: rest =>
      match skipBlank rest with
      | '\x7d' :: rest => (.object .closed, rest)
      | rest =>
        let (members, rest) := readMembers limit rest
        (.object members, rest)
    | 'n' :: rest => readConstant .null 'n' "ull".toList rest
    | 't' :: rest => readConstant (.boolean true) 't' "rue".toList rest
    | 'f' :: rest => readConstant (.boolean false) 'f' "alse".toList rest
    | c :: rest =>
      if c = '-' || c.isDigit then
        match Numeral.read (c :: rest) with
        | .ok (numeral, rest) => (.number numeral, rest)
        | .error fault => (.broken (some c) fault .malformed, [])
      else (.broken (some c) .malformed .malformed, [])

/-- Reads the items of an array from the next item on. -/
def readItems : (limit : Nat) → List Char → Items × List Char
  | 0, _ => (.stopped .truncated, [])
  | limit + 1, s =>
    let (value, rest) := readValue limit s
    match skipBlank rest with
    | ']' :: rest => (.item value .closed, rest)
    | ',' :: rest =>
      let (items, rest) := readItems limit rest
      (.item value items, rest)
    | rest => (.item value (.stopped (faultAt rest)), [])

/-- Reads the members of an object from the next key on. -/
def readMembers : (limit : Nat) → List Char → Members × List Char
  | 0, _ => (.stopped .truncated, [])
  | limit + 1, s =>
    match skipBlank s with
    | '"' :: rest =>
      match readString rest with
      | (units, .error fault) => (.noKey (brokenString units fault), [])
      | (key, .ok rest) =>
        match skipBlank rest with
        | ':' :: rest =>
          let (value, rest) := readValue limit rest
          match skipBlank rest with
          | '\x7d' :: rest => (.member key value .closed, rest)
          | ',' :: rest =>
            let (members, rest) := readMembers limit rest
            (.member key value members, rest)
          | rest => (.member key value (.stopped (faultAt rest)), [])
        | rest =>
          let fault := faultAt rest
          (.member key (.broken none fault fault) (.stopped fault), [])
    | rest => (.noKey (readValue limit rest).1, [])

end

/-- The tree of a text, and what is left behind its value. -/
def Document.ofText (text : List Char) : Document × List Char :=
  readValue (2 * text.length + 2) text

/-! ## Skipping -/

/-- The fault that stops who skips a value without its opening quote or bracket. -/
def Document.keyFault (skip : Bool) : Document → Fault
  | .broken none needed skipped => if skip then skipped else needed
  | .broken (some '"') needed skipped => if skip then skipped else needed
  | _ => .malformed

mutual

/-- The first fault within a value that is skipped. -/
def Document.skipFault : Document → Option Fault
  | .array items => items.skipFault
  | .object members => members.skipFault
  | .broken _ _ skipped => some skipped
  | _ => none

/-- The first fault within items that are skipped. -/
def Items.skipFault : Items → Option Fault
  | .closed => none
  | .stopped fault => some fault
  | .item value rest =>
    match value.skipFault with
    | some fault => some fault
    | none => rest.skipFault

/-- The first fault within members that are skipped. -/
def Members.skipFault : Members → Option Fault
  | .closed => none
  | .stopped fault => some fault
  | .noKey instead => some (instead.keyFault true)
  | .member _ value rest =>
    match value.skipFault with
    | some fault => some fault
    | none => rest.skipFault

end

end WireSchema.Json
