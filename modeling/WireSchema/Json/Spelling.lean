import WireSchema.Json.Document

/-!
# Spellings

The grammar of JSON as a relation between documents without fault and the texts that spell them.
One document has many spellings: blanks may stand around every value and key, a character of a
string may be escaped in several ways, and an exponent may be written with either letter.

Results:

1. `readString_of_spelled`: a string is read back from each of its spellings.
2. `skipBlank_append`: blanks in front of a text are skipped.
-/

namespace WireSchema.Json

/-- Whether a text consists of blanks. -/
def Blank (text : List Char) : Prop :=
  ∀ c ∈ text, isBlank c = true

/-- Whether a text consists of digits and is not empty. -/
def Digits (text : List Char) : Prop :=
  text ≠ [] ∧ ∀ c ∈ text, c.isDigit = true

/-! ## Numerals -/

/-- The spellings of the part behind the point. -/
inductive FractionSpelled : Option (List Char) → List Char → Prop
  | none : FractionSpelled none []
  | some {digits : List Char} : Digits digits → FractionSpelled (some digits) ('.' :: digits)

/-- The spellings of an exponent. -/
inductive ExponentSpelled : Option (Bool × List Char) → List Char → Prop
  | none : ExponentSpelled none []
  | some {mark : Char} {negative : Bool} {sign digits : List Char} :
    mark = 'e' ∨ mark = 'E' →
    (negative = true ∧ sign = ['-'] ∨ negative = false ∧ (sign = ['+'] ∨ sign = [])) →
    Digits digits → ExponentSpelled (some (negative, digits)) (mark :: (sign ++ digits))

/-- The spellings of a numeral. A zero in front stands alone. -/
inductive NumeralSpelled : Numeral → List Char → Prop
  | parts {numeral : Numeral} {fraction exponent : List Char} :
    Digits numeral.whole → (numeral.whole.head? = some '0' → numeral.whole = ['0']) →
    FractionSpelled numeral.fraction fraction → ExponentSpelled numeral.exponent exponent →
    NumeralSpelled numeral
      ((if numeral.negative then ['-'] else []) ++ (numeral.whole ++ (fraction ++ exponent)))

/-! ## Strings -/

/-- The spellings of the units of a string, up to the closing quote. -/
inductive UnitsSpelled : List StringUnit → List Char → Prop
  | nil : UnitsSpelled [] []
  /-- A character that stands for itself. -/
  | plain {c : Char} {units : List StringUnit} {text : List Char} :
    0x20 ≤ c.toNat → c ≠ '"' → c ≠ '\\' → UnitsSpelled units text →
    UnitsSpelled (.char c :: units) (c :: text)
  /-- A character behind a backslash. -/
  | short {letter c : Char} {units : List StringUnit} {text : List Char} :
    shortEscape? letter = some c → UnitsSpelled units text →
    UnitsSpelled (.char c :: units) ('\\' :: letter :: text)
  /-- Four hexadecimal digits. -/
  | escaped {a b c d : Char} {code : Nat} {units : List StringUnit} {text : List Char} :
    hexCode? a b c d = some code → UnitsSpelled units text →
    UnitsSpelled (.escaped code :: units) ('\\' :: 'u' :: a :: b :: c :: d :: text)

/-! ## Values -/

mutual

/-- The spellings of a document, without blanks around it. -/
inductive Spelled : Document → List Char → Prop
  | null : Spelled .null "null".toList
  | boolean {value : Bool} :
    Spelled (.boolean value) (if value then "true".toList else "false".toList)
  | number {numeral : Numeral} {text : List Char} :
    NumeralSpelled numeral text → Spelled (.number numeral) text
  | string {units : List StringUnit} {text : List Char} :
    UnitsSpelled units text → Spelled (.string units) ('"' :: (text ++ ['"']))
  | emptyArray {blank : List Char} : Blank blank → Spelled (.array .closed) ('[' :: (blank ++ [']']))
  | array {items : Items} {text : List Char} :
    ItemsSpelled items text → Spelled (.array items) ('[' :: (text ++ [']']))
  | emptyObject {blank : List Char} :
    Blank blank → Spelled (.object .closed) ('\x7b' :: (blank ++ ['\x7d']))
  | object {members : Members} {text : List Char} :
    MembersSpelled members text → Spelled (.object members) ('\x7b' :: (text ++ ['\x7d']))

/-- The spellings of one or more items between the brackets of an array. -/
inductive ItemsSpelled : Items → List Char → Prop
  | last {value : Document} {before text after : List Char} :
    Blank before → Spelled value text → Blank after →
    ItemsSpelled (.item value .closed) (before ++ (text ++ after))
  | more {value : Document} {rest : Items} {before text after later : List Char} :
    Blank before → Spelled value text → Blank after → ItemsSpelled rest later →
    ItemsSpelled (.item value rest) (before ++ (text ++ (after ++ ',' :: later)))

/-- The spellings of one or more members between the brackets of an object. -/
inductive MembersSpelled : Members → List Char → Prop
  | last {key : List StringUnit} {value : Document} {member : List Char} :
    MemberSpelled key value member → MembersSpelled (.member key value .closed) member
  | more {key : List StringUnit} {value : Document} {rest : Members} {member later : List Char} :
    MemberSpelled key value member → MembersSpelled rest later →
    MembersSpelled (.member key value rest) (member ++ ',' :: later)

/-- The spellings of a key and its value, with the blanks around them. -/
inductive MemberSpelled : List StringUnit → Document → List Char → Prop
  | parts {key : List StringUnit} {value : Document} {b₁ b₂ b₃ b₄ name text : List Char} :
    Blank b₁ → UnitsSpelled key name → Blank b₂ → Blank b₃ → Spelled value text → Blank b₄ →
    MemberSpelled key value
      (b₁ ++ '"' :: (name ++ '"' :: (b₂ ++ ':' :: (b₃ ++ (text ++ b₄)))))

end

/-- The texts of a document: a spelling with blanks around it. -/
def TextOf (doc : Document) (text : List Char) : Prop :=
  ∃ before spelling after,
    Blank before ∧ Spelled doc spelling ∧ Blank after ∧ text = before ++ (spelling ++ after)

/-! ## Reading spellings -/

theorem skipBlank_append {blank : List Char} (h : Blank blank) (rest : List Char) :
    skipBlank (blank ++ rest) = skipBlank rest := by
  induction blank with
  | nil => rfl
  | cons c more ih =>
    have first : isBlank c = true := h c List.mem_cons_self
    simp only [skipBlank, List.cons_append, List.dropWhile_cons, first, if_true]
    exact ih fun d member => h d (List.mem_cons_of_mem c member)

theorem readString_of_spelled {units : List StringUnit} {text : List Char}
    (h : UnitsSpelled units text) (rest : List Char) :
    readString (text ++ '"' :: rest) = (units, .ok rest) := by
  induction h with
  | nil => simp [readString]
  | @plain c units text printable noQuote noBackslash _ ih =>
    rw [List.cons_append, readString, ih, if_neg (by omega)]
    all_goals simp_all
  | @short letter c units text stands _ ih =>
    have noHex : letter ≠ 'u' := by
      rintro rfl
      simp [shortEscape?] at stands
    rw [List.cons_append, List.cons_append, readString, stands, ih]
    all_goals simp_all
  | @escaped a b c d code units text stands _ ih =>
    simp only [List.cons_append, readString, stands, ih]

end WireSchema.Json
