import WireSchema.Json.Spelling
import WireSchema.Json.Value

/-!
# Written values are JSON

What is written of a value spells a document, in either style and at any depth: the breaks between
the parts are blanks, every character of a text is escaped where the grammar asks for it, and
integers have no zero in front.

Results:

1. `unitsSpelled_escape`, `characters?_writtenUnit`: an escaped text spells units that stand for
   the characters of the text.
2. `numeralSpelled_writeInteger`: a written integer spells a numeral.
3. `spelled_write`: a written value spells its document.
-/

namespace WireSchema.Json

/-! ## Strings -/

/-- The unit that a character is written as: a control character is written as its number, unless
there is a letter for it. -/
def writtenUnit (c : Char) : StringUnit :=
  if c.toNat < 0x20 ∧ c ∉ ['\x08', '\t', '\n', '\x0c', '\r'] then .escaped c.toNat else .char c

theorem hexCode?_digitChar :
    ∀ code < 0x20, hexCode? '0' '0' (Nat.digitChar (code / 16)) (Nat.digitChar (code % 16))
      = some code := by
  decide

theorem unitsSpelled_escape {units : List StringUnit} {text : List Char}
    (h : UnitsSpelled units text) (c : Char) :
    UnitsSpelled (writtenUnit c :: units) (escape c ++ text) := by
  by_cases short : c ∈ ['"', '\\', '\x08', '\t', '\n', '\x0c', '\r']
  · simp only [List.mem_cons, List.not_mem_nil, or_false] at short
    rcases short with rfl | rfl | rfl | rfl | rfl | rfl | rfl <;> exact .short rfl h
  · simp only [List.mem_cons, List.not_mem_nil, or_false, not_or] at short
    obtain ⟨noQuote, noBackslash, noB, noT, noN, noF, noR⟩ := short
    simp only [escape, writtenUnit, noQuote, noBackslash, noB, noT, noN, noF, noR, if_false,
      List.mem_cons, List.not_mem_nil, or_false, not_false_eq_true, and_true]
    split
    · next control => exact .escaped (hexCode?_digitChar _ control) h
    · next printable => exact .plain (by omega) noQuote noBackslash h

theorem unitsSpelled_flatMap (text : List Char) :
    UnitsSpelled (text.map writtenUnit) (text.flatMap escape) := by
  induction text with
  | nil => exact .nil
  | cons c text ih => exact unitsSpelled_escape ih c

theorem characters?_escaped {code : Nat} (noHigh : isHighSurrogate code = false)
    (noLow : isLowSurrogate code = false) (units : List StringUnit) :
    characters? (.escaped code :: units) = (characters? units).map (Char.ofNat code :: ·) := by
  rw [characters?.eq_def]
  simp only [noHigh, noLow, Bool.false_eq_true, if_false]

theorem characters?_writtenUnit (text : List Char) :
    characters? (text.map writtenUnit) = some text := by
  induction text with
  | nil => rfl
  | cons c text ih =>
    rw [List.map_cons, writtenUnit]
    split
    · next control =>
      -- a control character is no half of another character
      have noHigh : isHighSurrogate c.toNat = false := by simp [isHighSurrogate]; omega
      have noLow : isLowSurrogate c.toNat = false := by simp [isLowSurrogate]; omega
      rw [characters?_escaped noHigh noLow, ih, Char.ofNat_toNat]
      rfl
    · rw [characters?, ih]
      rfl

/-! ## Integers -/

/-- The numeral that an integer is written as. -/
def decimal (value : Int) : Numeral where
  negative := value < 0
  whole := Nat.toDigits 10 value.natAbs
  fraction := none
  exponent := none

theorem toDigits_head_ne_zero {n : Nat} (positive : 0 < n) :
    (Nat.toDigits 10 n).head? ≠ some '0' := by
  induction n using Nat.strongRecOn with
  | ind n ih =>
    by_cases small : n < 10
    · rw [Nat.toDigits_of_lt_base small]
      simp
      omega
    · -- the first digit is that of the number without its last digit
      have earlier := ih (n / 10) (by omega) (by omega)
      obtain ⟨d, more, digits⟩ : ∃ d more, Nat.toDigits 10 (n / 10) = d :: more :=
        List.exists_cons_of_ne_nil Nat.toDigits_ne_nil
      rw [digits] at earlier
      rw [Nat.toDigits_of_base_le (by decide) (by omega), digits]
      exact earlier

theorem digits_toDigits (n : Nat) : Digits (Nat.toDigits 10 n) :=
  ⟨Nat.toDigits_ne_nil, fun _ => Nat.isDigit_of_mem_toDigits (by decide) (by decide)⟩

theorem numeralSpelled_writeInteger (value : Int) :
    NumeralSpelled (decimal value) (writeInteger value) := by
  have zero : (Nat.toDigits 10 value.natAbs).head? = some '0' →
      Nat.toDigits 10 value.natAbs = ['0'] := by
    intro first
    by_cases positive : 0 < value.natAbs
    · exact absurd first (toDigits_head_ne_zero positive)
    · rw [show value.natAbs = 0 by omega, Nat.toDigits_zero]
  have spelled : NumeralSpelled (decimal value) _ := .parts (digits_toDigits _) zero .none .none
  have written : writeInteger value
      = (if (decimal value).negative then ['-'] else [])
        ++ ((decimal value).whole ++ ([] ++ [])) := by
    by_cases negative : value < 0 <;> simp [writeInteger, decimal, negative]
  rw [written]
  exact spelled

/-! ## Values -/

mutual

/-- The document that a value is written as. -/
def Value.document : Value → Document
  | .null => .null
  | .integer value => .number (decimal value)
  | .string text => .string (text.toList.map writtenUnit)
  | .array items => .array (itemsDocument items)
  | .object members => .object (membersDocument members)

def itemsDocument : List Value → Items
  | [] => .closed
  | item :: rest => .item item.document (itemsDocument rest)

def membersDocument : List (String × Value) → Members
  | [] => .closed
  | (key, value) :: rest =>
    .member (key.toList.map writtenUnit) value.document (membersDocument rest)

end

theorem blank_break (style : Style) (depth : Nat) : Blank (style.break depth) := by
  intro c member
  cases style with
  | compact => cases member
  | indented =>
    simp only [Style.break, List.mem_cons, List.mem_replicate] at member
    rcases member with rfl | ⟨-, rfl⟩ <;> rfl

theorem blank_nil : Blank [] := by
  simp [Blank]

/-- What is written between the brackets of a container that is not empty. -/
def encloseWithin (style : Style) (depth : Nat) (first : List Char) (others : List (List Char)) :
    List Char :=
  style.break (depth + 1) ++ (first
    ++ (others.flatMap (fun part => ',' :: style.break (depth + 1) ++ part) ++ style.break depth))

theorem enclose_cons (style : Style) (depth : Nat) (opening closing : Char) (first : List Char)
    (others : List (List Char)) :
    enclose style depth opening closing (first :: others)
      = opening :: (encloseWithin style depth first others ++ [closing]) := by
  simp [enclose, encloseWithin]

theorem encloseWithin_cons (style : Style) (depth : Nat) (first second : List Char)
    (others : List (List Char)) :
    encloseWithin style depth first (second :: others)
      = style.break (depth + 1)
        ++ (first ++ ([] ++ ',' :: encloseWithin style depth second others)) := by
  simp [encloseWithin]

/-- Items that are each spelled somehow are spelled together. -/
theorem itemsSpelled_within {style : Style} {depth : Nat} {first : Value} {others : List Value}
    (spelled : ∀ item ∈ first :: others,
      Spelled item.document (write style (depth + 1) item)) :
    ItemsSpelled (itemsDocument (first :: others))
      (encloseWithin style depth (write style (depth + 1) first)
        (writeItems style (depth + 1) others)) := by
  induction others generalizing first with
  | nil =>
    obtain ⟨here, -⟩ := List.forall_mem_cons.mp spelled
    exact .last (blank_break style _) here (blank_break style _)
  | cons second others ih =>
    obtain ⟨here, later⟩ := List.forall_mem_cons.mp spelled
    rw [writeItems, encloseWithin_cons]
    exact .more (blank_break style _) here blank_nil (ih later)

/-- A written key and a spelled value make a member, whatever blanks stand around them. -/
theorem memberSpelled_write {value : Value} {text before after : List Char} (style : Style)
    (key : String) (blank_before : Blank before) (spelled : Spelled value.document text)
    (blank_after : Blank after) :
    MemberSpelled (key.toList.map writtenUnit) value.document
      (before ++ (writeString key ++ style.colon ++ text ++ after)) := by
  obtain ⟨spacing, blank, colon⟩ : ∃ spacing, Blank spacing ∧ style.colon = ':' :: spacing := by
    cases style with
    | compact => exact ⟨[], blank_nil, rfl⟩
    | indented => exact ⟨[' '], by simp [Blank, isBlank], rfl⟩
  have parts := MemberSpelled.parts blank_before (unitsSpelled_flatMap key.toList) blank_nil blank
    spelled blank_after
  rw [colon]
  simpa [writeString] using parts

theorem membersSpelled_within {style : Style} {depth : Nat} {first : String × Value}
    {others : List (String × Value)}
    (spelled : ∀ member ∈ first :: others,
      Spelled member.2.document (write style (depth + 1) member.2)) :
    MembersSpelled (membersDocument (first :: others))
      (encloseWithin style depth
        (writeString first.1 ++ style.colon ++ write style (depth + 1) first.2)
        (writeMembers style (depth + 1) others)) := by
  induction others generalizing first with
  | nil =>
    obtain ⟨here, -⟩ := List.forall_mem_cons.mp spelled
    exact .last
      (memberSpelled_write style first.1 (blank_break style _) here (blank_break style _))
  | cons second others ih =>
    obtain ⟨here, later⟩ := List.forall_mem_cons.mp spelled
    obtain ⟨key, value⟩ := first
    have more := MembersSpelled.more
      (memberSpelled_write style key (blank_break style (depth + 1)) here blank_nil) (ih later)
    rw [membersDocument, writeMembers, encloseWithin_cons]
    simpa using more

mutual

/-- A written value spells its document. -/
theorem spelled_write (style : Style) (depth : Nat) :
    ∀ value : Value, Spelled value.document (write style depth value)
  | .null => .null
  | .integer value => .number (numeralSpelled_writeInteger value)
  | .string text => .string (unitsSpelled_flatMap text.toList)
  | .array [] => .emptyArray blank_nil
  | .array (first :: others) => by
    rw [write, writeItems, enclose_cons]
    exact .array (itemsSpelled_within (spelled_writeItems style (depth + 1) (first :: others)))
  | .object [] => .emptyObject blank_nil
  | .object ((key, value) :: others) => by
    rw [write, writeMembers, enclose_cons]
    exact .object
      (membersSpelled_within (spelled_writeMembers style (depth + 1) ((key, value) :: others)))

theorem spelled_writeItems (style : Style) (depth : Nat) :
    ∀ items : List Value, ∀ item ∈ items, Spelled item.document (write style depth item)
  | [] => by simp
  | first :: others => List.forall_mem_cons.mpr
    ⟨spelled_write style depth first, spelled_writeItems style depth others⟩

theorem spelled_writeMembers (style : Style) (depth : Nat) :
    ∀ members : List (String × Value), ∀ member ∈ members,
      Spelled member.2.document (write style depth member.2)
  | [] => by simp
  | (_, value) :: others => List.forall_mem_cons.mpr
    ⟨spelled_write style depth value, spelled_writeMembers style depth others⟩

end

/-- A written value is a text of its document. -/
theorem textOf_write (style : Style) (value : Value) :
    TextOf value.document (write style 0 value) :=
  ⟨[], write style 0 value, [], blank_nil, spelled_write style 0 value, blank_nil, by simp⟩

end WireSchema.Json
