import Mathlib.Data.List.TakeDrop
import WireSchema.Json.Reading
import WireSchema.Json.Spelling
import WireSchema.Sequencing

/-!
# Reading spellings back

The reader works on the characters that are left and stops by itself where a value ends, so that
what stands behind a value must not be able to continue it. That much granted, every spelling of a
document is read as the document, whatever blanks and escapes it was spelled with.

Results:

1. `Numeral.read_of_spelled`: a numeral is read back from each of its spellings.
2. `readValue_of_spelled`: so is a document, within two steps for every character.
3. `ofText_of_textOf`: a text of a document means what the document means.
-/

namespace WireSchema.Json

/-! ## Blanks -/

theorem skipBlank_cons {c : Char} (solid : isBlank c = false) (s : List Char) :
    skipBlank (c :: s) = c :: s := by
  simp [skipBlank, solid]

theorem skipBlank_skipBlank (s : List Char) : skipBlank (skipBlank s) = skipBlank s := by
  induction s with
  | nil => rfl
  | cons c s ih =>
    by_cases blank : isBlank c = true
    · have skipped : skipBlank (c :: s) = skipBlank s := by simp [skipBlank, blank]
      rw [skipped, ih]
    · rw [skipBlank_cons (by simpa using blank), skipBlank_cons (by simpa using blank)]

theorem readValue_skipBlank (limit : Nat) (s : List Char) :
    readValue limit (skipBlank s) = readValue limit s := by
  cases limit with
  | zero => rfl
  | succ limit => rw [readValue, readValue, skipBlank_skipBlank]

theorem readItems_skipBlank (limit : Nat) (s : List Char) :
    readItems limit (skipBlank s) = readItems limit s := by
  cases limit with
  | zero => rfl
  | succ limit => rw [readItems, readItems, readValue_skipBlank]

theorem readMembers_skipBlank (limit : Nat) (s : List Char) :
    readMembers limit (skipBlank s) = readMembers limit s := by
  cases limit with
  | zero => rfl
  | succ limit => rw [readMembers, readMembers, skipBlank_skipBlank]

theorem readValue_blank {blank : List Char} (h : Blank blank) (limit : Nat) (s : List Char) :
    readValue limit (blank ++ s) = readValue limit s := by
  rw [← readValue_skipBlank, skipBlank_append h, readValue_skipBlank]

/-- What may stand right behind a value: a blank, a comma, a closing bracket or nothing. -/
def Ends (s : List Char) : Prop :=
  ∀ c ∈ s.head?, isBlank c = true ∨ c = ',' ∨ c = ']' ∨ c = '\x7d'

theorem Ends.nil : Ends [] := by
  simp [Ends]

theorem Ends.blank_append {blank s : List Char} (h : Blank blank) (ends : Ends s) :
    Ends (blank ++ s) := by
  cases blank with
  | nil => exact ends
  | cons c more =>
    intro d first
    obtain rfl : c = d := by simpa using first
    exact .inl (h c List.mem_cons_self)

/-! ## Numerals -/

namespace Numeral

/-- No digit comes next. -/
def NoDigit (s : List Char) : Prop :=
  ∀ c ∈ s.head?, c.isDigit = false

theorem readDigits_append {digits rest : List Char} (h : Digits digits) (stops : NoDigit rest) :
    readDigits (digits ++ rest) = .ok (digits, rest) := by
  obtain ⟨nonempty, all⟩ := h
  have behind : rest.takeWhile Char.isDigit = [] ∧ rest.dropWhile Char.isDigit = rest := by
    cases rest with
    | nil => exact ⟨rfl, rfl⟩
    | cons c rest => simp [stops c rfl]
  have split : (digits ++ rest).span Char.isDigit = (digits, rest) := by
    rw [List.span_eq_takeWhile_dropWhile, List.takeWhile_append_of_pos all,
      List.dropWhile_append_of_pos all, behind.1, behind.2, List.append_nil]
  rw [readDigits, split]
  cases digits with
  | nil => exact absurd rfl nonempty
  | cons c digits => rfl

theorem readWhole_append {digits rest : List Char} (h : Digits digits)
    (zero : digits.head? = some '0' → digits = ['0']) (stops : NoDigit rest) :
    readWhole (digits ++ rest) = .ok (digits, rest) := by
  rw [readWhole, readDigits_append h stops, ok_bind]
  split
  · next more _ same =>
    obtain ⟨rfl, -⟩ := Prod.mk.inj same
    cases zero rfl
  · rfl

/-- Whether a character behind digits continues the numeral. -/
def continues (c : Char) : Bool :=
  c.isDigit || c = '.' || c = 'e' || c = 'E'

theorem not_continues_of_ends {c : Char}
    (h : isBlank c = true ∨ c = ',' ∨ c = ']' ∨ c = '\x7d') : continues c = false := by
  simp only [isBlank, Bool.or_eq_true, decide_eq_true_eq] at h
  rcases h with (((rfl | rfl) | rfl) | rfl) | rfl | rfl | rfl <;> decide

/-- Nothing comes next that continues a numeral. -/
def Stops (s : List Char) : Prop :=
  ∀ c ∈ s.head?, continues c = false

theorem stops_of_ends {s : List Char} (ends : Ends s) : Stops s :=
  fun c first => not_continues_of_ends (ends c first)

theorem Stops.noDigit {s : List Char} (stops : Stops s) : NoDigit s := by
  intro c first
  have none := stops c first
  simp only [continues, Bool.or_eq_false_iff] at none
  exact none.1.1.1

theorem readExponent_of_spelled {exponent : Option (Bool × List Char)} {text rest : List Char}
    (h : ExponentSpelled exponent text) (stops : Stops rest) :
    readExponent (text ++ rest) = .ok (exponent, rest) := by
  cases h with
  | none =>
    cases rest with
    | nil => rfl
    | cons c rest =>
      have other := stops c rfl
      simp only [continues, Bool.or_eq_false_iff] at other
      simp [readExponent, other.1.2, other.2]
  | @some mark negative sign digits marked signed digital =>
    have sign_read : readSign (sign ++ (digits ++ rest)) = (negative, digits ++ rest) := by
      rcases signed with ⟨rfl, rfl⟩ | ⟨rfl, rfl | rfl⟩
      · rfl
      · rfl
      · -- without a sign the first digit comes next, which is none
        obtain ⟨nonempty, all⟩ := digital
        cases digits with
        | nil => exact absurd rfl nonempty
        | cons c digits =>
          have digit := all c List.mem_cons_self
          have noPlus : c ≠ '+' := by rintro rfl; cases digit
          have noMinus : c ≠ '-' := by rintro rfl; cases digit
          simp [readSign, noPlus, noMinus]
    have is_mark : (decide (mark = 'e') || decide (mark = 'E')) = true := by simpa using marked
    rw [List.cons_append, List.append_assoc, readExponent, if_pos is_mark, sign_read]
    dsimp only
    rw [readDigits_append digital stops.noDigit]
    rfl

theorem readFraction_of_spelled {fraction : Option (List Char)} {text rest : List Char}
    (h : FractionSpelled fraction text) (stops : NoDigit rest) (noPoint : rest.head? ≠ some '.') :
    readFraction (text ++ rest) = .ok (fraction, rest) := by
  cases h with
  | none =>
    rw [List.nil_append, readFraction]
    rintro behind rfl
    exact noPoint rfl
  | some digital =>
    rw [List.cons_append, readFraction, readDigits_append digital stops]
    rfl

/-- What an exponent starts with continues no digits and no point. -/
theorem exponent_head {exponent : Option (Bool × List Char)} {text rest : List Char}
    (h : ExponentSpelled exponent text) (stops : Stops rest) :
    NoDigit (text ++ rest) ∧ (text ++ rest).head? ≠ some '.' := by
  cases h with
  | none =>
    refine ⟨stops.noDigit, fun point => ?_⟩
    cases stops '.' point
  | @some mark _ _ _ marked =>
    constructor
    · intro c first
      obtain rfl : mark = c := by simpa using first
      rcases marked with rfl | rfl <;> decide
    · rcases marked with rfl | rfl <;> simp

theorem fraction_noDigit {fraction : Option (List Char)} {text rest : List Char}
    (h : FractionSpelled fraction text) (stops : NoDigit rest) : NoDigit (text ++ rest) := by
  cases h with
  | none => exact stops
  | some _ =>
    intro c first
    obtain rfl : '.' = c := by simpa using first
    rfl

/-- A numeral is read back from each of its spellings, if nothing behind it continues it. -/
theorem read_of_spelled {numeral : Numeral} {text rest : List Char}
    (h : NumeralSpelled numeral text) (stops : Stops rest) :
    read (text ++ rest) = .ok (numeral, rest) := by
  obtain ⟨negative, whole, fraction, exponent⟩ := numeral
  obtain ⟨digital, zero, fraction_spelled, exponent_spelled⟩ := h
  rename_i fractionText exponentText
  dsimp only at digital zero fraction_spelled exponent_spelled ⊢
  obtain ⟨exponent_noDigit, exponent_noPoint⟩ := exponent_head exponent_spelled stops
  have whole_read := readWhole_append digital zero
    (fraction_noDigit fraction_spelled exponent_noDigit)
  have fraction_read :=
    readFraction_of_spelled fraction_spelled exponent_noDigit exponent_noPoint
  have exponent_read := readExponent_of_spelled exponent_spelled stops
  simp only [List.append_assoc]
  cases negative with
  | true =>
    simp only [if_true, List.cons_append, List.nil_append, read, whole_read, ok_bind,
      fraction_read, exponent_read]
    rfl
  | false =>
    rw [if_neg (by simp), List.nil_append, read]
    · simp only [whole_read, ok_bind, fraction_read, exponent_read]
      rfl
    · -- the first character is a digit, and no sign
      intro behind signed
      obtain ⟨nonempty, all⟩ := digital
      cases whole with
      | nil => exact nonempty rfl
      | cons c whole =>
        obtain rfl : c = '-' := (List.cons.inj signed).1
        cases all '-' List.mem_cons_self

end Numeral

/-! ## Values -/

theorem readWord_append (word rest : List Char) : readWord word (word ++ rest) = .ok rest := by
  induction word with
  | nil => rfl
  | cons c word ih => rw [List.cons_append, readWord, if_pos rfl, ih]

theorem readConstant_append (value : Document) (lead : Char) (word rest : List Char) :
    readConstant value lead word (word ++ rest) = (value, rest) := by
  rw [readConstant, readWord_append]

/-- A numeral starts with a sign or a digit. -/
theorem NumeralSpelled.head {numeral : Numeral} {text : List Char}
    (h : NumeralSpelled numeral text) :
    ∃ c more, text = c :: more ∧ (decide (c = '-') || c.isDigit) = true := by
  obtain ⟨negative, whole, fraction, exponent⟩ := numeral
  obtain ⟨⟨nonempty, all⟩, -, -, -⟩ := h
  cases negative with
  | true => exact ⟨_, _, rfl, rfl⟩
  | false =>
    cases whole with
    | nil => exact absurd rfl nonempty
    | cons c whole => exact ⟨c, _, rfl, by simp [all c List.mem_cons_self]⟩

theorem not_isBlank_of_numeral {c : Char} (first : (decide (c = '-') || c.isDigit) = true) :
    isBlank c = false := by
  cases blank : isBlank c with
  | false => rfl
  | true =>
    simp only [isBlank, Bool.or_eq_true, decide_eq_true_eq] at blank
    rcases blank with ((rfl | rfl) | rfl) | rfl <;> cases first

/-- A value starts with something else than a blank or a closing bracket. -/
theorem Spelled.head {doc : Document} {text : List Char} (h : Spelled doc text) :
    ∃ c more, text = c :: more ∧ isBlank c = false ∧ c ≠ ']' := by
  cases h with
  | number spelled =>
    obtain ⟨c, more, rfl, first⟩ := spelled.head
    refine ⟨c, more, rfl, not_isBlank_of_numeral first, ?_⟩
    rintro rfl
    cases first
  | @boolean value => cases value <;> exact ⟨_, _, rfl, by decide, by decide⟩
  | _ => exact ⟨_, _, rfl, by decide, by decide⟩

theorem readValue_number {c : Char} {s rest : List Char} {numeral : Numeral}
    (first : (decide (c = '-') || c.isDigit) = true)
    (read : Numeral.read (c :: s) = .ok (numeral, rest)) (limit : Nat) :
    readValue (limit + 1) (c :: s) = (.number numeral, rest) := by
  rw [readValue, skipBlank_cons (not_isBlank_of_numeral first)]
  split
  · next same => cases same
  case h_8 =>
    next same =>
      obtain ⟨rfl, rfl⟩ := List.cons.inj same
      rw [if_pos first, read]
  all_goals
    next same =>
      -- a string, a bracket or a word starts otherwise
      obtain ⟨rfl, -⟩ := List.cons.inj same
      cases first

theorem readValue_array {s rest : List Char} {items : Items} {limit : Nat}
    (first : ∃ c more, skipBlank s = c :: more ∧ c ≠ ']')
    (read : readItems limit s = (items, rest)) :
    readValue (limit + 1) ('[' :: s) = (.array items, rest) := by
  obtain ⟨c, more, skipped, other⟩ := first
  simp only [readValue, skipBlank_cons (c := '[') rfl]
  rw [← readItems_skipBlank] at read
  rw [skipped] at read ⊢
  split
  · next same => cases same
  · next same =>
    obtain ⟨rfl, -⟩ := List.cons.inj same
    exact absurd rfl other
  · rw [read]

theorem readValue_object {s rest : List Char} {members : Members} {limit : Nat}
    (first : (skipBlank s).head? ≠ some '\x7d') (read : readMembers limit s = (members, rest)) :
    readValue (limit + 1) ('\x7b' :: s) = (.object members, rest) := by
  simp only [readValue, skipBlank_cons (c := '\x7b') rfl]
  rw [← readMembers_skipBlank] at read
  split
  · next same =>
    rw [same] at first
    exact absurd rfl first
  · rw [read]

/-- What comes first behind the bracket of an array that is not empty. -/
theorem ItemsSpelled.head {items : Items} {text : List Char} (h : ItemsSpelled items text)
    (rest : List Char) : ∃ c more, skipBlank (text ++ rest) = c :: more ∧ c ≠ ']' := by
  have skipped {value : Document} {before spelling : List Char} (blank : Blank before)
      (spelled : Spelled value spelling) (behind : List Char) :
      ∃ c more, skipBlank (before ++ (spelling ++ behind)) = c :: more ∧ c ≠ ']' := by
    obtain ⟨c, more, rfl, solid, other⟩ := spelled.head
    rw [skipBlank_append blank, List.cons_append, skipBlank_cons solid]
    exact ⟨c, _, rfl, other⟩
  cases h with
  | last before spelled _ =>
    simp only [List.append_assoc]
    exact skipped before spelled _
  | more before spelled _ _ =>
    simp only [List.append_assoc]
    exact skipped before spelled _

/-- What comes first behind the bracket of an object that is not empty. -/
theorem MembersSpelled.head {members : Members} {text : List Char}
    (h : MembersSpelled members text) (rest : List Char) :
    (skipBlank (text ++ rest)).head? ≠ some '\x7d' := by
  cases h with
  | last member =>
    obtain ⟨blank, -, -, -, -, -⟩ := member
    simp [skipBlank_append blank, skipBlank_cons (c := '"') rfl]
  | more member _ =>
    obtain ⟨blank, -, -, -, -, -⟩ := member
    simp [skipBlank_append blank, skipBlank_cons (c := '"') rfl]

/-- The first item is read, and what follows says whether it is the last one. -/
theorem readItems_last {s after rest : List Char} {value : Document} {limit : Nat}
    (blank : Blank after) (read : readValue limit s = (value, after ++ ']' :: rest)) :
    readItems (limit + 1) s = (.item value .closed, rest) := by
  simp only [readItems, read, skipBlank_append blank, skipBlank_cons (c := ']') rfl]

theorem readItems_more {s after later rest : List Char} {value : Document} {items : Items}
    {limit : Nat} (blank : Blank after) (read : readValue limit s = (value, after ++ ',' :: later))
    (read_later : readItems limit later = (items, rest)) :
    readItems (limit + 1) s = (.item value items, rest) := by
  simp only [readItems, read, skipBlank_append blank, skipBlank_cons (c := ',') rfl, read_later]

/-- A key and the colon behind it are read before the value is. -/
theorem readMembers_last {key : List StringUnit} {name b₁ b₂ after s rest : List Char}
    {value : Document} {limit : Nat} (blank₁ : Blank b₁) (spelled : UnitsSpelled key name)
    (blank₂ : Blank b₂) (blank : Blank after)
    (read : readValue limit s = (value, after ++ '\x7d' :: rest)) :
    readMembers (limit + 1) (b₁ ++ '"' :: (name ++ '"' :: (b₂ ++ ':' :: s)))
      = (.member key value .closed, rest) := by
  simp only [readMembers, skipBlank_append blank₁, skipBlank_cons (c := '"') rfl,
    readString_of_spelled spelled, skipBlank_append blank₂, skipBlank_cons (c := ':') rfl, read,
    skipBlank_append blank, skipBlank_cons (c := '\x7d') rfl]

theorem readMembers_more {key : List StringUnit} {name b₁ b₂ after s later rest : List Char}
    {value : Document} {members : Members} {limit : Nat} (blank₁ : Blank b₁)
    (spelled : UnitsSpelled key name) (blank₂ : Blank b₂) (blank : Blank after)
    (read : readValue limit s = (value, after ++ ',' :: later))
    (read_later : readMembers limit later = (members, rest)) :
    readMembers (limit + 1) (b₁ ++ '"' :: (name ++ '"' :: (b₂ ++ ':' :: s)))
      = (.member key value members, rest) := by
  simp only [readMembers, skipBlank_append blank₁, skipBlank_cons (c := '"') rfl,
    readString_of_spelled spelled, skipBlank_append blank₂, skipBlank_cons (c := ':') rfl, read,
    skipBlank_append blank, skipBlank_cons (c := ',') rfl, read_later]

mutual

/-- A document is read back from each of its spellings. -/
theorem readValue_of_spelled {doc : Document} {text : List Char} (h : Spelled doc text)
    {limit : Nat} (enough : 2 * text.length ≤ limit) {rest : List Char} (ends : Ends rest) :
    readValue limit (text ++ rest) = (doc, rest) := by
  -- a spelling is not empty, so that the limit allows one step at least
  obtain ⟨c, more, nonempty, -⟩ := h.head
  obtain ⟨limit, rfl⟩ : ∃ fewer, limit = fewer + 1 := by
    rw [nonempty, List.length_cons] at enough
    exact ⟨limit - 1, by omega⟩
  cases h with
  | null => exact readConstant_append .null 'n' "ull".toList rest
  | @boolean value =>
    cases value with
    | false => exact readConstant_append (.boolean false) 'f' "alse".toList rest
    | true => exact readConstant_append (.boolean true) 't' "rue".toList rest
  | number spelled =>
    have read := Numeral.read_of_spelled spelled (Numeral.stops_of_ends ends)
    obtain ⟨c, more, rfl, first⟩ := spelled.head
    exact readValue_number first read limit
  | string spelled =>
    simp only [List.cons_append, List.append_assoc, List.nil_append, readValue,
      skipBlank_cons (c := '"') rfl, readString_of_spelled spelled]
  | emptyArray blank =>
    simp only [List.cons_append, List.append_assoc, List.nil_append, readValue,
      skipBlank_cons (c := '[') rfl, skipBlank_append blank, skipBlank_cons (c := ']') rfl]
  | emptyObject blank =>
    simp only [List.cons_append, List.append_assoc, List.nil_append, readValue,
      skipBlank_cons (c := '\x7b') rfl, skipBlank_append blank, skipBlank_cons (c := '\x7d') rfl]
  | @array items text spelled =>
    -- the brackets leave two characters, four steps, for the step here and the one of the items
    simp only [List.length_cons, List.length_append, List.length_nil] at enough
    rw [List.cons_append, List.append_assoc]
    exact readValue_array (spelled.head _) (readItems_of_spelled spelled (by omega) rest)
  | @object members text spelled =>
    simp only [List.length_cons, List.length_append, List.length_nil] at enough
    rw [List.cons_append, List.append_assoc]
    exact readValue_object (spelled.head _) (readMembers_of_spelled spelled (by omega) rest)

theorem readItems_of_spelled {items : Items} {text : List Char} (h : ItemsSpelled items text)
    {limit : Nat} (enough : 2 * text.length + 1 ≤ limit) (rest : List Char) :
    readItems limit (text ++ ']' :: rest) = (items, rest) := by
  obtain ⟨limit, rfl⟩ : ∃ fewer, limit = fewer + 1 := ⟨limit - 1, by omega⟩
  cases h with
  | last before spelled after =>
    simp only [List.length_append] at enough
    refine readItems_last after ?_
    simp only [List.append_assoc]
    rw [readValue_blank before]
    exact readValue_of_spelled spelled (by omega) (.blank_append after (by simp [Ends]))
  | more before spelled after later =>
    simp only [List.length_append, List.length_cons] at enough
    refine readItems_more after ?_ (readItems_of_spelled later (by omega) rest)
    simp only [List.append_assoc, List.cons_append]
    rw [readValue_blank before]
    exact readValue_of_spelled spelled (by omega) (.blank_append after (by simp [Ends]))

theorem readMembers_of_spelled {members : Members} {text : List Char}
    (h : MembersSpelled members text) {limit : Nat} (enough : 2 * text.length + 1 ≤ limit)
    (rest : List Char) : readMembers limit (text ++ '\x7d' :: rest) = (members, rest) := by
  obtain ⟨limit, rfl⟩ : ∃ fewer, limit = fewer + 1 := ⟨limit - 1, by omega⟩
  cases h with
  | last member =>
    obtain ⟨blank₁, key, blank₂, blank₃, spelled, blank₄⟩ := member
    simp only [List.length_append, List.length_cons] at enough
    simp only [List.append_assoc, List.cons_append]
    refine readMembers_last blank₁ key blank₂ blank₄ ?_
    rw [readValue_blank blank₃]
    exact readValue_of_spelled spelled (by omega) (.blank_append blank₄ (by simp [Ends]))
  | more member later =>
    obtain ⟨blank₁, key, blank₂, blank₃, spelled, blank₄⟩ := member
    simp only [List.length_append, List.length_cons] at enough
    simp only [List.append_assoc, List.cons_append]
    refine readMembers_more blank₁ key blank₂ blank₄ ?_
      (readMembers_of_spelled later (by omega) rest)
    rw [readValue_blank blank₃]
    exact readValue_of_spelled spelled (by omega) (.blank_append blank₄ (by simp [Ends]))

end

/-! ## Texts -/

/-- A text of a document means what the document means. -/
theorem ofText_of_textOf {α : Type} {doc : Document} {text : List Char} (h : TextOf doc text)
    (read : Reading α) : ofText read (String.ofList text) = read doc := by
  obtain ⟨before, spelling, after, blank_before, spelled, blank_after, rfl⟩ := h
  have tree : Document.ofText (before ++ (spelling ++ after)) = (doc, after) := by
    rw [Document.ofText, readValue_blank blank_before]
    refine readValue_of_spelled spelled ?_ ?_
    · simp only [List.length_append]
      omega
    · simpa using Ends.nil.blank_append blank_after
  have nothing_left : skipBlank after = [] := by
    simpa [skipBlank] using skipBlank_append blank_after []
  rw [ofText, String.toList_ofList, tree]
  cases meant : read doc with
  | error e => simp only [meant]
  | ok a => simp only [meant, nothing_left, if_true]

end WireSchema.Json
