import WireSchema.Text.Quoted

/-!
# Reading quoted text

A quoted text can be told from what follows it and read back: an escape is announced by a backslash,
which never stands for itself, a code point ends with its brace, and no character but the last is a
bare quote. Names may hold anything, so that this is what keeps them from being taken for the words
around them.

Results:

1. `readQuotedChar_quoteChar`: a quoted character is read back, whatever follows it.
2. `quote_append_injective`: a quoted text and what follows it are determined by both together.
-/

namespace WireSchema.Text

/-! ## Numerals -/

theorem decimal_injective {m n : Nat} (same : decimal m = decimal n) : m = n := by
  have value (k : Nat) : Nat.ofDigitChars 10 (decimal k) 0 = k := Nat.ofDigitChars_ten_toDigits
  rw [← value m, same, value n]

/-- The value of a hexadecimal digit. -/
def hexDigitValue (c : Char) : Nat :=
  if c.isDigit then c.toNat - '0'.toNat else c.toNat - 'a'.toNat + 10

/-- The number that hexadecimal digits spell. -/
def hexNumber (digits : List Char) : Nat :=
  digits.foldl (fun n c => 16 * n + hexDigitValue c) 0

theorem hexDigitValue_digitChar : ∀ n < 16, hexDigitValue (Nat.digitChar n) = n := by
  decide

theorem digitChar_ne_brace : ∀ n < 16, Nat.digitChar n ≠ '\x7d' := by
  decide

theorem hexNumber_hexadecimal (n : Nat) : hexNumber (hexadecimal n) = n := by
  induction n using Nat.strongRecOn with
  | ind n ih =>
    rw [hexadecimal, Nat.toDigits_eq_if (by decide)]
    split
    · next small => simp [hexNumber, hexDigitValue_digitChar n small]
    · next large =>
      have earlier := ih (n / 16) (by omega)
      rw [hexadecimal, hexNumber] at earlier
      rw [hexNumber, List.foldl_append, earlier, List.foldl_cons, List.foldl_nil,
        hexDigitValue_digitChar _ (Nat.mod_lt n (by decide))]
      omega

theorem hexadecimal_ne_brace {n : Nat} {c : Char} (digit : c ∈ hexadecimal n) : c ≠ '\x7d' := by
  induction n using Nat.strongRecOn with
  | ind n ih =>
    rw [hexadecimal, Nat.toDigits_eq_if (by decide)] at digit
    split at digit
    · next small =>
      obtain rfl := List.mem_singleton.mp digit
      exact digitChar_ne_brace n small
    · next large =>
      rcases List.mem_append.mp digit with earlier | last
      · exact ih (n / 16) (by omega) earlier
      · obtain rfl := List.mem_singleton.mp last
        exact digitChar_ne_brace _ (Nat.mod_lt n (by decide))

/-! ## Characters -/

/-- Reads a character between quotes and leaves the rest; the closing quote is none. -/
def readQuotedChar : List Char → Option (Char × List Char)
  | '\\' :: 'u' :: '\x7b' :: rest =>
    some (Char.ofNat (hexNumber (rest.takeWhile (· ≠ '\x7d'))),
      (rest.dropWhile (· ≠ '\x7d')).drop 1)
  | '\\' :: '0' :: rest => some ('\x00', rest)
  | '\\' :: 't' :: rest => some ('\t', rest)
  | '\\' :: 'r' :: rest => some ('\r', rest)
  | '\\' :: 'n' :: rest => some ('\n', rest)
  | '\\' :: c :: rest => some (c, rest)
  | '"' :: _ => none
  | c :: rest => some (c, rest)
  | [] => none

theorem readQuotedChar_code (n : Nat) (rest : List Char) :
    readQuotedChar ('\\' :: 'u' :: '\x7b' :: (hexadecimal n ++ '\x7d' :: rest))
      = some (Char.ofNat n, rest) := by
  have digits : ∀ c ∈ hexadecimal n, decide (c ≠ '\x7d') = true := fun c digit =>
    decide_eq_true (hexadecimal_ne_brace digit)
  rw [readQuotedChar, List.takeWhile_append_of_pos digits, List.dropWhile_append_of_pos digits]
  simp [hexNumber_hexadecimal]

theorem readQuotedChar_quoteChar (c : Char) (rest : List Char) :
    readQuotedChar (quoteChar c ++ rest) = some (c, rest) := by
  unfold quoteChar
  split
  · next same => simp [readQuotedChar, same]
  split
  · next same => simp [readQuotedChar, same]
  split
  · next same => simp [readQuotedChar, same]
  split
  · next same => simp [readQuotedChar, same]
  split
  · next same => simp [readQuotedChar, same]
  split
  · next same => simp [readQuotedChar, same]
  split
  · have read := readQuotedChar_code c.toNat rest
    rw [Char.ofNat_toNat] at read
    simpa using read
  · next noBackslash noQuote _ =>
    rw [List.singleton_append, readQuotedChar] <;> simp_all

theorem readQuotedChar_quote (rest : List Char) : readQuotedChar ('"' :: rest) = none :=
  rfl

/-! ## Texts -/

/-- What stands between quotes ends at the first bare quote. -/
theorem flatMap_quoteChar_injective {text other rest behind : List Char}
    (same : text.flatMap quoteChar ++ '"' :: rest = other.flatMap quoteChar ++ '"' :: behind) :
    text = other ∧ rest = behind := by
  induction text generalizing other with
  | nil =>
    cases other with
    | nil => exact ⟨rfl, (List.cons.inj same).2⟩
    | cons d more =>
      have read := congrArg readQuotedChar same
      rw [List.flatMap_nil, List.nil_append, readQuotedChar_quote, List.flatMap_cons,
        List.append_assoc, readQuotedChar_quoteChar] at read
      cases read
  | cons c text ih =>
    have read := congrArg readQuotedChar same
    rw [List.flatMap_cons, List.append_assoc, readQuotedChar_quoteChar] at read
    cases other with
    | nil => cases read
    | cons d more =>
      rw [List.flatMap_cons, List.append_assoc, readQuotedChar_quoteChar] at read
      obtain ⟨rfl, later⟩ := Prod.mk.inj (Option.some.inj read)
      obtain ⟨rfl, rfl⟩ := ih later
      exact ⟨rfl, rfl⟩

theorem quote_append_injective {text other rest behind : List Char}
    (same : quote text ++ rest = quote other ++ behind) : text = other ∧ rest = behind := by
  simp only [quote, List.cons_append, List.append_assoc, List.nil_append] at same
  exact flatMap_quoteChar_injective (List.cons.inj same).2

end WireSchema.Text
