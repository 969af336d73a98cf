import Mathlib.Data.Nat.Digits.Defs
import Mathlib.Data.Nat.Log
import WireSchema.Proofs.Listing.Lines

/-!
# Numbered lines

A listing has one line for each token, and the line begins with the position of the token. The
positions stand at the right end of one column, which is as wide as the largest of them and no
wider: its width is found from the number of tokens alone, by a logarithm.

Results:

1. `length_decimal`: the number of decimal digits, at and between all powers of ten.
2. `positionWidth_eq_length`, `length_decimal_le`: the column is as wide as the largest position,
   and every position fits in.
3. `listing_numbered`: the lines of a listing, their ends and their positions.
-/

namespace WireSchema.Listing

open Text

/-! ## The column -/

/-- A number has one digit more than the logarithm says; so has zero. -/
theorem length_decimal (n : Nat) : (decimal n).length = Nat.log 10 n + 1 := by
  have digit : 0 < (decimal n).length := Nat.length_toDigits_pos
  have few {k : Nat} (positive : 0 < k) : (decimal n).length ≤ k ↔ n < 10 ^ k :=
    Nat.length_toDigits_le_iff (by decide) positive
  apply Nat.le_antisymm
  · exact (few (Nat.succ_pos _)).mpr (Nat.lt_pow_succ_log_self (by decide) n)
  · -- there is room for the number in its own digits
    have room : n < 10 ^ (decimal n).length := (few digit).mp (Nat.le_refl _)
    exact Nat.log_lt_of_lt_pow' digit.ne' room

theorem length_decimal_le {m n : Nat} (le : m ≤ n) :
    (decimal m).length ≤ (decimal n).length := by
  rw [length_decimal, length_decimal]
  exact Nat.succ_le_succ (Nat.log_mono_right le)

theorem log10_eq_log (n : Nat) : log10 n = Nat.log 10 n := by
  fun_induction log10 n with
  | case1 n few => exact (Nat.log_of_lt few).symm
  | case2 n many ih =>
    rw [ih, Nat.log_of_one_lt_of_le (by decide) (Nat.le_of_not_lt many)]

theorem positionWidth_eq_log (count : Nat) :
    positionWidth count = Nat.log 10 (max (count - 1) 1) + 1 := by
  rw [positionWidth, log10_eq_log]

/-- The column is as wide as the largest position, for streams of up to two tokens too. -/
theorem positionWidth_eq_length (count : Nat) :
    positionWidth count = (decimal (count - 1)).length := by
  rw [positionWidth_eq_log, length_decimal]
  rcases Nat.le_total 1 (count - 1) with many | few
  · rw [Nat.max_eq_left many]
  · rw [Nat.max_eq_right few, Nat.log_of_lt (by decide),
      Nat.log_of_lt (Nat.lt_of_le_of_lt few (by decide))]

/-! ## Line breaks -/

section

variable {texts : List (List Char)}

theorem count_flatten (unbroken : ∀ text ∈ texts, '\n' ∉ text) :
    ((texts.map fun text => text ++ ['\n']).flatten).count '\n' = texts.length := by
  induction texts with
  | nil => rfl
  | cons text others ih =>
    obtain ⟨here, later⟩ := List.forall_mem_cons.mp unbroken
    rw [List.map_cons, List.flatten_cons, List.count_append, List.count_append,
      List.count_eq_zero_of_not_mem here, ih later, List.length_cons]
    simp [Nat.add_comm]

theorem getLast?_flatten (nonempty : texts ≠ []) :
    ((texts.map fun text => text ++ ['\n']).flatten).getLast? = some '\n' := by
  rw [← List.dropLast_concat_getLast nonempty]
  simp

end

end WireSchema.Listing

namespace WireSchema.TokenStream

open Listing Text

/-- A plain listing has as many line breaks as the stream has tokens, and a line break at its end
unless it has none. Every line begins with the position of its token, at the right end of a column
that is as wide as the largest position, and two spaces; no position is wider than the column. -/
theorem listing_numbered (s : TokenStream) :
    (s.listing .plain).toList.count '\n' = s.length ∧
      (s ≠ [] → (s.listing .plain).toList.getLast? = some '\n') ∧
      positionWidth s.length = (decimal (s.length - 1)).length ∧
      positionWidth s.length = Nat.log 10 (max (s.length - 1) 1) + 1 ∧
      ∀ k < s.length, (decimal k).length ≤ positionWidth s.length ∧
        ∃ rest, ((s.listing .plain).toList.splitOn '\n')[k]?
          = some (List.replicate (positionWidth s.length - (decimal k).length) ' ' ++ decimal k
            ++ [' ', ' '] ++ rest) := by
  refine ⟨?_, fun nonempty => ?_, positionWidth_eq_length _, positionWidth_eq_log _, fun k within => ⟨?_, ?_⟩⟩
  · rw [toList_listing_plain, count_flatten fun text listed =>
      (visible_of_mem_contents listed).not_mem (by decide), contents_length]
  · have shown : contents (positionWidth s.length) 0 0 s ≠ [] := by
      rwa [← List.length_pos_iff, contents_length, List.length_pos_iff]
    rw [toList_listing_plain, getLast?_flatten shown]
  · rw [positionWidth_eq_length]
    exact length_decimal_le (Nat.le_sub_one_of_lt within)
  · rw [getElem?_splitOn_listing (List.getElem?_eq_getElem within), content, alignRight]
    simp only [List.append_assoc, Option.some.injEq]
    exact ⟨_, rfl⟩

/-- Eleven leaves, of which the one at position nine has a line break in its name. -/
def elevenLeaves : TokenStream :=
  List.replicate 9 (.leaf .int8 .littleEndian ⟨"", none, none, default, none⟩) ++
    [.leaf .int8 .littleEndian ⟨"two\nlines", none, none, default, none⟩,
     .leaf .int8 .littleEndian ⟨"last", none, none, default, none⟩]

theorem elevenLeaves_numbered :
    (elevenLeaves.listing .plain).toList.getLast? = some '\n' ∧
      (∃ rest, ((elevenLeaves.listing .plain).toList.splitOn '\n')[9]?
        = some (" 9  ".toList ++ rest)) ∧
      ∃ rest, ((elevenLeaves.listing .plain).toList.splitOn '\n')[10]?
        = some ("10  ".toList ++ rest) := by
  obtain ⟨_, ended, _, _, numbered⟩ := listing_numbered elevenLeaves
  obtain ⟨_, ninth⟩ := numbered 9 (by decide)
  obtain ⟨_, tenth⟩ := numbered 10 (by decide)
  have width : positionWidth elevenLeaves.length = 2 := by decide +kernel
  rw [width] at ninth tenth
  exact ⟨ended (by decide), ninth, tenth⟩

end WireSchema.TokenStream
