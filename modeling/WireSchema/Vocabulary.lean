/-!
# Closed vocabularies

Signals, scalar types, byte orders and presences are small closed sets of words. Both serialized
forms refer to such a word: the text form by its name, the payload by its position in the list of
words. This module holds what the four sets share.

Results:

1. `ofName?_name`: a word is found again under its name.
2. `ofCode?_code`: a word is found again under its number.
-/

namespace WireSchema

/-- A finite type whose values are listed once, in the order of their numbers, under distinct
names. -/
class Vocabulary (α : Type) where
  terms : List α
  /-- The name of a value in schemas and in the text form. -/
  name : α → String
  /-- No value is left out. -/
  complete : ∀ a, a ∈ terms
  /-- A name belongs to one value. -/
  name_injective : ∀ a b, name a = name b → a = b

namespace Vocabulary

variable {α : Type} [Vocabulary α]

/-- The value with the given name. -/
def ofName? (word : String) : Option α :=
  terms.find? fun a => name a == word

/-- The number of a value: its position in the list. -/
def code (a : α) : Nat :=
  (terms : List α).findIdx fun b => name b == name a

/-- The value with the given number. -/
def ofCode? (n : Nat) : Option α :=
  (terms : List α)[n]?

theorem ofName?_name (a : α) : ofName? (name a) = some a := by
  have found : (ofName? (name a) : Option α).isSome := by
    rw [ofName?, List.find?_isSome]
    exact ⟨a, complete a, by simp⟩
  obtain ⟨b, hb⟩ := Option.isSome_iff_exists.1 found
  have same := List.find?_some hb
  rw [hb, name_injective b a (by simpa using same)]

theorem code_lt (a : α) : code a < (terms : List α).length :=
  List.findIdx_lt_length_of_exists ⟨a, complete a, by simp⟩

theorem ofCode?_code (a : α) : ofCode? (code a) = some a := by
  have found := List.findIdx_getElem (w := code_lt a)
  rw [ofCode?, List.getElem?_eq_getElem (code_lt a)]
  exact congrArg some (name_injective _ a (beq_iff_eq.1 found))

end Vocabulary

end WireSchema
