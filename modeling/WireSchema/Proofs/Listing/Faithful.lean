import Mathlib.Data.List.Forall2
import WireSchema.Proofs.Listing.Lines
import WireSchema.Proofs.Text.Quoted

/-!
# What a listing tells

The parts of a line have no labels of their own where their spelling gives them away, and absent
parts leave no gap. Each part is still found again: the signal is the first word behind the
indentation, a name is the only part that begins with a quote, and every other part is a word
without spaces whose first letters say which part it is. Two streams have the same plain listing
exactly when they agree in all that a listing shows.

Results:

1. `word_append_injective`, `flatMap_space_injective`: words set apart by spaces are determined by
   the text that they make up.
2. `Aspect.ofWord_word`, `find?_words`: a word is found again among the words of a token by the
   letters that it begins with.
3. `listing_eq_iff`: two streams have the same listing exactly when they agree at every position in
   the signal, and unless it is an end in the name, both identifiers, the encoding, the size and the
   offset.
-/

namespace WireSchema.Listing

open Text

/-! ## Words set apart by spaces -/

/-- Nothing, or something behind a space. -/
def Apart (text : List Char) : Prop :=
  ∀ c ∈ text.head?, c = ' '

theorem apart_flatMap (words : List (List Char)) :
    Apart (words.flatMap fun word => ' ' :: word) := by
  cases words with
  | nil => exact fun _ first => nomatch first
  | cons word others =>
    intro c first
    exact (Option.some.inj first).symm

/-- A word ends where the first space stands. -/
theorem word_append_injective {word other rest behind : List Char} (solid : ' ' ∉ word)
    (other_solid : ' ' ∉ other) (apart : Apart rest) (other_apart : Apart behind)
    (same : word ++ rest = other ++ behind) : word = other ∧ rest = behind := by
  induction word generalizing other with
  | nil =>
    cases other with
    | nil => exact ⟨rfl, same⟩
    | cons c more =>
      have space : c = ' ' := apart c (by rw [show rest = c :: (more ++ behind) from same]; rfl)
      exact absurd (space ▸ List.mem_cons_self) other_solid
  | cons c word ih =>
    cases other with
    | nil =>
      have space : c = ' ' :=
        other_apart c (by rw [show behind = c :: (word ++ rest) from same.symm]; rfl)
      exact absurd (space ▸ List.mem_cons_self) solid
    | cons d more =>
      obtain ⟨rfl, later⟩ := List.cons.inj same
      obtain ⟨rfl, rfl⟩ := ih (fun listed => solid (List.mem_cons_of_mem _ listed))
        (fun listed => other_solid (List.mem_cons_of_mem _ listed)) later
      exact ⟨rfl, rfl⟩

theorem flatMap_space_injective {words others : List (List Char)}
    (solid : ∀ word ∈ words, ' ' ∉ word) (others_solid : ∀ word ∈ others, ' ' ∉ word)
    (same : words.flatMap (fun word => ' ' :: word) = others.flatMap fun word => ' ' :: word) :
    words = others := by
  induction words generalizing others with
  | nil =>
    cases others with
    | nil => rfl
    | cons word more => cases same
  | cons word words ih =>
    cases others with
    | nil => cases same
    | cons word' others =>
      obtain ⟨here, later⟩ := List.forall_mem_cons.mp solid
      obtain ⟨here', later'⟩ := List.forall_mem_cons.mp others_solid
      simp only [List.flatMap_cons, List.cons_append] at same
      obtain ⟨rfl, rest⟩ := word_append_injective here here' (apart_flatMap _) (apart_flatMap _)
        (List.cons.inj same).2
      rw [ih later later' rest]

/-- What stands behind an indentation begins where the first space does not stand. -/
theorem indent_append_injective {m n : Nat} {text other : List Char}
    (solid : ∃ c ∈ text.head?, c ≠ ' ') (other_solid : ∃ c ∈ other.head?, c ≠ ' ')
    (same : List.replicate m ' ' ++ text = List.replicate n ' ' ++ other) : text = other := by
  have stripped (k : Nat) {text : List Char} (solid : ∃ c ∈ text.head?, c ≠ ' ') :
      (List.replicate k ' ' ++ text).dropWhile (· = ' ') = text := by
    obtain ⟨c, first, noSpace⟩ := solid
    obtain ⟨more, rfl⟩ := List.head?_eq_some_iff.mp first
    rw [List.dropWhile_append_of_pos (by simp)]
    simp [noSpace]
  rw [← stripped m solid, same, stripped n other_solid]

/-! ## Words of a token -/

/-- What a word of a listing may tell. -/
inductive Aspect
  | id
  | xref
  | scalar
  | byteOrder
  | size
  | offset
  deriving DecidableEq

namespace Aspect

/-- The order in which they are told. -/
def all : List Aspect := [id, xref, scalar, byteOrder, size, offset]

/-- The word that tells an aspect of a token, if any does. -/
def word (token : Token) : Aspect → Option (List Char)
  | id => token.id.map fun id => "id=".toList ++ decimal id.toNat
  | xref => token.xref.map fun id => "xref=".toList ++ decimal id.toNat
  | scalar => token.scalar.map fun scalar => scalar.name.toList
  | byteOrder => token.byteOrder.map fun order => order.label.toList
  | size => sizePart .plain token
  | offset => some (offsetPart .plain token)

/-- What a word tells, by the letters that it begins with. -/
def ofWord : List Char → Aspect
  | 'i' :: 'd' :: _ => id
  | 'x' :: _ => xref
  | 'l' :: _ => byteOrder
  | 'b' :: _ => byteOrder
  | 's' :: _ => size
  | '@' :: _ => offset
  | _ => scalar

end Aspect

/-- A text that is neither empty nor could be taken for a name, and has no space. -/
def Word (text : List Char) : Prop :=
  (∃ c ∈ text.head?, c ≠ '"') ∧ ' ' ∉ text

theorem isDigit_of_mem_decimal {n : Nat} {c : Char} (listed : c ∈ decimal n) : c.isDigit = true :=
  Nat.isDigit_of_mem_toDigits (by decide) (by decide) listed

/-- A label and a number make a word. -/
theorem word_labelled {c : Char} {label : List Char} (noQuote : c ≠ '"') (solid : ' ' ∉ c :: label)
    (n : Nat) : Word (c :: (label ++ decimal n)) := by
  refine ⟨⟨c, rfl, noQuote⟩, ?_⟩
  rw [← List.cons_append, List.mem_append, not_or]
  exact ⟨solid, fun listed => absurd (isDigit_of_mem_decimal listed) (by decide)⟩

variable {token : Token} {text : List Char}

theorem sizePart_cases (token : Token) :
    (token.size = .varying ∧ sizePart .plain token = some "size=var".toList) ∨
    (token.size = .fixed 0 ∧ token.signal ≠ .encoding ∧ sizePart .plain token = none) ∨
    ∃ bytes, token.size = .fixed bytes ∧ ¬(bytes = 0 ∧ token.signal ≠ .encoding) ∧
      sizePart .plain token = some ("size=".toList ++ decimal bytes.toNat) := by
  cases size : token.size with
  | varying => exact .inl ⟨rfl, by rw [sizePart, size]; rfl⟩
  | fixed bytes =>
    right
    by_cases none_shown : bytes = 0 ∧ token.signal ≠ .encoding
    · obtain ⟨rfl, structural⟩ := none_shown
      exact .inl ⟨rfl, structural, by rw [sizePart, size]; exact if_pos ⟨rfl, structural⟩⟩
    · exact .inr ⟨bytes, rfl, none_shown, by rw [sizePart, size]; exact if_neg none_shown⟩

theorem Aspect.ofWord_word {aspect : Aspect} (told : aspect.word token = some text) :
    Aspect.ofWord text = aspect ∧ Word text := by
  cases aspect with
  | id =>
    obtain ⟨id, _, rfl⟩ := Option.map_eq_some_iff.mp told
    exact ⟨rfl, word_labelled (by decide) (by decide) _⟩
  | xref =>
    obtain ⟨id, _, rfl⟩ := Option.map_eq_some_iff.mp told
    exact ⟨rfl, word_labelled (by decide) (by decide) _⟩
  | scalar =>
    obtain ⟨scalar, _, rfl⟩ := Option.map_eq_some_iff.mp told
    cases scalar <;> exact ⟨rfl, ⟨_, rfl, by decide⟩, by decide⟩
  | byteOrder =>
    obtain ⟨order, _, rfl⟩ := Option.map_eq_some_iff.mp told
    cases order <;> exact ⟨rfl, ⟨_, rfl, by decide⟩, by decide⟩
  | size =>
    rw [word] at told
    rcases sizePart_cases token with ⟨_, shown⟩ | ⟨_, _, shown⟩ | ⟨bytes, _, _, shown⟩ <;>
      rw [shown] at told
    · obtain rfl := Option.some.inj told
      exact ⟨rfl, ⟨_, rfl, by decide⟩, by decide⟩
    · cases told
    · obtain rfl := Option.some.inj told
      exact ⟨rfl, word_labelled (by decide) (by decide) _⟩
  | offset =>
    obtain rfl := Option.some.inj told
    rw [offsetPart]
    split
    · exact ⟨rfl, @word_labelled '@' [] (by decide) (by decide) _⟩
    · exact ⟨rfl, ⟨_, rfl, by decide⟩, by decide⟩

/-- All words of a token. -/
def words (token : Token) : List (List Char) :=
  Aspect.all.filterMap (Aspect.word token)

theorem parts_plain (token : Token) :
    parts .plain token = (namePart .plain token).toList ++ words token := by
  cases name : namePart .plain token <;> simp only [parts, name, words, Aspect.all,
    List.filterMap_cons, List.filterMap_nil, Option.toList_none, Option.toList_some,
    List.nil_append, List.singleton_append] <;> rfl

theorem word_of_mem_words (told : text ∈ words token) : Word text := by
  obtain ⟨aspect, _, told⟩ := List.mem_filterMap.mp told
  exact (Aspect.ofWord_word told).2

/-- An aspect of a token is found again among its words. -/
theorem find?_words (token : Token) (aspect : Aspect) :
    (words token).find? (fun text => Aspect.ofWord text = aspect) = aspect.word token := by
  rw [words, List.find?_filterMap]
  cases found : Aspect.all.find? fun a => (a.word token).any fun text =>
      Aspect.ofWord text = aspect with
  | none =>
    have listed : aspect ∈ Aspect.all := by cases aspect <;> decide
    have unsaid := List.find?_eq_none.mp found aspect listed
    cases told : aspect.word token with
    | none => rfl
    | some text =>
      rw [told, Option.any_some, (Aspect.ofWord_word told).1] at unsaid
      exact absurd (decide_eq_true rfl) unsaid
  | some a =>
    have chosen := List.find?_some found
    obtain ⟨text, told, same⟩ := (Option.any_eq_true _ _).mp chosen
    rw [(Aspect.ofWord_word told).1] at same
    rw [of_decide_eq_true same]
    rfl

theorem word_eq_of_words_eq {other : Token} (same : words token = words other) (aspect : Aspect) :
    aspect.word token = aspect.word other := by
  rw [← find?_words token, same, find?_words]

/-! ## Descriptions -/

theorem namePart_plain (token : Token) :
    namePart .plain token = if token.name = "" then none else some (quote token.name.toList) :=
  rfl

theorem words_ne_nil (token : Token) : words token ≠ [] := by
  intro empty
  have told := find?_words token .offset
  rw [empty] at told
  cases told

/-- The words of a token are not taken for a name. -/
theorem quote_ne_flatMap_words {name rest : List Char} (token : Token) :
    ' ' :: (quote name ++ rest) ≠ (words token).flatMap fun text => ' ' :: text := by
  intro same
  obtain ⟨text, others, told⟩ := List.exists_cons_of_ne_nil (words_ne_nil token)
  obtain ⟨⟨c, first, noQuote⟩, _⟩ := word_of_mem_words (told ▸ List.mem_cons_self)
  obtain ⟨more, rfl⟩ := List.head?_eq_some_iff.mp first
  rw [told, List.flatMap_cons] at same
  exact noQuote (List.cons.inj (List.cons.inj same).2).1.symm

/-- The name and the words of a token are determined by its parts behind their spaces. -/
theorem parts_injective {other : Token}
    (same : ((parts .plain token).flatMap fun part => ' ' :: part)
      = (parts .plain other).flatMap fun part => ' ' :: part) :
    token.name = other.name ∧ words token = words other := by
  have solid (token : Token) : ∀ text ∈ words token, ' ' ∉ text :=
    fun text told => (word_of_mem_words told).2
  simp only [parts_plain, namePart_plain] at same
  by_cases unnamed : token.name = "" <;> by_cases other_unnamed : other.name = ""
  · rw [if_pos unnamed, if_pos other_unnamed] at same
    exact ⟨unnamed.trans other_unnamed.symm,
      flatMap_space_injective (solid token) (solid other) same⟩
  · rw [if_pos unnamed, if_neg other_unnamed] at same
    exact absurd same.symm (quote_ne_flatMap_words token)
  · rw [if_neg unnamed, if_pos other_unnamed] at same
    exact absurd same (quote_ne_flatMap_words other)
  · rw [if_neg unnamed, if_neg other_unnamed] at same
    obtain ⟨names, rest⟩ := quote_append_injective (List.cons.inj same).2
    exact ⟨String.toList_inj.mp names, flatMap_space_injective (solid token) (solid other) rest⟩

theorem sizePart_injective {other : Token}
    (same : sizePart .plain token = sizePart .plain other) : token.size = other.size := by
  have noNumber (n : Nat) : "size=var".toList ≠ "size=".toList ++ decimal n := by
    intro spelled
    have letters : "var".toList = decimal n := by simpa using spelled
    have listed : 'v' ∈ decimal n := letters ▸ List.mem_cons_self
    exact absurd (isDigit_of_mem_decimal listed) (by decide)
  rcases sizePart_cases token with ⟨size, shown⟩ | ⟨size, _, shown⟩ | ⟨bytes, size, _, shown⟩ <;>
    rcases sizePart_cases other with ⟨size', shown'⟩ | ⟨size', _, shown'⟩ |
      ⟨bytes', size', _, shown'⟩ <;>
    rw [shown, shown'] at same <;> rw [size, size']
  · cases same
  · exact absurd (Option.some.inj same) (noNumber _)
  · cases same
  · cases same
  · exact absurd (Option.some.inj same).symm (noNumber _)
  · cases same
  · rw [UInt32.toNat_inj.mp (decimal_injective (List.append_cancel_left (Option.some.inj same)))]

theorem offsetPart_injective {other : Token}
    (same : offsetPart .plain token = offsetPart .plain other) : token.offset = other.offset := by
  have noNumber (n : Nat) : '@' :: decimal n ≠ "@?".toList := by
    intro spelled
    have listed : '?' ∈ decimal n := (List.cons.inj spelled).2 ▸ List.mem_cons_self
    exact absurd (isDigit_of_mem_decimal listed) (by decide)
  unfold offsetPart at same
  cases offset : token.offset <;> cases offset' : other.offset <;>
    simp only [offset, offset', Palette.paint_plain] at same
  · rw [UInt32.toNat_inj.mp (decimal_injective (List.cons.inj same).2)]
  · exact absurd same (noNumber _)
  · exact absurd same.symm (noNumber _)
  · rfl

theorem apart_description (token : Token) : Apart (description .plain token) := by
  rw [description]
  split
  · intro c first
    cases first
  · exact apart_flatMap _

/-! ## Lines -/

/-- Two tokens agree in all that a listing shows of them. -/
structure ShownAlike (a b : Token) : Prop where
  signal : a.signal = b.signal
  /-- Of an end, nothing but the signal is shown. -/
  told : a.signal.isEnd = false → a.name = b.name ∧ a.id = b.id ∧ a.xref = b.xref ∧
    a.scalar = b.scalar ∧ a.byteOrder = b.byteOrder ∧ a.size = b.size ∧ a.offset = b.offset

variable {a b : Token}

theorem told_of_parts (same : ((parts .plain a).flatMap fun part => ' ' :: part)
    = (parts .plain b).flatMap fun part => ' ' :: part) :
    a.name = b.name ∧ a.id = b.id ∧ a.xref = b.xref ∧ a.scalar = b.scalar ∧
      a.byteOrder = b.byteOrder ∧ a.size = b.size ∧ a.offset = b.offset := by
  obtain ⟨names, words⟩ := parts_injective same
  have told := word_eq_of_words_eq words
  refine ⟨names, ?_, ?_, ?_, ?_, sizePart_injective (told .size),
    offsetPart_injective (Option.some.inj (told .offset))⟩
  · exact Option.map_injective (fun id id' same => UInt32.toNat_inj.mp
      (decimal_injective (List.append_cancel_left same))) (told .id)
  · exact Option.map_injective (fun id id' same => UInt32.toNat_inj.mp
      (decimal_injective (List.append_cancel_left same))) (told .xref)
  · exact Option.map_injective (fun scalar scalar' same =>
      Vocabulary.name_injective scalar scalar' (String.toList_inj.mp same)) (told .scalar)
  · exact Option.map_injective (fun order order' same => by
      cases order <;> cases order' <;> first | rfl | exact absurd same (by decide))
      (told .byteOrder)

theorem description_of_shownAlike (alike : ShownAlike a b) :
    description .plain a = description .plain b := by
  rw [description, description, ← alike.signal]
  cases ends : a.signal.isEnd with
  | true => rfl
  | false =>
    obtain ⟨name, id, xref, scalar, byteOrder, size, offset⟩ := alike.told ends
    simp only [parts, namePart, sizePart, offsetPart, name, id, xref, scalar, byteOrder, size,
      offset, alike.signal]

theorem signal_name_solid (signal : Signal) :
    (∃ c ∈ signal.name.toList.head?, c ≠ ' ') ∧ ' ' ∉ signal.name.toList := by
  cases signal with
  | start kind | stop kind => cases kind <;> exact ⟨⟨_, rfl, by decide⟩, by decide⟩
  | _ => exact ⟨⟨_, rfl, by decide⟩, by decide⟩

theorem shownAlike_of_content {width depth depth' position : Nat}
    (same : content width depth position a = content width depth' position b) : ShownAlike a b := by
  have solid (token : Token) : ∃ c ∈ (token.signal.name.toList ++ description .plain token).head?,
      c ≠ ' ' := by
    obtain ⟨⟨c, first, noSpace⟩, _⟩ := signal_name_solid token.signal
    obtain ⟨more, spelled⟩ := List.head?_eq_some_iff.mp first
    exact ⟨c, by rw [spelled]; rfl, noSpace⟩
  simp only [content, List.append_assoc] at same
  have indented := List.append_cancel_left (List.append_cancel_left same)
  have shown := indent_append_injective (solid a) (solid b) indented
  obtain ⟨names, descriptions⟩ := word_append_injective (signal_name_solid a.signal).2
    (signal_name_solid b.signal).2 (apart_description a) (apart_description b) shown
  have signal : a.signal = b.signal := Signal.name_injective _ _ (String.toList_inj.mp names)
  refine ⟨signal, fun noEnd => ?_⟩
  rw [description, description, ← signal, noEnd] at descriptions
  exact told_of_parts descriptions

/-! ## Listings -/

theorem shownAlike_of_contents {width depth depth' position : Nat} {s t : List Token}
    (same : contents width depth position s = contents width depth' position t) :
    List.Forall₂ ShownAlike s t := by
  induction s generalizing depth depth' position t with
  | nil =>
    cases t with
    | nil => exact .nil
    | cons b later => cases same
  | cons a rest ih =>
    cases t with
    | nil => cases same
    | cons b later =>
      obtain ⟨here, behind⟩ := List.cons.inj same
      exact .cons (shownAlike_of_content here) (ih behind)

theorem lines_of_shownAlike {s t : List Token} (alike : List.Forall₂ ShownAlike s t)
    (width depth position : Nat) :
    lines .plain width depth position s = lines .plain width depth position t := by
  induction alike generalizing depth position with
  | nil => rfl
  | cons here _ ih =>
    rw [lines, lines, ih, line, line, here.signal, description_of_shownAlike here]

end WireSchema.Listing

namespace WireSchema.TokenStream

open Listing

/-- A plain listing tells the length of a stream and at every position the signal, and unless that
is an end the name, both identifiers, the scalar type, the byte order, the size and the offset; and
it tells no more. -/
theorem listing_eq_iff (s t : TokenStream) :
    s.listing .plain = t.listing .plain ↔ List.Forall₂ ShownAlike s t := by
  constructor
  · intro same
    have pieces : contents (positionWidth s.length) 0 0 s ++ [[]]
        = contents (positionWidth t.length) 0 0 t ++ [[]] := by
      rw [← splitOn_listing, same, splitOn_listing]
    have shown := List.append_cancel_right pieces
    have lengths := congrArg List.length shown
    rw [contents_length, contents_length] at lengths
    rw [lengths] at shown
    exact shownAlike_of_contents shown
  · intro alike
    rw [listing, listing, alike.length_eq, lines_of_shownAlike alike]

end WireSchema.TokenStream
