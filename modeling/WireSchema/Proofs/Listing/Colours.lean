import Mathlib.Data.List.Forall2
import WireSchema.Proofs.Listing.Lines

/-!
# Colours

A listing in colour is the plain listing with escape sequences in it: one in front of each part that
has a colour and one behind it. Positions are aligned and parts are left out before anything is
painted, and a name is quoted before it is painted, so that no name can hold an escape of its own.
Deleting every colour sequence leaves the plain listing.

A deletion looks ahead, over as many digits as there are. What is left of a text is therefore said
together with whatever follows it, so that texts can be put one behind the other.

Results:

1. `colourRest?_eq_some_iff`: what is deleted are the colour sequences, and nothing else.
2. `fadesTo_paint`: a painted text without control characters fades to itself.
3. `fadesTo_lines`: the lines of a listing fade to the lines of the plain one, whatever the colours.
4. `listing_coloured`: the two listings of a stream.
-/

namespace WireSchema.Listing

open Text

/-! ## Deleting colours -/

/-- A colour sequence: an escape, a bracket, digits and an `m`. -/
def ColourSequence (text : List Char) : Prop :=
  ∃ digits, digits ≠ [] ∧ digits.all Char.isDigit = true ∧
    text = '\x1b' :: '[' :: (digits ++ ['m'])

/-- What follows the colour sequence at the front of a text, if there is one. -/
def colourRest? : List Char → Option (List Char)
  | '\x1b' :: '[' :: rest =>
    match rest.takeWhile Char.isDigit, rest.dropWhile Char.isDigit with
    | _ :: _, 'm' :: behind => some behind
    | _, _ => none
  | _ => none

theorem colourRest?_eq_some_iff {text behind : List Char} :
    colourRest? text = some behind ↔
      ∃ sequence, ColourSequence sequence ∧ text = sequence ++ behind := by
  constructor
  · intro found
    unfold colourRest? at found
    split at found
    · next rest =>
      split at found
      · next d more _ digits ended =>
        obtain rfl := Option.some.inj found
        refine ⟨_, ⟨d :: more, List.cons_ne_nil _ _, ?_, rfl⟩, ?_⟩
        · rw [← digits]
          exact List.all_takeWhile
        · -- the digits and what is behind them make up the rest
          have whole := List.takeWhile_append_dropWhile (p := Char.isDigit) (l := rest)
          rw [digits, ended] at whole
          simp [← whole]
      · cases found
    · cases found
  · rintro ⟨_, ⟨digits, some_digits, numeric, rfl⟩, rfl⟩
    obtain ⟨d, more, rfl⟩ := List.exists_cons_of_ne_nil some_digits
    have numeric := List.all_eq_true.mp numeric
    simp only [List.cons_append, List.append_assoc, List.nil_append, colourRest?]
    rw [← List.cons_append, List.takeWhile_append_of_pos numeric,
      List.dropWhile_append_of_pos numeric]
    simp

theorem length_of_colourRest? {text behind : List Char} (found : colourRest? text = some behind) :
    behind.length < text.length := by
  obtain ⟨_, ⟨_, _, _, rfl⟩, rfl⟩ := colourRest?_eq_some_iff.mp found
  simp only [List.cons_append, List.length_cons, List.length_append]
  omega

/-- A text without its colour sequences. -/
def withoutColours : List Char → List Char
  | [] => []
  | c :: rest =>
    match _found : colourRest? (c :: rest) with
    | some behind => withoutColours behind
    | none => c :: withoutColours rest
termination_by text => text.length
decreasing_by
  · exact length_of_colourRest? _found
  · exact Nat.lt_succ_self _

theorem colourRest?_of_ne_escape {c : Char} (noEscape : c ≠ '\x1b') (rest : List Char) :
    colourRest? (c :: rest) = none := by
  unfold colourRest?
  split
  · next same => exact absurd (List.cons.inj same).1 noEscape
  · rfl

theorem withoutColours_of_colourRest? {text behind : List Char}
    (found : colourRest? text = some behind) : withoutColours text = withoutColours behind := by
  cases text with
  | nil => cases found
  | cons c rest =>
    rw [withoutColours]
    split
    · next found' => rw [Option.some.inj (found'.symm.trans found)]
    · next missing => cases missing.symm.trans found

theorem withoutColours_cons {c : Char} {rest : List Char}
    (missing : colourRest? (c :: rest) = none) :
    withoutColours (c :: rest) = c :: withoutColours rest := by
  rw [withoutColours]
  split
  · next found => cases missing.symm.trans found
  · rfl

/-! ## Fading -/

/-- Without its colours a text is another one, whatever follows it. -/
def FadesTo (shown text : List Char) : Prop :=
  ∀ rest, withoutColours (shown ++ rest) = text ++ withoutColours rest

section

variable {shown text shown' text' : List Char}

theorem FadesTo.withoutColours_eq (fades : FadesTo shown text) : withoutColours shown = text := by
  have alone := fades []
  rwa [List.append_nil, withoutColours, List.append_nil] at alone

theorem fadesTo_nil : FadesTo [] [] :=
  fun _ => rfl

theorem FadesTo.append (here : FadesTo shown text) (later : FadesTo shown' text') :
    FadesTo (shown ++ shown') (text ++ text') := by
  intro rest
  rw [List.append_assoc, here, later, List.append_assoc]

theorem fadesTo_of_not_mem (noEscape : '\x1b' ∉ text) : FadesTo text text := by
  induction text with
  | nil => exact fadesTo_nil
  | cons c more ih =>
    obtain ⟨here, later⟩ := not_or.mp (mt List.mem_cons.mpr noEscape)
    intro rest
    rw [List.cons_append, withoutColours_cons (colourRest?_of_ne_escape (Ne.symm here) _), ih later,
      List.cons_append]

theorem fadesTo_of_colourSequence (sequence : ColourSequence text) : FadesTo text [] :=
  fun _ => withoutColours_of_colourRest? (colourRest?_eq_some_iff.mpr ⟨text, sequence, rfl⟩)

theorem Visible.fadesTo (visible : Visible text) : FadesTo text text :=
  fadesTo_of_not_mem (visible.not_mem (by decide))

theorem fadesTo_flatten {lines others : List (List Char)}
    (fade : List.Forall₂ FadesTo lines others) : FadesTo lines.flatten others.flatten := by
  induction fade with
  | nil => exact fadesTo_nil
  | cons here _ ih =>
    rw [List.flatten_cons, List.flatten_cons]
    exact here.append ih

theorem fadesTo_flatMap_space {parts others : List (List Char)}
    (fade : List.Forall₂ FadesTo parts others) :
    FadesTo (parts.flatMap fun part => ' ' :: part) (others.flatMap fun part => ' ' :: part) := by
  have space : FadesTo [' '] [' '] := fadesTo_of_not_mem (by decide)
  rw [List.flatMap_def, List.flatMap_def]
  exact fadesTo_flatten (List.rel_map (fun _ _ here => space.append here) fade)

end

/-! ## Palettes of colour sequences -/

/-- Every colour of a palette is a colour sequence, and so is the way back. -/
structure Chromatic (palette : Palette) : Prop where
  name : ColourSequence palette.name.toList
  encoding : ColourSequence palette.encoding.toList
  muted : ColourSequence palette.muted.toList
  deferred : ColourSequence palette.deferred.toList
  reset : ColourSequence palette.reset.toList

theorem chromatic_coloured : Chromatic .coloured where
  name := ⟨['3', '4'], by decide, rfl, rfl⟩
  encoding := ⟨['3', '2'], by decide, rfl, rfl⟩
  muted := ⟨['2'], by decide, rfl, rfl⟩
  deferred := ⟨['3', '3'], by decide, rfl, rfl⟩
  reset := ⟨['0'], by decide, rfl, rfl⟩

variable {palette : Palette}

/-- A painted text fades to what it was before. -/
theorem fadesTo_paint (chromatic : Chromatic palette) {colour : String} {text : List Char}
    (sequence : ColourSequence colour.toList) (visible : Visible text) :
    FadesTo (palette.paint colour text) text := by
  rw [Palette.paint]
  split
  · have painted := ((fadesTo_of_colourSequence sequence).append visible.fadesTo).append
      (fadesTo_of_colourSequence chromatic.reset)
    rwa [List.nil_append, List.append_nil] at painted
  · exact visible.fadesTo

/-! ## Tokens -/

theorem fadesTo_sizePart (chromatic : Chromatic palette) (token : Token) :
    Option.Rel FadesTo (sizePart palette token) (sizePart .plain token) := by
  rw [sizePart, sizePart]
  cases token.size with
  | varying => exact .some (fadesTo_paint chromatic chromatic.deferred (by simp [Visible]))
  | fixed bytes =>
    dsimp only
    split
    · exact .none
    · exact .some (fadesTo_paint chromatic chromatic.muted
        (visible_append.mpr ⟨by simp [Visible], visible_decimal _⟩))

theorem fadesTo_offsetPart (chromatic : Chromatic palette) (token : Token) :
    FadesTo (offsetPart palette token) (offsetPart .plain token) := by
  rw [offsetPart, offsetPart]
  cases token.offset with
  | known bytes =>
    exact fadesTo_paint chromatic chromatic.muted
      (visible_cons.mpr ⟨by decide, visible_decimal _⟩)
  | unknown => exact fadesTo_paint chromatic chromatic.deferred (by simp [Visible])

theorem fadesTo_namePart (chromatic : Chromatic palette) (token : Token) :
    Option.Rel FadesTo (namePart palette token) (namePart .plain token) := by
  rw [namePart, namePart]
  split
  · exact .none
  · exact .some (fadesTo_paint chromatic chromatic.name (visible_quote _))

/-- A part that is painted when it is there at all. -/
theorem fadesTo_map (chromatic : Chromatic palette) {α : Type} {colour plainColour : String}
    (sequence : ColourSequence colour.toList) {spell : α → List Char}
    (visible : ∀ a, Visible (spell a)) (value : Option α) :
    Option.Rel FadesTo (value.map fun a => palette.paint colour (spell a))
      (value.map fun a => Palette.plain.paint plainColour (spell a)) := by
  cases value with
  | none => exact .none
  | some a => exact .some (fadesTo_paint chromatic sequence (visible a))

theorem fadesTo_parts (chromatic : Chromatic palette) (token : Token) :
    List.Forall₂ FadesTo (parts palette token) (parts .plain token) := by
  have labelled (label : String) (visible : Visible label.toList) (id : Ident) :
      Visible (label.toList ++ decimal id.toNat) :=
    visible_append.mpr ⟨visible, visible_decimal _⟩
  apply List.rel_filterMap fun _ _ fades => fades
  refine .cons (fadesTo_namePart chromatic token) (.cons ?id (.cons ?xref (.cons ?scalar
    (.cons ?byteOrder (.cons (fadesTo_sizePart chromatic token)
      (.cons (.some (fadesTo_offsetPart chromatic token)) .nil))))))
  case id => exact fadesTo_map chromatic chromatic.muted (labelled _ (by simp [Visible])) _
  case xref => exact fadesTo_map chromatic chromatic.muted (labelled _ (by simp [Visible])) _
  case scalar => exact fadesTo_map chromatic chromatic.encoding visible_scalar _
  case byteOrder => exact fadesTo_map chromatic chromatic.encoding visible_label _

theorem fadesTo_description (chromatic : Chromatic palette) (token : Token) :
    FadesTo (description palette token) (description .plain token) := by
  rw [description, description]
  split
  · exact fadesTo_nil
  · exact fadesTo_flatMap_space (fadesTo_parts chromatic token)

/-! ## Lines -/

theorem fadesTo_line (chromatic : Chromatic palette) (width depth position : Nat) (token : Token) :
    FadesTo (line palette width depth position token)
      (line .plain width depth position token) := by
  have aligned := fadesTo_paint chromatic chromatic.muted
    (visible_alignRight width (visible_decimal position))
  have gap : FadesTo [' ', ' '] [' ', ' '] := fadesTo_of_not_mem (by decide)
  have ended : FadesTo ['\n'] ['\n'] := fadesTo_of_not_mem (by decide)
  exact ((((aligned.append gap).append (visible_spaces (2 * depth)).fadesTo).append
    (visible_signal token.signal).fadesTo).append
      (fadesTo_description chromatic token)).append ended

theorem fadesTo_lines (chromatic : Chromatic palette) (width depth position : Nat)
    (tokens : List Token) :
    List.Forall₂ FadesTo (lines palette width depth position tokens)
      (lines .plain width depth position tokens) := by
  induction tokens generalizing depth position with
  | nil => exact .nil
  | cons token rest ih => exact .cons (fadesTo_line chromatic _ _ _ _) (ih _ _)

/-- Escapes are control characters, and a plain listing has none but its line breaks. -/
theorem not_mem_listing_plain (s : TokenStream) : '\x1b' ∉ (s.listing .plain).toList := by
  rw [toList_listing_plain]
  intro listed
  obtain ⟨_, line_listed, listed⟩ := List.mem_flatten.mp listed
  obtain ⟨shown, shown_listed, rfl⟩ := List.mem_map.mp line_listed
  rcases List.mem_append.mp listed with listed | broken
  · exact (visible_of_mem_contents shown_listed).not_mem (by decide) listed
  · exact absurd broken (by decide)

end WireSchema.Listing

namespace WireSchema.TokenStream

open Listing

/-- A plain listing has no escape in it, whatever the names of its tokens hold, and the listing in
colour is the plain one once its colour sequences are deleted. -/
theorem listing_coloured (s : TokenStream) :
    '\x1b' ∉ (s.listing .plain).toList ∧
      withoutColours (s.listing .coloured).toList = (s.listing .plain).toList := by
  refine ⟨not_mem_listing_plain s, ?_⟩
  rw [listing, listing, String.toList_ofList, String.toList_ofList]
  exact (fadesTo_flatten (fadesTo_lines chromatic_coloured _ _ _ _)).withoutColours_eq

end WireSchema.TokenStream
