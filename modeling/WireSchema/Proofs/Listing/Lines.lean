import WireSchema.Listing

/-!
# The lines of a listing

Every token is shown on one line. Nothing that a token says can break it: quoting leaves no control
character in a name, and all else is spelled in letters and digits. Cut at its line breaks, a plain
listing falls into what is shown of the tokens, each behind its position and at the depth that the
signals before it have led to.

Results:

1. `visible_content`: what is shown of a token has no control character.
2. `splitOn_listing`: the pieces of a listing between its line breaks, of which the last is empty,
   are what is shown of the tokens.
3. `getElem?_contents`, `getElem?_splitOn_listing`: what is shown at a position.
-/

namespace WireSchema.Listing

open Text

/-! ## No control characters -/

/-- A text without control characters. -/
def Visible (text : List Char) : Prop :=
  ∀ c ∈ text, 0x20 ≤ c.toNat

section

variable {text other : List Char} {c : Char}

theorem visible_nil : Visible [] :=
  fun _ listed => nomatch listed

theorem visible_cons : Visible (c :: text) ↔ 0x20 ≤ c.toNat ∧ Visible text :=
  List.forall_mem_cons

theorem visible_append : Visible (text ++ other) ↔ Visible text ∧ Visible other :=
  List.forall_mem_append

theorem Visible.not_mem (visible : Visible text) (control : c.toNat < 0x20) : c ∉ text :=
  fun listed => Nat.not_le_of_lt control (visible c listed)

theorem visible_spaces (n : Nat) : Visible (List.replicate n ' ') := by
  intro c listed
  rw [List.eq_of_mem_replicate listed]
  decide

theorem visible_decimal (n : Nat) : Visible (decimal n) :=
  fun _ => toDigits_ne_control

theorem visible_alignRight (width : Nat) (visible : Visible text) :
    Visible (alignRight width text) :=
  visible_append.mpr ⟨visible_spaces _, visible⟩

theorem visible_quote (text : List Char) : Visible (quote text) := by
  refine visible_append.mpr ⟨visible_cons.mpr ⟨by decide, ?_⟩, visible_cons.mpr
    ⟨by decide, visible_nil⟩⟩
  intro c listed
  obtain ⟨_, _, quoted⟩ := List.mem_flatMap.mp listed
  exact quoteChar_ne_control quoted

end

theorem visible_signal (signal : Signal) : Visible signal.name.toList := by
  cases signal with
  | start kind | stop kind => cases kind <;> simp [Visible, Signal.name]
  | _ => simp [Visible, Signal.name]

theorem visible_scalar (scalar : ScalarType) : Visible scalar.name.toList := by
  cases scalar <;> simp [Visible, ScalarType.name]

theorem visible_label (order : ByteOrder) : Visible order.label.toList := by
  cases order <;> simp [Visible, ByteOrder.label]

/-! ## Tokens -/

theorem visible_sizePart {token : Token} {part : List Char}
    (shown : sizePart .plain token = some part) : Visible part := by
  rw [sizePart] at shown
  split at shown
  · obtain rfl := Option.some.inj shown
    simp [Visible, Palette.paint_plain]
  · split at shown
    · cases shown
    · obtain rfl := Option.some.inj shown
      exact visible_append.mpr ⟨by simp [Visible], visible_decimal _⟩

theorem visible_offsetPart (token : Token) : Visible (offsetPart .plain token) := by
  rw [offsetPart]
  split
  · exact visible_cons.mpr ⟨by decide, visible_decimal _⟩
  · simp [Visible, Palette.paint_plain]

theorem visible_namePart {token : Token} {part : List Char}
    (shown : namePart .plain token = some part) : Visible part := by
  rw [namePart] at shown
  split at shown
  · cases shown
  · obtain rfl := Option.some.inj shown
    exact visible_quote _

theorem visible_part {token : Token} {part : List Char} (shown : part ∈ parts .plain token) :
    Visible part := by
  simp only [parts, List.mem_filterMap, List.mem_cons, List.not_mem_nil, or_false] at shown
  obtain ⟨_, rfl | rfl | rfl | rfl | rfl | rfl | rfl, shown⟩ := shown
  · exact visible_namePart shown
  · obtain ⟨id, _, rfl⟩ := Option.map_eq_some_iff.mp shown
    exact visible_append.mpr ⟨by simp [Visible], visible_decimal _⟩
  · obtain ⟨id, _, rfl⟩ := Option.map_eq_some_iff.mp shown
    exact visible_append.mpr ⟨by simp [Visible], visible_decimal _⟩
  · obtain ⟨scalar, _, rfl⟩ := Option.map_eq_some_iff.mp shown
    exact visible_scalar scalar
  · obtain ⟨order, _, rfl⟩ := Option.map_eq_some_iff.mp shown
    exact visible_label order
  · exact visible_sizePart shown
  · obtain rfl := Option.some.inj shown
    exact visible_offsetPart token

theorem visible_description (token : Token) : Visible (description .plain token) := by
  rw [description]
  split
  · exact visible_nil
  · intro c listed
    obtain ⟨part, shown, listed⟩ := List.mem_flatMap.mp listed
    exact visible_cons.mpr ⟨by decide, visible_part shown⟩ c listed

/-- What is shown of a token, up to the line break. -/
def content (width depth position : Nat) (token : Token) : List Char :=
  alignRight width (decimal position) ++ [' ', ' '] ++ List.replicate (2 * depth) ' '
    ++ token.signal.name.toList ++ description .plain token

theorem visible_content (width depth position : Nat) (token : Token) :
    Visible (content width depth position token) := by
  simp only [content, visible_append]
  exact ⟨⟨⟨⟨visible_alignRight width (visible_decimal position), by simp [Visible]⟩,
    visible_spaces _⟩, visible_signal _⟩, visible_description token⟩

theorem line_plain (width depth position : Nat) (token : Token) :
    line .plain width depth position token = content width depth position token ++ ['\n'] :=
  rfl

/-! ## Whole listings -/

/-- What is shown of the tokens from a position on. -/
def contents (width depth position : Nat) : List Token → List (List Char)
  | [] => []
  | token :: rest =>
    content width (shownDepth depth token.signal) position token
      :: contents width (depthBehind depth token.signal) (position + 1) rest

theorem lines_plain (width depth position : Nat) (tokens : List Token) :
    lines .plain width depth position tokens
      = (contents width depth position tokens).map fun shown => shown ++ ['\n'] := by
  induction tokens generalizing depth position with
  | nil => rfl
  | cons token rest ih => rw [lines, contents, List.map_cons, line_plain, ih]

theorem visible_of_mem_contents {width depth position : Nat} {tokens : List Token}
    {shown : List Char} (listed : shown ∈ contents width depth position tokens) :
    Visible shown := by
  induction tokens generalizing depth position with
  | nil => cases listed
  | cons token rest ih =>
    rcases List.mem_cons.mp listed with rfl | later
    · exact visible_content _ _ _ _
    · exact ih later

/-- Texts without line breaks are found again between the line breaks put behind them. -/
theorem splitOn_flatten {texts : List (List Char)} (unbroken : ∀ text ∈ texts, '\n' ∉ text) :
    ((texts.map fun text => text ++ ['\n']).flatten).splitOn '\n' = texts ++ [[]] := by
  induction texts with
  | nil => exact List.splitOn_nil '\n'
  | cons text others ih =>
    obtain ⟨here, later⟩ := List.forall_mem_cons.mp unbroken
    rw [List.map_cons, List.flatten_cons, List.append_assoc, List.singleton_append,
      List.splitOn_append_cons_self_of_not_mem here, ih later, List.cons_append]

/-- A listing is what is shown of its tokens, each with a line break behind it. -/
theorem toList_listing_plain (s : TokenStream) :
    (s.listing .plain).toList
      = ((contents (positionWidth s.length) 0 0 s).map fun shown => shown ++ ['\n']).flatten := by
  rw [TokenStream.listing, String.toList_ofList, lines_plain]

/-- Cut at its line breaks, a listing falls into what is shown of the tokens, and an empty rest. -/
theorem splitOn_listing (s : TokenStream) :
    (s.listing .plain).toList.splitOn '\n' = contents (positionWidth s.length) 0 0 s ++ [[]] := by
  rw [toList_listing_plain]
  exact splitOn_flatten fun text listed => (visible_of_mem_contents listed).not_mem (by decide)

theorem contents_length (width depth position : Nat) (tokens : List Token) :
    (contents width depth position tokens).length = tokens.length := by
  induction tokens generalizing depth position with
  | nil => rfl
  | cons token rest ih => rw [contents, List.length_cons, ih, List.length_cons]

/-- The depth that signals lead to from a depth. -/
def depthAfter (depth : Nat) (signals : List Signal) : Nat :=
  signals.foldl depthBehind depth

/-- What is shown at a position: the token there, at the depth that the signals before it have led
to. -/
theorem getElem?_contents (width depth position : Nat) (tokens : List Token) (k : Nat) :
    (contents width depth position tokens)[k]? = tokens[k]?.map fun token =>
      content width (shownDepth (depthAfter depth ((tokens.take k).map Token.signal)) token.signal)
        (position + k) token := by
  induction tokens generalizing depth position k with
  | nil => rfl
  | cons token rest ih =>
    cases k with
    | zero => rfl
    | succ k =>
      rw [contents, List.getElem?_cons_succ, List.getElem?_cons_succ, ih, List.take_succ_cons,
        List.map_cons, depthAfter, depthAfter, List.foldl_cons, Nat.add_right_comm, Nat.add_assoc]

/-- The line of a token. -/
theorem getElem?_splitOn_listing {s : TokenStream} {token : Token} {p : Nat}
    (found : s[p]? = some token) :
    ((s.listing .plain).toList.splitOn '\n')[p]?
      = some (content (positionWidth s.length)
        (shownDepth (depthAfter 0 ((s.take p).map Token.signal)) token.signal) p token) := by
  have within : p < (contents (positionWidth s.length) 0 0 s).length := by
    rw [contents_length]
    exact (List.getElem?_eq_some_iff.mp found).1
  rw [splitOn_listing, List.getElem?_append_left within, getElem?_contents, found,
    Option.map_some, Nat.zero_add]

end WireSchema.Listing
