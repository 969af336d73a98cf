import WireSchema.Palette
import WireSchema.Text.Quoted
import WireSchema.Token

/-!
# Listings

A listing shows a stream one token per line: the position, right-aligned; the signal, indented by
nesting depth; then what the token says. End tokens show only their signal. Any stream can be
listed, well nested or not: the depth stays at zero on stray end tokens.
-/

namespace WireSchema

namespace Listing

open Text

/-- A text moved to the right end of a column. -/
def alignRight (width : Nat) (text : List Char) : List Char :=
  List.replicate (width - text.length) ' ' ++ text

/-- The logarithm to base ten, rounded down. -/
def log10 (n : Nat) : Nat :=
  if n < 10 then 0 else log10 (n / 10) + 1

/-- The width of the position column, by the number of tokens. -/
def positionWidth (count : Nat) : Nat :=
  log10 (max (count - 1) 1) + 1

/-- The shown size, unless it is the zero size of a token that is no leaf. -/
def sizePart (palette : Palette) (token : Token) : Option (List Char) :=
  match token.size with
  | .varying => some (palette.paint palette.deferred "size=var".toList)
  | .fixed bytes =>
    if bytes = 0 ∧ token.signal ≠ .encoding then none
    else some (palette.paint palette.muted ("size=".toList ++ decimal bytes.toNat))

def offsetPart (palette : Palette) (token : Token) : List Char :=
  match token.offset with
  | .known bytes => palette.paint palette.muted ('@' :: decimal bytes.toNat)
  | .unknown => palette.paint palette.deferred "@?".toList

/-- The shown name, unless it is empty. -/
def namePart (palette : Palette) (token : Token) : Option (List Char) :=
  if token.name = "" then none else some (palette.paint palette.name (quote token.name.toList))

/-- What a token says about itself, part by part. -/
def parts (palette : Palette) (token : Token) : List (List Char) :=
  [namePart palette token,
   token.id.map fun id => palette.paint palette.muted ("id=".toList ++ decimal id.toNat),
   token.xref.map fun id => palette.paint palette.muted ("xref=".toList ++ decimal id.toNat),
   token.scalar.map fun scalar => palette.paint palette.encoding scalar.name.toList,
   token.byteOrder.map fun order => palette.paint palette.encoding order.label.toList,
   sizePart palette token,
   some (offsetPart palette token)].filterMap fun part => part

/-- The parts of a token, each behind a space; nothing for an end token. -/
def description (palette : Palette) (token : Token) : List Char :=
  if token.signal.isEnd then [] else (parts palette token).flatMap fun part => ' ' :: part

def line (palette : Palette) (width depth position : Nat) (token : Token) : List Char :=
  palette.paint palette.muted (alignRight width (decimal position)) ++ [' ', ' ']
    ++ List.replicate (2 * depth) ' ' ++ token.signal.name.toList ++ description palette token
    ++ ['\n']

/-- The depth at which a token is shown, given the depth reached before it. -/
def shownDepth (depth : Nat) (signal : Signal) : Nat :=
  if signal.isEnd then depth - 1 else depth

/-- The depth reached behind a token. -/
def depthBehind (depth : Nat) (signal : Signal) : Nat :=
  if signal.isEnd then depth - 1 else if signal.isStart then depth + 1 else depth

/-- The lines of the tokens from a position on. -/
def lines (palette : Palette) (width depth position : Nat) : List Token → List (List Char)
  | [] => []
  | token :: rest =>
    line palette width (shownDepth depth token.signal) position token
      :: lines palette width (depthBehind depth token.signal) (position + 1) rest

end Listing

def TokenStream.listing (s : TokenStream) (palette : Palette) : String :=
  String.ofList (Listing.lines palette (Listing.positionWidth s.length) 0 0 s).flatten

end WireSchema
