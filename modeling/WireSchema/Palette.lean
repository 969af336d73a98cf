/-!
# Palettes

The colours of a listing carry meaning: `name` marks names from the metadata, `encoding` the
scalar type and byte order of leaves, `muted` positions, identifiers, sizes and offsets, and
`deferred` sizes and offsets that are only known at run time.
-/

namespace WireSchema

/-- The escape sequences that switch to each colour, and the one that switches back. -/
structure Palette where
  name : String
  encoding : String
  muted : String
  deferred : String
  reset : String
  deriving DecidableEq, Repr

namespace Palette

/-- Standard sixteen-colour escapes, legible on light and dark terminals. -/
def coloured : Palette where
  name := "\x1b[34m"
  encoding := "\x1b[32m"
  muted := "\x1b[2m"
  deferred := "\x1b[33m"
  reset := "\x1b[0m"

def plain : Palette where
  name := ""
  encoding := ""
  muted := ""
  deferred := ""
  reset := ""

def ofBool (enabled : Bool) : Palette :=
  if enabled then coloured else plain

/-- Listings are plain unless told otherwise. -/
instance : Inhabited Palette := ⟨plain⟩

def isEnabled (p : Palette) : Bool :=
  p.reset ≠ ""

/-- A text in a colour, or untouched when the palette has none. -/
def paint (p : Palette) (colour : String) (text : List Char) : List Char :=
  if p.isEnabled then colour.toList ++ text ++ p.reset.toList else text

theorem paint_plain (colour : String) (text : List Char) : plain.paint colour text = text :=
  rfl

end Palette

end WireSchema
