import WireSchema.Nesting.Forest

/-!
# Exact layout

What the layout of a forest means, by recursion over its units and in natural numbers without a
bound. The bytes of an entity are those of its units together. They are not known when one of the
units varies, when the entity is a repeating group, or when its start declares so; a size declared
as fixed on a start and any size on an end do not count. A unit lies behind the units before it,
and its offset is known as long as all of their bytes are.

Results:

1. `offsets_length`: every token has one offset.
-/

namespace WireSchema

namespace Forest

/-- The number of bytes that a token itself stands for, when it is known. -/
def ownBytes (token : Token) : Option Nat :=
  token.size.bytes?.map UInt32.toNat

/-- The bytes of an entity, given those of its units together. -/
def entityBytes (start : Token) (inside : Option Nat) : Option Nat :=
  if start.signal = .start .group ∨ start.size = .varying then none else inside

/-- The offset behind a unit, given its own and the bytes of the unit. -/
def behind (offset bytes : Option Nat) : Option Nat :=
  offset.bind fun before => bytes.map (before + ·)

/-- The bytes of all units together. -/
def bytes : Forest → Option Nat
  | empty => some 0
  | point token rest => behind (ownBytes token) rest.bytes
  | entity start inside _ rest => behind (entityBytes start inside.bytes) rest.bytes

/-- The offset of every token, given the offset of the first unit. The two ends of an entity share
an offset, and its units start at zero. -/
def offsets (first : Option Nat) : Forest → List (Option Nat)
  | empty => []
  | point token rest => first :: rest.offsets (behind first (ownBytes token))
  | entity start inside _ rest =>
    first :: (inside.offsets (some 0)
      ++ first :: rest.offsets (behind first (entityBytes start inside.bytes)))

/-- Whether an offset is known and exceeds what 32 bits hold. -/
def exceeds (offset : Option Nat) : Bool :=
  offset.any (UInt32.size ≤ ·)

/-- The last positions of the units that end beyond what 32 bits hold, given the position and the
offset of the first unit. -/
def overflows (position : Nat) (first : Option Nat) : Forest → List Nat
  | empty => []
  | point token rest =>
    let next := behind first (ownBytes token)
    (if exceeds next then [position] else []) ++ rest.overflows (position + 1) next
  | entity start inside _ rest =>
    let stop := position + 1 + inside.tokens.length
    let next := behind first (entityBytes start inside.bytes)
    inside.overflows (position + 1) (some 0)
      ++ ((if exceeds next then [stop] else []) ++ rest.overflows (stop + 1) next)

theorem offsets_length (f : Forest) (first : Option Nat) :
    (f.offsets first).length = f.tokens.length := by
  induction f generalizing first with
  | empty => rfl
  | point token rest ih => simp [offsets, tokens, ih]
  | entity start inside stop rest inside_ih rest_ih => simp [offsets, tokens, inside_ih, rest_ih]

end Forest

end WireSchema
