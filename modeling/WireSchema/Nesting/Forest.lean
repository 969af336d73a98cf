import WireSchema.Token

/-!
# Forests

The shape that a well-nested stream spells out: a forest of units, where a unit is a point (a leaf
or a marker) or an entity with units of its own. The tokens of a forest, written out in layout
order, form a stream; a forest is proper when its points are points and its entities are delimited
by the two signals of one kind.

Forests are what the flat algorithms are measured against: they have no positions, no stack and no
table, only recursion.
-/

namespace WireSchema

/-- Units in layout order. -/
inductive Forest
  | empty
  /-- A leaf or a marker, then the units behind it. -/
  | point (token : Token) (rest : Forest)
  /-- An entity with its units inside, then the units behind it. -/
  | entity (start : Token) (inside : Forest) (stop : Token) (rest : Forest)
  deriving DecidableEq, Repr

namespace Forest

/-- The stream that a forest spells out. -/
def tokens : Forest → TokenStream
  | empty => []
  | point token rest => token :: rest.tokens
  | entity start inside stop rest => start :: (inside.tokens ++ stop :: rest.tokens)

/-- Points are neither starts nor ends, and the start and the end of an entity are of one kind. -/
def Proper : Forest → Prop
  | empty => True
  | point token rest => token.signal.isStart = false ∧ token.signal.isEnd = false ∧ rest.Proper
  | entity start inside stop rest =>
    (∃ kind, start.signal = .start kind ∧ stop.signal = .stop kind) ∧ inside.Proper ∧ rest.Proper

end Forest

end WireSchema
