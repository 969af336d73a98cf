import WireSchema.Token

/-!
# Indexes

An index answers tree-shaped questions about a flat stream: how deep a position lies, which entity
encloses it, where its bracket partner is and which units an entity consists of. The stream itself
stays a flat list. An index is recorded position by position; the partner of a start is added when
its end is met.

Results:

1. `endOf?_gt`, `startOf?_lt`: an end lies behind its start.
-/

namespace WireSchema

/-- The structural facts about one position. -/
structure Place where
  /-- The number of enclosing entities, as a 32-bit count. A start and its end share a depth. -/
  depth : UInt32
  /-- The start of the innermost enclosing entity. -/
  parent : Option Nat
  /-- The end of a start token, the start of an end token. -/
  partner : Option Nat
  deriving DecidableEq, Repr

/-- The structural facts about every position of a stream. -/
structure Index where
  places : Array Place
  /-- The deepest level met; top-level units have depth zero. -/
  maxDepth : UInt32
  deriving DecidableEq, Repr

namespace Index

/-- The index before any position is recorded. -/
def empty : Index := ⟨#[], 0⟩

/-- Records the next position. No partner is known yet. -/
def push (i : Index) (depth : UInt32) (parent : Option Nat) : Index where
  places := i.places.push ⟨depth, parent, none⟩
  maxDepth := max i.maxDepth depth

/-- Links the start and the end of an entity. -/
def pair (i : Index) (start stop : Nat) : Index where
  places := (i.places.modify start fun p => { p with partner := some stop }).modify stop
    fun p => { p with partner := some start }
  maxDepth := i.maxDepth

def length (i : Index) : Nat := i.places.size

def isEmpty (i : Index) : Bool := i.places.isEmpty

@[simp] theorem length_empty : empty.length = 0 := rfl

@[simp] theorem length_push (i : Index) (depth : UInt32) (parent : Option Nat) :
    (i.push depth parent).length = i.length + 1 :=
  Array.size_push _

@[simp] theorem length_pair (i : Index) (start stop : Nat) :
    (i.pair start stop).length = i.length := by
  simp [pair, length]

/-- The number of entities that enclose a position. -/
def depth? (i : Index) (position : Nat) : Option UInt32 :=
  i.places[position]?.map Place.depth

/-- The start of the innermost entity that encloses a position. -/
def parent? (i : Index) (position : Nat) : Option Nat :=
  i.places[position]?.bind Place.parent

def partner? (i : Index) (position : Nat) : Option Nat :=
  i.places[position]?.bind Place.partner

/-- The end that closes the start at a position. -/
def endOf? (i : Index) (position : Nat) : Option Nat :=
  (i.partner? position).filter (position < ·)

/-- The start that the end at a position closes. -/
def startOf? (i : Index) (position : Nat) : Option Nat :=
  (i.partner? position).filter (· < position)

theorem endOf?_gt {i : Index} {position stop : Nat}
    (h : i.endOf? position = some stop) : position < stop := by
  simpa using (Option.filter_eq_some_iff.1 h).2

theorem startOf?_lt {i : Index} {position start : Nat}
    (h : i.startOf? position = some start) : start < position := by
  simpa using (Option.filter_eq_some_iff.1 h).2

/-- The position behind the unit at a position: behind its end, or the next one. -/
def next (i : Index) (position : Nat) : Nat :=
  (i.endOf? position).getD position + 1

theorem lt_next (i : Index) (position : Nat) : position < i.next position := by
  cases h : i.endOf? position with
  | none => simp [next, h]
  | some stop =>
    have := endOf?_gt h
    simp only [next, h, Option.getD_some]
    omega

/-- The units from a position up to a stop: each nested entity counts once, by its start. -/
def units (i : Index) (position stop : Nat) : List Nat :=
  if position < stop then position :: i.units (i.next position) stop else []
termination_by stop - position
decreasing_by
  have := i.lt_next position
  omega

/-- The direct children of the start at a position; none for any other token. -/
def children (i : Index) (position : Nat) : List Nat :=
  match i.endOf? position with
  | some stop => i.units (position + 1) stop
  | none => []

def roots (i : Index) : List Nat :=
  i.units 0 i.length

/-- Whether the signal at a position agrees with the partner recorded for it. -/
def fits (i : Index) (signals : Array Signal) (position : Nat) (signal : Signal) : Bool :=
  match i.partner? position with
  | some partner =>
    match signals[partner]? with
    | none => false
    | some other =>
      if position < partner then signal.closing == some other else signal.opening == some other
  | none => !signal.isStart && !signal.isEnd

/-- The first position where this index disagrees with the brackets of a stream. When the lengths
differ, that is the end of the shorter one. -/
def disagreement (i : Index) (s : TokenStream) : Option Nat :=
  if i.length = s.length then
    let signals := s.signals.toArray
    (s.signals.zipIdx.find? fun (signal, position) => !i.fits signals position signal).map Prod.snd
  else
    some (min i.length s.length)

end Index

end WireSchema
