import WireSchema.Layout

/-!
# References

Tokens never point at each other. A token names its partner by identifier, and this pass turns the
names into positions: a repeating group and its entry count, data of varying length and its length
field. A reference has to be answered by a reference back. End tokens repeat their start and take
no part.
-/

namespace WireSchema

/-- Why the references of a stream cannot be paired. -/
inductive LinkError
  /-- The stream is malformed, or the index describes another stream. -/
  | unresolved (error : LayoutError)
  | repeatedId (id : Ident) (first second : Nat)
  | dangling (position : Nat) (id : Option Ident) (target : Ident)
  | anonymous (position : Nat) (target : Ident)
  | ownReference (position : Nat) (id : Ident)
  | unanswered (position : Nat) (id target : Ident) (targetPosition : Nat) (back : Option Ident)
  deriving DecidableEq, Repr

def LinkError.message : LinkError → String
  | .unresolved e => e.message
  | .repeatedId id first second =>
    "id " ++ id.toNat.repr ++ " used at position " ++ first.repr ++ " and again at position "
      ++ second.repr
  | .dangling position _ target =>
    "token at position " ++ position.repr ++ " references id " ++ target.toNat.repr
      ++ ", which does not exist"
  | .anonymous position target =>
    "token at position " ++ position.repr ++ " references id " ++ target.toNat.repr
      ++ " but has no id of its own"
  | .ownReference position id =>
    "token at position " ++ position.repr ++ " (id " ++ id.toNat.repr ++ ") references itself"
  | .unanswered position id target targetPosition back =>
    "id " ++ id.toNat.repr ++ " at position " ++ position.repr ++ " references id "
      ++ target.toNat.repr ++ " at position " ++ targetPosition.repr ++ ", "
      ++ match back with
        | some other => "which references id " ++ other.toNat.repr ++ " instead"
        | none => "which has no back-reference"

namespace Reference

/-- Where an identifier is carried, and what the token there references in turn. -/
structure Anchor where
  position : Nat
  back : Option Ident
  deriving DecidableEq, Repr

/-- The anchors of the identifiers met, the latest first. -/
abbrev Anchors := List (Ident × Anchor)

/-- Adds the identifiers of the tokens from a position on. -/
def anchors (known : Anchors) (position : Nat) : List Token → Except LinkError Anchors
  | [] => .ok known
  | token :: rest =>
    match token.signal.isEnd, token.id with
    | false, some id =>
      match known.lookup id with
      | some first => .error (.repeatedId id first.position position)
      | none => anchors ((id, ⟨position, token.xref⟩) :: known) (position + 1) rest
    | _, _ => anchors known (position + 1) rest

/-- The partner of the token at a position that references a target. -/
def partner (known : Anchors) (position : Nat) (id : Option Ident) (target : Ident) :
    Except LinkError Nat :=
  match known.lookup target with
  | none => .error (.dangling position id target)
  | some anchor =>
    match id with
    | none => .error (.anonymous position target)
    | some id =>
      if anchor.position = position then .error (.ownReference position id)
      else if anchor.back = some id then .ok anchor.position
      else .error (.unanswered position id target anchor.position anchor.back)

/-- What is paired among the tokens from a position on. -/
structure Pairing where
  /-- The partner of every token. -/
  partners : List (Option Nat)
  /-- Every pair once, the lower position first, ordered by that position. -/
  pairs : List (Nat × Nat)

namespace Pairing

def empty : Pairing := ⟨[], []⟩

/-- Records the partner of the token at a position, in front of what is paired behind it. The pair
is listed with the first of its two tokens. -/
def record (later : Pairing) (position : Nat) (entry : Option Nat) : Pairing where
  partners := entry :: later.partners
  pairs :=
    match entry with
    | some partner =>
      if position < partner then (position, partner) :: later.pairs else later.pairs
    | none => later.pairs

end Pairing

/-- Pairs the tokens from a position on. -/
def pairing (known : Anchors) (position : Nat) : List Token → Except LinkError Pairing
  | [] => .ok .empty
  | token :: rest =>
    match token.signal.isEnd, token.xref with
    | false, some target => do
      let found ← partner known position token.id target
      let later ← pairing known (position + 1) rest
      return later.record position (some found)
    | _, _ => do
      let later ← pairing known (position + 1) rest
      return later.record position none

end Reference

/-- The resolved references of one stream. -/
structure Links where
  anchors : Reference.Anchors
  partners : Array (Option Nat)
  /-- Every pair once, the lower position first, ordered by that position. -/
  pairs : List (Nat × Nat)
  deriving DecidableEq, Repr

namespace Links

def partner? (x : Links) (position : Nat) : Option Nat :=
  x.partners[position]?.join

def positionOf? (x : Links) (id : Ident) : Option Nat :=
  (x.anchors.lookup id).map Reference.Anchor.position

/-- The number of pairs. -/
def length (x : Links) : Nat := x.pairs.length

def isEmpty (x : Links) : Bool := x.pairs.isEmpty

end Links

namespace TokenStream

/-- Checks that an index describes exactly the brackets of a stream. -/
def checkIndex (s : TokenStream) (index : Index) : Except LayoutError Unit :=
  match index.disagreement s with
  | some position => .error (.foreignIndex position)
  | none => .ok ()

/-- Pairs the references of a stream whose brackets are taken for granted. Duplicate identifiers
are reported before any broken reference. -/
def pairReferences (s : TokenStream) : Except LinkError Links := do
  let anchors ← Reference.anchors [] 0 s
  let paired ← Reference.pairing anchors 0 s
  return ⟨anchors, paired.partners.toArray, paired.pairs⟩

/-- Pairs the references of a stream against an index. -/
def linkWith (s : TokenStream) (index : Index) : Except LinkError Links := do
  (s.checkIndex index).mapError .unresolved
  s.pairReferences

/-- Indexes a stream and pairs its references. -/
def link (s : TokenStream) : Except LinkError Links :=
  match s.index true with
  | .error e => .error (.unresolved (.malformed e))
  | .ok index => s.linkWith index

end TokenStream

end WireSchema
