import WireSchema.Nesting.Scan
import WireSchema.Sequencing

/-!
# Layout

Offsets are relative to the enclosing entity. Within one entity a unit (a leaf, a marker or a
whole nested entity) sits behind the units before it; once a unit of varying size has been passed,
the offsets of all later units of that entity are unknown. A nested entity is of varying size when
it is a repeating group, when its start says so, or when it contains a unit of varying size;
otherwise it is as long as its units together. An end token shares the offset of its start.

The stream is walked once, with the progress of the innermost open entity and a stack of the
entities that are pending around it. The index is only consulted at end tokens.

Results:

1. `offsets_length`: every token gets one offset.
-/

namespace WireSchema

/-- Why a stream cannot be laid out. -/
inductive LayoutError
  /-- The stream is not well nested. -/
  | malformed (error : NestingError)
  /-- The index describes another stream. -/
  | foreignIndex (position : Nat)
  /-- The offset behind the unit that ends here does not fit in 32 bits. -/
  | overflow (position : Nat)
  deriving DecidableEq, Repr

def LayoutError.message : LayoutError → String
  | .malformed e => "resolution needs a validated stream: " ++ e.message
  | .foreignIndex position =>
    "index does not describe this stream (disagrees at position " ++ position.repr ++ ")"
  | .overflow position =>
    "offsets after position " ++ position.repr ++ " exceed 4294967295 bytes"

namespace Layout

/-- How far the layout of one entity has come. -/
inductive Progress
  | measured (bytes : UInt32)
  /-- A unit of varying size has been passed. -/
  | unmeasured
  deriving DecidableEq, Repr

namespace Progress

/-- The progress of an entity whose first unit comes next. -/
def zero : Progress := measured 0

/-- The offset of the unit that comes next. -/
def offset : Progress → Offset
  | measured bytes => .known bytes
  | unmeasured => .unknown

/-- The size of everything passed so far. -/
def size : Progress → Size
  | measured bytes => .fixed bytes
  | unmeasured => .varying

/-- Passes a unit that ends at a position. -/
def pass (position : Nat) : Progress → Size → Except LayoutError Progress
  | measured before, .fixed bytes =>
    if before.toNat + bytes.toNat < UInt32.size then .ok (measured (before + bytes))
    else .error (.overflow position)
  | _, _ => .ok unmeasured

end Progress

/-- An open entity, together with the suspended progress of the entity around it. -/
structure Suspended where
  position : Nat
  kind : EntityKind
  /-- The size that the start token declares. -/
  declared : Size
  /-- The progress of the enclosing entity, still at the start of this one. -/
  around : Progress
  deriving DecidableEq, Repr

/-- The size of an entity as its parent sees it, given the progress behind its last unit. -/
def Suspended.size (entity : Suspended) (inside : Progress) : Size :=
  if entity.kind = .group || entity.declared.isVarying then .varying else inside.size

/-- The offsets of the tokens from a position on. -/
def offsets (index : Index) (progress : Progress) (pending : List Suspended) (position : Nat) :
    List Token → Except LayoutError (List Offset)
  | [] =>
    match pending with
    | [] => .ok []
    | innermost :: _ => .error (.foreignIndex innermost.position)
  | token :: rest =>
    match token.signal with
    | .stop kind =>
      match pending with
      | [] => .error (.foreignIndex position)
      | innermost :: outer =>
        if index.startOf? position = some innermost.position ∧ innermost.kind = kind then do
          let around ← innermost.around.pass position (innermost.size progress)
          let later ← offsets index around outer (position + 1) rest
          return innermost.around.offset :: later
        else .error (.foreignIndex position)
    | .start kind => do
      let entity := ⟨position, kind, token.size, progress⟩
      let later ← offsets index .zero (entity :: pending) (position + 1) rest
      return progress.offset :: later
    | _ => do
      let behind ← progress.pass position token.size
      let later ← offsets index behind pending (position + 1) rest
      return progress.offset :: later

theorem offsets_length {index : Index} {progress : Progress} {pending : List Suspended}
    {position : Nat} {tokens : List Token} {found : List Offset}
    (h : offsets index progress pending position tokens = .ok found) :
    found.length = tokens.length := by
  induction tokens generalizing progress pending position found with
  | nil =>
    cases pending with
    | nil => cases h; rfl
    | cons => cases h
  | cons token rest ih =>
    rw [offsets] at h
    split at h
    · split at h
      · cases h
      · split at h
        · obtain ⟨around, _, h⟩ := bind_eq_ok_iff.mp h
          obtain ⟨later, later_eq, h⟩ := bind_eq_ok_iff.mp h
          cases h
          exact congrArg (· + 1) (ih later_eq)
        · cases h
    · obtain ⟨later, later_eq, h⟩ := bind_eq_ok_iff.mp h
      cases h
      exact congrArg (· + 1) (ih later_eq)
    · obtain ⟨behind, _, h⟩ := bind_eq_ok_iff.mp h
      obtain ⟨later, later_eq, h⟩ := bind_eq_ok_iff.mp h
      cases h
      exact congrArg (· + 1) (ih later_eq)

end Layout

namespace TokenStream

/-- Lays a stream out against an index: a copy of the stream with every offset freshly assigned.
The offsets that the tokens carried before are ignored. -/
def layOutWith (s : TokenStream) (index : Index) : Except LayoutError TokenStream :=
  if index.length = s.length then do
    let offsets ← Layout.offsets index .zero [] 0 s
    return List.zipWith Token.withOffset s offsets
  else
    .error (.foreignIndex (min index.length s.length))

/-- Indexes a stream and lays it out. An empty stream has the empty layout. -/
def layOut (s : TokenStream) : Except LayoutError TokenStream :=
  match s.index true with
  | .error e => .error (.malformed e)
  | .ok index => s.layOutWith index

end TokenStream

end WireSchema
