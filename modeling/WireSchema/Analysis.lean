import WireSchema.Reference

/-!
# Analysis

All passes over one stream under one policy: nesting, then layout, then references.
-/

namespace WireSchema

/-- What the analysis accepts. -/
structure Policy where
  /-- Whether a stream without tokens is an entity without content. -/
  allowEmpty : Bool := false
  deriving DecidableEq, Repr

instance : Inhabited Policy := ⟨{}⟩

/-- Why a stream is refused, by the pass that refuses it. -/
inductive AnalysisError
  | nesting (error : NestingError)
  | layout (error : LayoutError)
  | links (error : LinkError)
  deriving DecidableEq, Repr

/-- The text of the error: the pass, and what it found. -/
def AnalysisError.message : AnalysisError → String
  | .nesting e => "malformed stream: " ++ e.message
  | .layout e => "offset resolution failed: " ++ e.message
  | .links e => "cross-reference resolution failed: " ++ e.message

/-- A stream that is well nested, laid out and linked. -/
structure Analysis where
  stream : TokenStream
  index : Index
  links : Links
  deriving DecidableEq, Repr

namespace Analysis

/-- The token that the token at a position is paired with. -/
def partnerOf? (a : Analysis) (position : Nat) : Option Token :=
  (a.links.partner? position).bind fun q => a.stream[q]?

end Analysis

/-- Indexes a stream, lays it out and pairs its references, against that one index. -/
def TokenStream.analyse (s : TokenStream) (policy : Policy) : Except AnalysisError Analysis := do
  let index ← (s.index policy.allowEmpty).mapError .nesting
  let stream ← (s.layOutWith index).mapError .layout
  (stream.checkIndex index).mapError .layout
  let links ← stream.pairReferences.mapError .links
  return ⟨stream, index, links⟩

end WireSchema
