import WireSchema.Binary.Container
import WireSchema.Json.Reading
import WireSchema.Json.Spelling
import WireSchema.Json.Value
import WireSchema.Layout.Exact
import WireSchema.Listing
import WireSchema.Proofs.Analysis.Passes
import WireSchema.Proofs.Binary.RoundTrip
import WireSchema.Proofs.Json.RoundTrip
import WireSchema.Proofs.Layout.Absolute
import WireSchema.Proofs.Layout.Foreign
import WireSchema.Proofs.Layout.Locality
import WireSchema.Proofs.Layout.Offsets
import WireSchema.Proofs.Layout.Overflow
import WireSchema.Proofs.Nesting.Defects
import WireSchema.Proofs.Nesting.Delimiting
import WireSchema.Proofs.Nesting.Enclosing
import WireSchema.Proofs.Nesting.Surroundings
import WireSchema.Proofs.Nesting.Walk
import WireSchema.Proofs.Reference.Anchors
import WireSchema.Proofs.Reference.Pairing
import WireSchema.Proofs.Analysis.Idempotence
import WireSchema.Proofs.Binary.Checksum
import WireSchema.Proofs.Binary.Damage
import WireSchema.Proofs.Record.Readers
import WireSchema.Proofs.Reference.Defects
import WireSchema.Proofs.Nesting.Units
import WireSchema.Proofs.Reference.Foreign
import WireSchema.Proofs.Listing.Indentation
import WireSchema.Proofs.Binary.Canonical
import WireSchema.Proofs.Text.Quoted
import WireSchema.Proofs.Listing.Faithful
import WireSchema.Proofs.Json.Rearrangement
import WireSchema.Proofs.Listing.Colours
import WireSchema.Proofs.Listing.Numbering
import WireSchema.Proofs.Analysis.Encodings
