import WireSchema.Vocabulary

/-!
# Metadata

What a schema says about a token besides its role and encoding. The passes look only at the two
identifiers; name, presence and description are carried through for readers of the stream.
-/

namespace WireSchema

/-- The stable identifier of an entity, unique within one stream. -/
abbrev Ident := UInt32

/-- Whether a field has to be present in a message. -/
inductive Presence
  | required
  /-- The field may carry the null value of its type. -/
  | optional
  /-- The value is fixed by the schema and never encoded. -/
  | constant
  deriving DecidableEq, Repr

instance : Inhabited Presence := ⟨.required⟩

instance : Vocabulary Presence where
  terms := [.required, .optional, .constant]
  name
    | .required => "required"
    | .optional => "optional"
    | .constant => "constant"
  complete a := by cases a <;> decide
  name_injective a b h := by cases a <;> cases b <;> simp_all

/-- The metadata of one token. -/
structure Metadata where
  name : String
  id : Option Ident := none
  /-- The identifier of the token that this one is paired with. -/
  xref : Option Ident := none
  presence : Presence := default
  description : Option String := none
  deriving DecidableEq, Repr

namespace Metadata

def withId (m : Metadata) (id : Ident) : Metadata :=
  { m with id := some id }

/-- Names the token that this one is paired with. -/
def withXref (m : Metadata) (id : Ident) : Metadata :=
  { m with xref := some id }

def withPresence (m : Metadata) (presence : Presence) : Metadata :=
  { m with presence := presence }

def withDescription (m : Metadata) (text : String) : Metadata :=
  { m with description := some text }

/-- Drops the cross-reference and keeps everything else. -/
def withoutXref (m : Metadata) : Metadata :=
  { m with xref := none }

end Metadata

end WireSchema
