import Mathlib.Data.List.Nodup
import WireSchema.Proofs.Json.RoundTrip

/-!
# Rearranged JSON

The reader of records looks every field up by its name, skips what it does not know and puts a
default in the place of what is missing. The same stream may therefore be told in many other texts:
the members of a record in another order, without those that only repeat the default, and with
members of someone else in between.

What has been collected at any time depends on the names met so far and on nothing else. One draft
for every list of names is the invariant that carries the reading of the members, in whatever order
they come.

Results:

1. `skipFault_of_spelled`: a value that follows the grammar is skipped without fault.
2. `RecordShape.readMembers_ofList`: the members of an object are read as the draft of the names
   among them.
3. `readMetadata_of_rearranged`, `readToken_of_rearranged`: a rearranged record is read as the
   record.
4. `ofJson_of_rearranged`: every text of a rearranged stream is read as the stream.
-/

namespace WireSchema.Json

/-! ## Members in any order -/

/-- A key with its value. -/
structure Member where
  key : List StringUnit
  value : Document

/-- The name that the key spells, unless a half of a character stands alone in it. -/
def Member.name? (m : Member) : Option String :=
  (characters? m.key).map String.ofList

/-- A complete object with these members. -/
def Members.ofList : List Member → Members
  | [] => .closed
  | m :: rest => .member m.key m.value (ofList rest)

/-- A complete array with these items. -/
def Items.ofList : List Document → Items
  | [] => .closed
  | value :: rest => .item value (ofList rest)

/-- A member that may be left out, because its absence says the same. -/
def Omissible (member : String × Value) : Prop :=
  member.1 ∈ ["primitive_type", "byte_order", "id", "xref_id", "description"] ∧ member.2 = .null ∨
    member = ("presence", ofWord Presence.required)

/-- A member that has none of these names. Its key has to spell a name: where a half of a character
stands alone in it, the text is refused before names are compared. Its value may be anything that
follows the grammar, such halves included. -/
structure Foreign (names : List String) (m : Member) : Prop where
  name : ∃ name, m.name? = some name ∧ name ∉ names
  value : ∃ text, Spelled m.value text

/-- Members that tell written ones, each by a document that tells its value, except for some that
may be left out. -/
inductive Told (Tells : Value → Document → Prop) : List (String × Value) → List Member → Prop
  | nil : Told Tells [] []
  | kept {name : String} {value : Value} {m : Member} {written : List (String × Value)}
    {told : List Member} :
    m.name? = some name → Tells value m.value → Told Tells written told →
    Told Tells ((name, value) :: written) (m :: told)
  | omitted {member : String × Value} {written : List (String × Value)} {told : List Member} :
    Omissible member → Told Tells written told → Told Tells (member :: written) told

/-- The documents that tell a value: as it is written, or with the objects in it rearranged. -/
inductive Rearranged : Value → Document → Prop
  | same (value : Value) : Rearranged value value.document
  | array {items : List Value} {docs : List Document} :
    List.Forall₂ Rearranged items docs → Rearranged (.array items) (.array (Items.ofList docs))
  /-- The members that are told stand in any order among foreign ones. -/
  | object {written : List (String × Value)} {told foreign members : List Member} :
    Told Rearranged written told → (∀ m ∈ foreign, Foreign (written.map Prod.fst) m) →
    members.Perm (told ++ foreign) → Rearranged (.object written) (.object (Members.ofList members))

/-! ## Rearranged values -/

/-- A member as it is written. -/
def Member.written (member : String × Value) : Member where
  key := member.1.toList.map writtenUnit
  value := member.2.document

theorem Member.name?_written (member : String × Value) :
    (Member.written member).name? = some member.1 := by
  rw [name?, written, characters?_writtenUnit, Option.map_some, String.ofList_toList]

theorem membersDocument_eq_ofList (members : List (String × Value)) :
    membersDocument members = Members.ofList (members.map Member.written) := by
  induction members with
  | nil => rfl
  | cons member rest ih => rw [membersDocument, ih, List.map_cons, Members.ofList, Member.written]

theorem itemsDocument_eq_ofList (items : List Value) :
    itemsDocument items = Items.ofList (items.map Value.document) := by
  induction items with
  | nil => rfl
  | cons item rest ih => rw [itemsDocument, ih, List.map_cons, Items.ofList]

/-- A written array tells another one when its items do. -/
theorem Rearranged.array_document {items others : List Value}
    (tells : List.Forall₂ (fun item other => Rearranged item other.document) items others) :
    Rearranged (.array items) (Value.array others).document := by
  rw [Value.document, itemsDocument_eq_ofList]
  exact .array (List.forall₂_map_right_iff.mpr tells)

/-- A written object tells another one when told members and foreign ones stand in it in some
order. -/
theorem Rearranged.object_document {written foreign members : List (String × Value)}
    (told : List (String × Value)) (tells : Told Rearranged written (told.map Member.written))
    (others : ∀ member ∈ foreign, member.1 ∉ written.map Prod.fst)
    (order : members.Perm (told ++ foreign)) :
    Rearranged (.object written) (Value.object members).document := by
  have foreign_written : ∀ m ∈ foreign.map Member.written, Foreign (written.map Prod.fst) m := by
    rw [List.forall_mem_map]
    intro member listed
    exact ⟨⟨member.1, Member.name?_written member, others member listed⟩,
      ⟨_, spelled_write .compact 0 member.2⟩⟩
  have order_written := order.map Member.written
  rw [List.map_append] at order_written
  rw [Value.document, membersDocument_eq_ofList]
  exact .object tells foreign_written order_written

/-! ## Skipped values -/

mutual

/-- A value that follows the grammar is skipped without fault. -/
theorem skipFault_of_spelled {doc : Document} {text : List Char} (h : Spelled doc text) :
    doc.skipFault = none := by
  cases h with
  | null | boolean | number | string | emptyArray | emptyObject => rfl
  | array spelled => exact skipFault_of_itemsSpelled spelled
  | object spelled => exact skipFault_of_membersSpelled spelled

theorem skipFault_of_itemsSpelled {items : Items} {text : List Char}
    (h : ItemsSpelled items text) : items.skipFault = none := by
  cases h with
  | last _ spelled _ =>
    rw [Items.skipFault, skipFault_of_spelled spelled]
    rfl
  | more _ spelled _ later =>
    rw [Items.skipFault, skipFault_of_spelled spelled]
    exact skipFault_of_itemsSpelled later

theorem skipFault_of_membersSpelled {members : Members} {text : List Char}
    (h : MembersSpelled members text) : members.skipFault = none := by
  cases h with
  | last member =>
    obtain ⟨_, _, _, _, spelled, _⟩ := member
    rw [Members.skipFault, skipFault_of_spelled spelled]
    rfl
  | more member later =>
    obtain ⟨_, _, _, _, spelled, _⟩ := member
    rw [Members.skipFault, skipFault_of_spelled spelled]
    exact skipFault_of_membersSpelled later

end

/-! ## Records -/

namespace RecordShape

variable {σ α : Type} {shape : RecordShape σ α} {draft : List String → σ}

/-- The field of a name. -/
def field? (shape : RecordShape σ α) (name : String) : Option (Field σ) :=
  shape.fields.find? fun field => field.name == name

theorem field?_name {name : String} {field : Field σ} (found : shape.field? name = some field) :
    field.name = name := by
  rw [field?] at found
  exact beq_iff_eq.mp (List.find?_some found :)

theorem field?_eq_none_iff {name : String} :
    shape.field? name = none ↔ name ∉ shape.fields.map Field.name := by
  simp [field?, List.find?_eq_none]

/-- A member adds its name to the names of a draft, whichever these are, or it is skipped. -/
inductive Takes (shape : RecordShape σ α) (draft : List String → σ) (m : Member) : Prop
  | skipped {name : String} :
    m.name? = some name → shape.field? name = none → m.value.skipFault = none → Takes shape draft m
  | read {name : String} {field : Field σ} :
    m.name? = some name → shape.field? name = some field →
    (∀ seen, field.read m.value (draft seen) = .ok (draft (name :: seen))) → Takes shape draft m

/-- The name of the field that a member tells. -/
def told? (shape : RecordShape σ α) (m : Member) : Option String :=
  m.name?.bind fun name => (shape.field? name).map Field.name

theorem told?_of_field? {m : Member} {name : String} {field : Field σ}
    (named : m.name? = some name) (found : shape.field? name = some field) :
    shape.told? m = some name := by
  rw [told?, named, Option.bind_some, found, Option.map_some, field?_name found]

theorem told?_of_foreign {m : Member} {name : String} (named : m.name? = some name)
    (unknown : shape.field? name = none) : shape.told? m = none := by
  rw [told?, named, Option.bind_some, unknown, Option.map_none]

theorem readMembers_skipped {m : Member} {name : String} {seen : List String} {collected : σ}
    {rest : Members} (named : m.name? = some name) (unknown : shape.field? name = none)
    (skipped : m.value.skipFault = none) :
    shape.readMembers seen collected (.member m.key m.value rest)
      = shape.readMembers seen collected rest := by
  obtain ⟨text, spelled, rfl⟩ := Option.map_eq_some_iff.mp named
  rw [field?] at unknown
  simp only [readMembers, spelled, unknown, skipped]

theorem readMembers_read {m : Member} {name : String} {field : Field σ} {seen : List String}
    {collected next : σ} {rest : Members} (named : m.name? = some name)
    (found : shape.field? name = some field) (fresh : name ∉ seen)
    (read : field.read m.value collected = .ok next) :
    shape.readMembers seen collected (.member m.key m.value rest)
      = shape.readMembers (name :: seen) next rest := by
  obtain ⟨text, spelled, rfl⟩ := Option.map_eq_some_iff.mp named
  rw [field?] at found
  simp only [readMembers, spelled, found, List.contains_iff_mem, fresh, if_false, read]

/-- Members that are all taken are read as the draft of the names among them, provided that no name
comes twice. -/
theorem readMembers_ofList {members : List Member} (taken : ∀ m ∈ members, shape.Takes draft m)
    {seen : List String} (distinct : ((members.filterMap shape.told?).reverse ++ seen).Nodup) :
    shape.readMembers seen (draft seen) (Members.ofList members)
      = (shape.finish (draft ((members.filterMap shape.told?).reverse ++ seen))).mapError
          fun lack => .data (.missingField lack.2) := by
  induction members generalizing seen with
  | nil => rfl
  | cons m rest ih =>
    obtain ⟨here, later⟩ := List.forall_mem_cons.mp taken
    rw [Members.ofList]
    cases here with
    | skipped named unknown skipped =>
      rw [List.filterMap_cons_none (told?_of_foreign named unknown)] at distinct ⊢
      rw [readMembers_skipped named unknown skipped, ih later distinct]
    | read named found read =>
      rw [List.filterMap_cons_some (told?_of_field? named found), List.reverse_cons,
        List.append_assoc, List.singleton_append] at distinct ⊢
      have fresh := (List.nodup_cons.mp (List.nodup_append.mp distinct).2.1).1
      rw [readMembers_read named found fresh (read seen), ih later distinct]

/-- Whatever tells a written member, it adds the name to the names of a draft. -/
def Adds (shape : RecordShape σ α) (draft : List String → σ) (member : String × Value) : Prop :=
  ∃ field, shape.field? member.1 = some field ∧ ∀ doc, Rearranged member.2 doc →
    ∀ seen, field.read doc (draft seen) = .ok (draft (member.1 :: seen))

/-- The fields of a shape are those of the written members, and each of them adds its name. -/
structure Drafts (shape : RecordShape σ α) (draft : List String → σ)
    (written : List (String × Value)) : Prop where
  empty : draft [] = shape.empty
  distinct : (written.map Prod.fst).Nodup
  known : shape.fields.map Field.name = written.map Prod.fst
  adds : ∀ member ∈ written, shape.Adds draft member

/-- Told members are taken, in the order of the written ones, and what they do not tell may be left
out. -/
theorem takes_of_told {written : List (String × Value)} {told : List Member}
    (h : Told Rearranged written told)
    (adds : ∀ member ∈ written, shape.Adds draft member) :
    (∀ m ∈ told, shape.Takes draft m) ∧
      (told.filterMap shape.told?).Sublist (written.map Prod.fst) ∧
      ∀ member ∈ written, member.1 ∈ told.filterMap shape.told? ∨ Omissible member := by
  induction h with
  | nil => simp
  | @kept name value m written told named tells _ ih =>
    obtain ⟨⟨field, found, read⟩, others⟩ := List.forall_mem_cons.mp adds
    obtain ⟨taken, ordered, complete⟩ := ih others
    rw [List.filterMap_cons_some (told?_of_field? named found)]
    refine ⟨List.forall_mem_cons.mpr ⟨.read named found (read _ tells), taken⟩,
      ordered.cons_cons _, List.forall_mem_cons.mpr ⟨.inl List.mem_cons_self, ?_⟩⟩
    exact fun member listed => (complete member listed).imp_left (List.mem_cons_of_mem _)
  | omitted omissible _ ih =>
    obtain ⟨-, others⟩ := List.forall_mem_cons.mp adds
    obtain ⟨taken, ordered, complete⟩ := ih others
    exact ⟨taken, ordered.cons _, List.forall_mem_cons.mpr ⟨.inr omissible, complete⟩⟩

/-- A rearranged record is read as a draft of all its names, up to some that may be left out. -/
theorem read_of_told {written : List (String × Value)} (drafts : shape.Drafts draft written)
    {told foreign members : List Member} (tells : Told Rearranged written told)
    (others : ∀ m ∈ foreign, Foreign (written.map Prod.fst) m)
    (rearranged : members.Perm (told ++ foreign)) :
    ∃ seen, (∀ member ∈ written, member.1 ∈ seen ∨ Omissible member) ∧
      shape.read (.object (Members.ofList members))
        = (shape.finish (draft seen)).mapError fun lack => .data (.missingField lack.2) := by
  obtain ⟨taken, ordered, complete⟩ := takes_of_told tells drafts.adds
  have skipped : ∀ m ∈ foreign, shape.Takes draft m ∧ shape.told? m = none := by
    intro m listed
    obtain ⟨⟨name, named, unknown⟩, ⟨text, spelled⟩⟩ := others m listed
    have unknown : shape.field? name = none := by
      rwa [field?_eq_none_iff, drafts.known]
    exact ⟨.skipped named unknown (skipFault_of_spelled spelled), told?_of_foreign named unknown⟩
  have all : ∀ m ∈ members, shape.Takes draft m := by
    intro m listed
    cases List.mem_append.mp (rearranged.subset listed) with
    | inl among => exact taken m among
    | inr among => exact (skipped m among).1
  have names : (members.filterMap shape.told?).Perm (told.filterMap shape.told?) := by
    have none_foreign : foreign.filterMap shape.told? = [] :=
      List.filterMap_eq_nil_iff.mpr fun m listed => (skipped m listed).2
    simpa [none_foreign] using rearranged.filterMap shape.told?
  have distinct : ((members.filterMap shape.told?).reverse ++ []).Nodup := by
    rw [List.append_nil, List.nodup_reverse, names.nodup_iff]
    exact ordered.nodup drafts.distinct
  refine ⟨(members.filterMap shape.told?).reverse ++ [], fun member listed => ?_, ?_⟩
  · rw [List.append_nil, List.mem_reverse, names.mem_iff]
    exact complete member listed
  · rw [read, ← drafts.empty, readMembers_ofList all distinct]

end RecordShape

/-! ## Single values -/

/-- A value without parts. -/
def Value.isSingle : Value → Bool
  | .array _ | .object _ => false
  | _ => true

/-- There is one document that tells a single value. -/
theorem Rearranged.eq_document {value : Value} {doc : Document} (h : Rearranged value doc)
    (single : value.isSingle) : doc = value.document := by
  cases h with
  | same => rfl
  | array | object => cases single

theorem isSingle_ofOption {α : Type} {value : α → Value} (single : ∀ a, (value a).isSingle)
    (o : Option α) : (ofOption value o).isSingle := by
  cases o with
  | none => rfl
  | some a => exact single a

theorem ofOption_eq_null {α : Type} {value : α → Value} (present : ∀ a, value a ≠ .null)
    {o : Option α} (absent : ofOption value o = .null) : o = none := by
  cases o with
  | none => rfl
  | some a => exact absurd absent (present a)

/-- The value of a field that is only left out when it is absent. -/
theorem given_of_told {α : Type} {value : α → Value} (present : ∀ a, value a ≠ .null)
    {name : String} (optional : name ≠ "presence") {o : Option α} {seen : List String}
    (told : name ∈ seen ∨ Omissible (name, ofOption value o)) :
    (if name ∈ seen then o else none) = o := by
  split
  · rfl
  · next missing =>
    rcases told.resolve_left missing with ⟨-, absent⟩ | required
    · exact (ofOption_eq_null present absent).symm
    · exact absurd (congrArg Prod.fst required) optional

/-- A field that may not be left out. -/
theorem mem_of_told {name : String} {value : Value} {seen : List String}
    (told : name ∈ seen ∨ Omissible (name, value)) (present : value ≠ .null)
    (optional : name ≠ "presence") : name ∈ seen := by
  refine told.resolve_right ?_
  rintro (⟨-, absent⟩ | required)
  · exact present absent
  · exact optional (congrArg Prod.fst required)

/-- A field of a single value adds its name when the value is read back from how it is written. -/
theorem RecordShape.Adds.of_single {σ α β : Type} {shape : RecordShape σ α}
    {draft : List String → σ} {name : String} {value : Value} (single : value.isSingle)
    {read : Reading β} {put : β → σ → σ}
    (found : shape.field? name = some ⟨name, fun doc c => do return put (← read doc) c⟩) {b : β}
    (read_value : read value.document = .ok b)
    (next : ∀ seen, put b (draft seen) = draft (name :: seen)) :
    shape.Adds draft (name, value) := by
  refine ⟨_, found, fun doc tells seen => ?_⟩
  rw [tells.eq_document single, ← next seen]
  exact read_into read_value fun b => put b (draft seen)

/-! ## Metadata -/

/-- What has been collected of metadata once these names have been met. -/
def draftMetadata (m : Metadata) (seen : List String) : MetadataDraft where
  name := if "name" ∈ seen then some m.name else none
  id := if "id" ∈ seen then m.id else none
  xref := if "xref_id" ∈ seen then m.xref else none
  presence := if "presence" ∈ seen then m.presence else default
  description := if "description" ∈ seen then m.description else none

theorem drafts_metadata {m : Metadata} {written : List (String × Value)}
    (same : ofMetadata m = .object written) :
    metadataShape.Drafts (draftMetadata m) written := by
  obtain rfl := Value.object.inj same
  have ident (id : Option Ident) : readOption readIdent (ofOption ofIdent id).document = .ok id :=
    readOption_document (by simp [ofIdent]) fun id _ => readIdent_document id
  have description : readOption readText (ofOption .string m.description).document
      = .ok m.description :=
    readOption_document (by simp) fun text _ => readText_document text
  refine ⟨rfl, by simp, rfl, ?_⟩
  simp only [List.forall_mem_cons, List.not_mem_nil, false_implies, implies_true, and_true]
  refine ⟨.of_single rfl rfl (readText_document m.name) fun seen => ?_,
    .of_single (isSingle_ofOption (fun _ => rfl) _) rfl (ident m.id) fun seen => ?_,
    .of_single (isSingle_ofOption (fun _ => rfl) _) rfl (ident m.xref) fun seen => ?_,
    .of_single rfl rfl (readWordOf_document m.presence) fun seen => ?_,
    .of_single (isSingle_ofOption (fun _ => rfl) _) rfl description fun seen => ?_⟩
  all_goals simp [draftMetadata]

theorem presence_of_told {presence : Presence} {seen : List String}
    (told : "presence" ∈ seen ∨ Omissible ("presence", ofWord presence)) :
    (if "presence" ∈ seen then presence else default) = presence := by
  split
  · rfl
  · next missing =>
    rcases told.resolve_left missing with ⟨listed, -⟩ | required
    · simp at listed
    · have named := Value.string.inj (congrArg Prod.snd required)
      exact (Vocabulary.name_injective _ _ named).symm

theorem finish_draftMetadata {m : Metadata} {written : List (String × Value)}
    (same : ofMetadata m = .object written) {seen : List String}
    (told : ∀ member ∈ written, member.1 ∈ seen ∨ Omissible member) :
    metadataShape.finish (draftMetadata m seen) = .ok m := by
  obtain rfl := Value.object.inj same
  simp only [List.forall_mem_cons, List.not_mem_nil, false_implies, implies_true, and_true] at told
  obtain ⟨name, id, xref, presence, description⟩ := told
  have complete : draftMetadata m seen
      = ⟨some m.name, m.id, m.xref, m.presence, m.description⟩ := by
    rw [draftMetadata, if_pos (mem_of_told name (by simp) (by decide)),
      given_of_told (by simp [ofIdent]) (by decide) id,
      given_of_told (by simp [ofIdent]) (by decide) xref, presence_of_told presence,
      given_of_told (by simp) (by decide) description]
  rw [complete]
  rfl

theorem readMetadata_of_rearranged {m : Metadata} {doc : Document}
    (h : Rearranged (ofMetadata m) doc) : readMetadata doc = .ok m := by
  generalize same : ofMetadata m = value at h
  cases h with
  | same =>
    rw [← same]
    exact readMetadata_document m
  | array => cases same
  | object tells others rearranged =>
    obtain ⟨seen, told, read⟩ :=
      RecordShape.read_of_told (drafts_metadata same) tells others rearranged
    rw [readMetadata, read, finish_draftMetadata same told]
    rfl

/-! ## Tokens -/

/-- What has been collected of a record once these names have been met. -/
def draftToken (r : Record) (size : Size) (offset : Offset) (seen : List String) : TokenDraft where
  signal := if "signal" ∈ seen then some r.signal else none
  scalar := if "primitive_type" ∈ seen then r.scalar else none
  size := if "size" ∈ seen then some size else none
  offset := if "offset" ∈ seen then some offset else none
  byteOrder := if "byte_order" ∈ seen then r.byteOrder else none
  metadata := if "metadata" ∈ seen then r.metadata else none

theorem readOption_metadata_of_rearranged {given : Option Metadata} {doc : Document}
    (h : Rearranged (ofOption ofMetadata given) doc) :
    readOption readMetadata doc = .ok given := by
  cases given with
  | none =>
    rw [h.eq_document rfl]
    rfl
  | some m =>
    have read := readMetadata_of_rearranged h
    obtain ⟨members, rfl⟩ : ∃ members, doc = .object members := by
      cases h with
      | same => exact ⟨_, rfl⟩
      | object => exact ⟨_, rfl⟩
    rw [readOption, read]
    · rfl
    all_goals simp

theorem drafts_token {r : Record} {size : Size} {offset : Offset}
    {written : List (String × Value)} (same : ofRecord r = .object written)
    (size_eq : Size.ofWire r.size = .ok size) (offset_eq : Offset.ofWire r.offset = .ok offset) :
    tokenShape.Drafts (draftToken r size offset) written := by
  obtain rfl := Value.object.inj same
  have scalar : readOption readWordOf (ofOption ofWord r.scalar).document = .ok r.scalar :=
    readOption_document (by simp [ofWord]) fun scalar _ => readWordOf_document scalar
  have byteOrder : readOption readWordOf (ofOption ofWord r.byteOrder).document
      = .ok r.byteOrder :=
    readOption_document (by simp [ofWord]) fun byteOrder _ => readWordOf_document byteOrder
  have size_read := readSize_document r.size
  rw [size_eq] at size_read
  have offset_read := readOffset_document r.offset
  rw [offset_eq] at offset_read
  refine ⟨rfl, by simp, rfl, ?_⟩
  simp only [List.forall_mem_cons, List.not_mem_nil, false_implies, implies_true, and_true]
  refine ⟨.of_single rfl rfl (readWordOf_document r.signal) fun seen => ?_,
    .of_single (isSingle_ofOption (fun _ => rfl) _) rfl scalar fun seen => ?_,
    .of_single rfl rfl size_read fun seen => ?_, .of_single rfl rfl offset_read fun seen => ?_,
    .of_single (isSingle_ofOption (fun _ => rfl) _) rfl byteOrder fun seen => ?_,
    ⟨_, rfl, fun doc tells seen => ?_⟩⟩
  case refine_6 =>
    refine (read_into (readOption_metadata_of_rearranged tells) _).trans (congrArg Except.ok ?_)
    simp [draftToken]
  all_goals simp [draftToken]

theorem finish_draftToken {r : Record} {size : Size} {offset : Offset}
    {written : List (String × Value)} (same : ofRecord r = .object written) {seen : List String}
    (told : ∀ member ∈ written, member.1 ∈ seen ∨ Omissible member) :
    tokenShape.finish (draftToken r size offset seen)
      = .ok (Token.make r.signal r.scalar size offset r.byteOrder r.metadata) := by
  obtain rfl := Value.object.inj same
  simp only [List.forall_mem_cons, List.not_mem_nil, false_implies, implies_true, and_true] at told
  obtain ⟨signal, scalar, size_told, offset_told, byteOrder, metadata⟩ := told
  have complete : draftToken r size offset seen
      = ⟨some r.signal, r.scalar, some size, some offset, r.byteOrder, r.metadata⟩ := by
    rw [draftToken, if_pos (mem_of_told signal (by simp [ofWord]) (by decide)),
      given_of_told (by simp [ofWord]) (by decide) scalar,
      if_pos (mem_of_told size_told (by simp) (by decide)),
      if_pos (mem_of_told offset_told (by simp) (by decide)),
      given_of_told (by simp [ofWord]) (by decide) byteOrder,
      given_of_told (by simp [ofMetadata]) (by decide) metadata]
  rw [complete]
  rfl

/-- A rearranged record is read as the token that the record stands for. -/
theorem readToken_of_rearranged {r : Record} {t : Token} (stands : r.toToken = .ok t)
    {doc : Document} (h : Rearranged (ofRecord r) doc) : readToken doc = .ok t := by
  generalize same : ofRecord r = value at h
  cases h with
  | same =>
    rw [← same, readToken_document, stands]
    rfl
  | array => cases same
  | object tells others rearranged =>
    have denotes := Record.toToken_eq_ok_iff.mp stands
    have size_eq := Size.ofWire_eq_ok_iff.mpr denotes.size
    have offset_eq := Offset.ofWire_eq_ok_iff.mpr denotes.offset
    obtain ⟨seen, told, read⟩ :=
      RecordShape.read_of_told (drafts_token same size_eq offset_eq) tells others rearranged
    rw [readToken, read, finish_draftToken same told]
    simp only [Record.toToken, size_eq, offset_eq] at stands
    split at stands
    · cases stands
    · next made =>
      cases stands
      rw [made]
      rfl

theorem readTokens_of_rearranged {records : List Record} {s : TokenStream}
    (stands : TokenStream.ofRecords records = .ok s) {docs : List Document}
    (h : List.Forall₂ Rearranged (records.map ofRecord) docs) :
    readTokens (Items.ofList docs) = .ok s := by
  induction records generalizing docs s with
  | nil =>
    cases h
    cases stands
    rfl
  | cons r rest ih =>
    cases h with
    | cons here behind =>
      obtain ⟨t, made, others⟩ := bind_eq_ok_iff.mp stands
      obtain ⟨later, later_eq, done⟩ := bind_eq_ok_iff.mp others
      cases done
      rw [Items.ofList, readTokens, readToken_of_rearranged made here, ih later_eq behind]
      rfl

theorem readStream_of_rearranged {records : List Record} {s : TokenStream}
    (stands : TokenStream.ofRecords records = .ok s) {doc : Document}
    (h : Rearranged (ofRecords records) doc) : readStream doc = .ok s := by
  generalize same : ofRecords records = value at h
  cases h with
  | same =>
    rw [← same, ofRecords, Value.document, readStream, readTokens_records, stands]
    rfl
  | object => cases same
  | array items =>
    obtain rfl := Value.array.inj same
    exact readTokens_of_rearranged stands items

end WireSchema.Json

namespace WireSchema.TokenStream

/-- Every text of a rearranged stream is read as the stream, provided that its tokens can be
built. -/
theorem ofJson_of_rearranged {s : TokenStream} (built : ∀ t ∈ s, t.Obtainable)
    {doc : Json.Document} (rearranged : Json.Rearranged (Json.ofRecords (s.map Token.toRecord)) doc)
    {text : List Char} (spelled : Json.TextOf doc text) : ofJson (String.ofList text) = .ok s := by
  rw [ofJson, Json.ofText_of_textOf spelled]
  exact Json.readStream_of_rearranged
    (ofRecords_toRecord fun t listed => Token.obtainable_iff.mp (built t listed)) rearranged

def scatteredLeaf : Token :=
  .leaf .uint16 .bigEndian ⟨"", some 7, none, .constant, some ""⟩

/-- The end of a group that is paired with the leaf behind it. -/
def scatteredMessage : TokenStream :=
  [.structural (.stop .group) ⟨"größe", none, some 7, .required, none⟩, scatteredLeaf]

/-- Foreign members, and then told ones from the back. -/
def turned (foreign told : List (String × Json.Value)) : Json.Value :=
  .object (foreign ++ told.reverse)

/-- The metadata of the group, of which everything absent is left out. -/
def toldMetadata : List (String × Json.Value) :=
  [("name", .string "größe"), ("xref_id", .integer 7)]

/-- The group. One foreign member of the metadata has a name that only tokens have. -/
def toldGroup : List (String × Json.Value) :=
  [("signal", .string "GROUP_END"), ("size", .integer 0), ("offset", .integer 0),
   ("metadata", turned [("size", .integer (-5))] toldMetadata)]

/-- One foreign member of the group comes twice. -/
def scattered : Json.Value :=
  .array [turned [("note", .array [.object [("signal", .null)], .string "\x01"]), ("note", .null)]
      toldGroup, Json.ofRecord scatteredLeaf.toRecord]

theorem rearranged_scattered :
    Json.Rearranged (Json.ofRecords (scatteredMessage.map Token.toRecord)) scattered.document := by
  have order (foreign told : List (String × Json.Value)) :
      (foreign ++ told.reverse).Perm (told ++ foreign) :=
    List.perm_append_comm.trans ((List.reverse_perm told).append_right foreign)
  have named := Json.Member.name?_written
  refine .array_document (.cons ?_ (.cons (.same _) .nil))
  refine .object_document toldGroup ?_ ?_ (order _ _)
  · refine .kept (named _) (.same _) (.omitted (.inl ⟨by simp, rfl⟩)
      (.kept (named _) (.same _) (.kept (named _) (.same _) (.omitted (.inl ⟨by simp, rfl⟩)
        (.kept (named _) ?_ .nil)))))
    refine .object_document toldMetadata ?_ (by simp) (order _ _)
    exact .kept (named _) (.same _) (.omitted (.inl ⟨by simp, rfl⟩)
      (.kept (named _) (.same _) (.omitted (.inr rfl) (.omitted (.inl ⟨by simp, rfl⟩) .nil))))
  · simp

/-- The scattered stream between blanks, on one line. -/
theorem scattered_ofJson :
    (∀ t ∈ scatteredMessage, t.Obtainable) ∧
      Json.Rearranged (Json.ofRecords (scatteredMessage.map Token.toRecord)) scattered.document ∧
      ofJson (String.ofList ('\t' :: (Json.write .compact 0 scattered ++ ['\n'])))
        = .ok scatteredMessage := by
  have built : ∀ t ∈ scatteredMessage, t.Obtainable :=
    List.forall_mem_cons.mpr ⟨.structural _ _, List.forall_mem_singleton.mpr (.leaf _ _ _)⟩
  have spelled : Json.TextOf scattered.document
      ('\t' :: (Json.write .compact 0 scattered ++ ['\n'])) :=
    ⟨['\t'], _, ['\n'], by simp [Json.Blank, Json.isBlank], Json.spelled_write .compact 0 _,
      by simp [Json.Blank, Json.isBlank], rfl⟩
  exact ⟨built, rearranged_scattered, ofJson_of_rearranged built rearranged_scattered spelled⟩

end WireSchema.TokenStream
