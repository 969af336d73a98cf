import WireSchema.Proofs.Layout.Absolute
import WireSchema.Proofs.Nesting.Surroundings

/-!
# Offsets are local

An entity is laid out as if it were a stream of its own. To the units around it, it is one unit that
ends where its own end stands, and all that they learn of its inside is its size. The inside may
therefore be replaced by any other one of the same extent, and by any other one at all when the
entity is of varying size whatever it contains.

Results:

1. `layOut_at`: no offset depends on the position at which a layout begins.
2. `layOut_fill`: a forest is laid out around an entity in the same way, whatever the entity
   contains, as long as the entity keeps its size.
3. `layOut_local`: both halves for a whole stream.
-/

namespace WireSchema

open Layout

namespace Layout.Progress

/-- A position is only needed to say where a layout has failed. -/
theorem pass_at {position : Nat} {progress next : Progress} {size : Size}
    (passed : progress.pass position size = .ok next) (other : Nat) :
    progress.pass other size = .ok next := by
  cases progress with
  | unmeasured => exact passed
  | measured before =>
    cases size with
    | varying => exact passed
    | fixed bytes =>
      rw [pass] at passed ⊢
      split at passed
      · next fits =>
        rw [if_pos fits]
        exact passed
      · cases passed

theorem exact_injective {progress other : Progress} (same : progress.exact = other.exact) :
    progress = other := by
  cases progress with
  | unmeasured =>
    cases other with
    | unmeasured => rfl
    | measured bytes => cases same
  | measured bytes =>
    cases other with
    | unmeasured => cases same
    | measured more => rw [UInt32.toNat_inj.mp (Option.some.inj same)]

end Layout.Progress

namespace Forest

variable {position : Nat} {progress : Progress} {laid : Laid} {f : Forest}

/-! ## Laying out one unit after the other -/

theorem layOut_point_eq_ok_iff {token : Token} {rest : Forest} :
    (point token rest).layOut position progress = .ok laid ↔
      ∃ next later, progress.pass position token.size = .ok next ∧
        rest.layOut (position + 1) next = .ok later ∧
        laid = ⟨later.behind, progress.offset :: later.offsets⟩ := by
  rw [layOut]
  simp only [bind_eq_ok_iff]
  constructor
  · rintro ⟨next, passed, later, later_eq, done⟩
    exact ⟨next, later, passed, later_eq, (Except.ok.inj done).symm⟩
  · rintro ⟨next, later, passed, later_eq, rfl⟩
    exact ⟨next, passed, later, later_eq, rfl⟩

theorem layOut_entity_eq_ok_iff {start stop : Token} {inside rest : Forest} :
    (entity start inside stop rest).layOut position progress = .ok laid ↔
      ∃ within next later, inside.layOut (position + 1) .zero = .ok within ∧
        progress.pass (position + 1 + inside.tokens.length) (entitySize start within.behind)
          = .ok next ∧
        rest.layOut (position + 1 + inside.tokens.length + 1) next = .ok later ∧
        laid = ⟨later.behind,
          progress.offset :: (within.offsets ++ progress.offset :: later.offsets)⟩ := by
  rw [layOut]
  simp only [bind_eq_ok_iff]
  constructor
  · rintro ⟨within, within_eq, next, passed, later, later_eq, done⟩
    exact ⟨within, next, later, within_eq, passed, later_eq, (Except.ok.inj done).symm⟩
  · rintro ⟨within, next, later, within_eq, passed, later_eq, rfl⟩
    exact ⟨within, within_eq, next, passed, later, later_eq, rfl⟩

/-- A forest is laid out in the same way wherever it stands. -/
theorem layOut_at (done : f.layOut position progress = .ok laid) (other : Nat) :
    f.layOut other progress = .ok laid := by
  induction f generalizing position progress laid other with
  | empty => exact done
  | point token rest ih =>
    obtain ⟨next, later, passed, later_eq, rfl⟩ := layOut_point_eq_ok_iff.mp done
    exact layOut_point_eq_ok_iff.mpr
      ⟨next, later, Progress.pass_at passed other, ih later_eq _, rfl⟩
  | entity start inside stop rest inside_ih rest_ih =>
    obtain ⟨within, next, later, within_eq, passed, later_eq, rfl⟩ :=
      layOut_entity_eq_ok_iff.mp done
    exact layOut_entity_eq_ok_iff.mpr
      ⟨within, next, later, inside_ih within_eq _, Progress.pass_at passed _, rest_ih later_eq _,
        rfl⟩

/-! ## Extents -/

/-- The bytes of every top-level unit. -/
def unitBytes : Forest → List (Option Nat)
  | empty => []
  | point token rest => ownBytes token :: rest.unitBytes
  | entity start inside _ rest => entityBytes start inside.bytes :: rest.unitBytes

/-- Both forests have a top-level unit of varying size, or neither has and the sizes of the
top-level units have the same sum. -/
def SameExtent (f g : Forest) : Prop :=
  none ∈ f.unitBytes ∧ none ∈ g.unitBytes ∨
    none ∉ f.unitBytes ∧ none ∉ g.unitBytes ∧
      (f.unitBytes.map fun count => count.getD 0).sum
        = (g.unitBytes.map fun count => count.getD 0).sum

theorem total_unitBytes (f : Forest) : total f.unitBytes = f.bytes := by
  induction f with
  | empty => rfl
  | point token rest ih => rw [unitBytes, total_cons, ih, bytes]
  | entity start inside stop rest _ ih => rw [unitBytes, total_cons, ih, bytes]

theorem bytes_eq_none_of_mem (varies : none ∈ f.unitBytes) : f.bytes = none := by
  rw [← total_unitBytes]
  exact Classical.byContradiction fun known => total_ne_none_iff.mp known none varies rfl

theorem bytes_eq_sum_of_not_mem (fixed : none ∉ f.unitBytes) :
    f.bytes = some (f.unitBytes.map fun count => count.getD 0).sum := by
  rw [← total_unitBytes]
  refine total_eq_some_iff.mpr ⟨?_, rfl⟩
  rintro count listed rfl
  exact fixed listed

theorem SameExtent.bytes_eq {g : Forest} (same : f.SameExtent g) : f.bytes = g.bytes := by
  rcases same with ⟨f_varies, g_varies⟩ | ⟨f_fixed, g_fixed, sums⟩
  · rw [bytes_eq_none_of_mem f_varies, bytes_eq_none_of_mem g_varies]
  · rw [bytes_eq_sum_of_not_mem f_fixed, bytes_eq_sum_of_not_mem g_fixed, sums]

/-- An entity keeps its size when its inside is replaced, as long as it varies anyway or the two
insides have the same extent. -/
theorem entitySize_of_sameExtent {start : Token} {inside other : Forest} {within content : Laid}
    (within_eq : inside.layOut 0 .zero = .ok within)
    (content_eq : other.layOut 0 .zero = .ok content)
    (same : start.StartsVarying ∨ inside.SameExtent other) :
    entitySize start content.behind = entitySize start within.behind := by
  rcases same with varies | extent
  · have passed (inside : Progress) : entitySize start inside = .varying := if_pos varies
    rw [passed, passed]
  · have counted : content.behind.exact = within.behind.exact := by
      rw [behind_of_layOut within_eq, behind_of_layOut content_eq, extent.bytes_eq]
    rw [Progress.exact_injective counted]

/-! ## Around an entity -/

/-- When a forest can be laid out, so can the inside of each of its entities on its own, and its
offsets are a part of those of the forest. Any other inside that can be laid out and leaves the
entity its size takes that part over, and nothing else changes. -/
theorem layOut_fill {c : Surroundings} {inside : Forest}
    (done : (c.fill inside).layOut position progress = .ok laid) :
    ∃ (within : Laid) (front back : List Offset), inside.layOut 0 .zero = .ok within ∧
      front.length = c.front.length + 1 ∧ laid.offsets = front ++ (within.offsets ++ back) ∧
      ∀ (other : Forest) (content : Laid), other.layOut 0 .zero = .ok content →
        entitySize c.start content.behind = entitySize c.start within.behind →
        (c.fill other).layOut position progress
          = .ok ⟨laid.behind, front ++ (content.offsets ++ back)⟩ := by
  induction c generalizing position progress laid with
  | gap start stop rest =>
    obtain ⟨within, next, later, within_eq, passed, later_eq, rfl⟩ :=
      layOut_entity_eq_ok_iff.mp done
    refine ⟨within, [progress.offset], progress.offset :: later.offsets, layOut_at within_eq 0, rfl,
      rfl, fun other content content_eq same => layOut_entity_eq_ok_iff.mpr ?_⟩
    refine ⟨content, next, later, layOut_at content_eq _, ?_, layOut_at later_eq _, rfl⟩
    rw [show entitySize start content.behind = entitySize start within.behind from same]
    exact Progress.pass_at passed _
  | behindPoint token later ih =>
    obtain ⟨next, behind, passed, behind_eq, rfl⟩ := layOut_point_eq_ok_iff.mp done
    obtain ⟨within, front, back, within_eq, sized, split, refilled⟩ := ih behind_eq
    refine ⟨within, progress.offset :: front, back, within_eq, congrArg (· + 1) sized,
      congrArg (progress.offset :: ·) split, fun other content content_eq same => ?_⟩
    exact layOut_point_eq_ok_iff.mpr
      ⟨next, _, passed, refilled other content content_eq same, rfl⟩
  | behindEntity first whole last later ih =>
    obtain ⟨before, next, behind, before_eq, passed, behind_eq, rfl⟩ :=
      layOut_entity_eq_ok_iff.mp done
    obtain ⟨within, front, back, within_eq, sized, split, refilled⟩ := ih behind_eq
    have count := length_of_layOut before_eq
    refine ⟨within, progress.offset :: (before.offsets ++ progress.offset :: front), back,
      within_eq, ?_, ?_, fun other content content_eq same => ?_⟩
    · simp only [Surroundings.front, List.length_cons, List.length_append, count, sized]
      omega
    · simp only [split, List.cons_append, List.append_assoc]
    · refine layOut_entity_eq_ok_iff.mpr
        ⟨before, next, _, before_eq, passed, refilled other content content_eq same, ?_⟩
      simp only [List.cons_append, List.append_assoc]
  | within first inner last rest ih =>
    obtain ⟨around, next, behind, around_eq, passed, behind_eq, rfl⟩ :=
      layOut_entity_eq_ok_iff.mp done
    obtain ⟨within, front, back, within_eq, sized, split, refilled⟩ := ih around_eq
    refine ⟨within, progress.offset :: front, back ++ progress.offset :: behind.offsets, within_eq,
      congrArg (· + 1) sized, ?_, fun other content content_eq same => ?_⟩
    · simp only [split, List.cons_append, List.append_assoc]
    · -- the entity around the gap is as long as before, but its end may have moved
      refine layOut_entity_eq_ok_iff.mpr ⟨_, next, behind, refilled other content content_eq same,
        Progress.pass_at passed _, layOut_at behind_eq _, ?_⟩
      simp only [List.cons_append, List.append_assoc]

end Forest

/-! ## Whole streams -/

namespace TokenStream

theorem exists_laid_of_layOut {s r : TokenStream} (laid : s.layOut = .ok r) :
    ∃ (f : Forest) (found : Laid), f.Proper ∧ f.tokens = s ∧ f.layOut 0 .zero = .ok found ∧
      r.map Token.offset = found.offsets := by
  obtain ⟨f, proper, rfl⟩ := exists_forest_of_layOut laid
  rw [layOut_of_proper proper] at laid
  obtain ⟨found, found_eq, done⟩ := bind_eq_ok_iff.mp laid
  obtain rfl := Except.ok.inj done
  exact ⟨f, found, proper, rfl, found_eq, offsets_of_zipWith (Forest.length_of_layOut found_eq)⟩

/-- Two streams have the same extent when the forests that they spell out have. -/
def SameExtent (s t : TokenStream) : Prop :=
  ∃ f g : Forest, (f.Proper ∧ f.tokens = s) ∧ (g.Proper ∧ g.tokens = t) ∧ f.SameExtent g

theorem sameExtent_tokens {f g : Forest} (f_proper : f.Proper) (g_proper : g.Proper)
    (same : SameExtent f.tokens g.tokens) : f.SameExtent g := by
  obtain ⟨f', g', ⟨f'_proper, f_same⟩, ⟨g'_proper, g_same⟩, same⟩ := same
  rwa [Forest.tokens_injective f'_proper f_proper f_same,
    Forest.tokens_injective g'_proper g_proper g_same] at same

/-- The tokens strictly between two positions, as a stream of their own. -/
def inside (s : TokenStream) (a b : Nat) : TokenStream := between s a b

/-- The stream with other tokens strictly between two positions. -/
def withInside (s : TokenStream) (a b : Nat) (content : TokenStream) : TokenStream :=
  s.take (a + 1) ++ (content ++ s.drop b)

/-- The tokens between a start and its end have the same offsets when they are laid out as a stream
of their own. Any other stream that can be laid out may stand there instead: as long as the entity
is of varying size anyway, or the extent of its inside stays the same, the start, the end and
everything around them keep their offsets. -/
theorem layOut_local {s r : TokenStream} {i : Index} {a b : Nat} (laid : s.layOut = .ok r)
    (indexed : s.index true = .ok i) (ends : i.endOf? a = some b) :
    (∃ inner, (s.inside a b).layOut = .ok inner ∧
      inner.map Token.offset = (r.inside a b).map Token.offset) ∧
      ∀ content filling start, TokenStream.layOut content = .ok filling → s[a]? = some start →
        start.StartsVarying ∨ SameExtent (s.inside a b) content →
        ∃ r', (s.withInside a b content).layOut = .ok r' ∧
          (∀ p, p ≤ a → r'[p]?.map Token.offset = r[p]?.map Token.offset) ∧
          ∀ k, r'[a + 1 + content.length + k]?.map Token.offset
            = r[b + k]?.map Token.offset := by
  obtain ⟨f, found, proper, rfl, found_eq, offsets_eq⟩ := exists_laid_of_layOut laid
  rw [index_of_proper proper] at indexed
  obtain rfl := Except.ok.inj indexed
  obtain ⟨c, content, rfl, starts, stops⟩ :=
    Surroundings.exists_fill_of_mem_brackets (Index.endOf?_index_iff.mp ends)
  rw [Nat.zero_add] at starts
  obtain ⟨_, content_proper, refilled⟩ := Surroundings.proper_of_fill proper
  obtain ⟨within, front, back, within_eq, sized, split, around⟩ := Forest.layOut_fill found_eq
  -- the tokens and their offsets split at the same two places
  have spelled (other : Forest) : (c.fill other).tokens
      = (c.front ++ [c.start]) ++ (other.tokens ++ c.stop :: c.back) := by
    rw [Surroundings.tokens_fill, List.append_cons]
  have first : (c.front ++ [c.start]).length = a + 1 := by
    rw [List.length_append, starts]
    rfl
  have inner : (c.fill content).tokens.inside a b = content.tokens := by
    rw [spelled, inside, between_append first stops]
  have ends_offsets : a + 1 + within.offsets.length = b := by
    rw [Forest.length_of_layOut within_eq, stops]
  rw [starts] at sized
  rw [split] at offsets_eq
  constructor
  · obtain ⟨r', laid', offsets'⟩ := layOut_of_laid content_proper within_eq
    refine ⟨r', inner ▸ laid', ?_⟩
    rw [inside, ← map_between, offsets', offsets_eq, between_append sized ends_offsets]
  · intro other filling start other_laid there same
    obtain ⟨g, filled, g_proper, rfl, filled_eq, _⟩ := exists_laid_of_layOut other_laid
    have starting : c.start = start := by
      rw [spelled, List.getElem?_append_left (by omega), ← starts, List.getElem?_concat_length]
        at there
      exact Option.some.inj there
    have keeps : c.start.StartsVarying ∨ content.SameExtent g := by
      rw [inner, ← starting] at same
      exact same.imp_right (sameExtent_tokens content_proper g_proper)
    obtain ⟨r', laid', offsets'⟩ := layOut_of_laid (refilled g g_proper)
      (around g filled filled_eq (Forest.entitySize_of_sameExtent within_eq filled_eq keeps))
    refine ⟨r', ?_, ?_, ?_⟩
    · rw [withInside, spelled, List.take_left' first, drop_append_append first stops, ← spelled]
      exact laid'
    · intro p low
      rw [← List.getElem?_map, ← List.getElem?_map, offsets', offsets_eq,
        List.getElem?_append_left (by omega), List.getElem?_append_left (by omega)]
    · intro k
      rw [← List.getElem?_map, ← List.getElem?_map, offsets', offsets_eq,
        ← Forest.length_of_layOut filled_eq, getElem?_append_append sized, ← ends_offsets,
        getElem?_append_append sized]

/-- A message with a header of three bytes and a group behind it. -/
def framedQuote : TokenStream :=
  [.structural (.start .message) ⟨"quote", none, none, default, none⟩,
   .structural (.start .composite) ⟨"header", none, none, default, none⟩,
   .leaf .uint16 .littleEndian ⟨"length", none, none, default, none⟩,
   .leaf .uint8 .littleEndian ⟨"version", none, none, default, none⟩,
   .structural (.stop .composite) ⟨"header", none, none, default, none⟩,
   .structural (.start .group) ⟨"levels", none, none, default, none⟩,
   .leaf .uint32 .littleEndian ⟨"price", none, none, default, none⟩,
   .structural (.stop .group) ⟨"levels", none, none, default, none⟩,
   .structural (.stop .message) ⟨"quote", none, none, default, none⟩]

/-- Another header of three bytes, with a field around the last two. -/
def fieldedHeader : Forest :=
  .point (.leaf .char .littleEndian ⟨"kind", none, none, default, none⟩)
    (.entity (.structural (.start .field) ⟨"length", none, none, default, none⟩)
      (.point (.leaf .uint16 .bigEndian ⟨"length", none, none, default, none⟩) .empty)
      (.structural (.stop .field) ⟨"length", none, none, default, none⟩) .empty)

/-- Text of varying length. -/
def freeText : TokenStream :=
  [.varyingLeaf .char .littleEndian ⟨"text", none, none, default, none⟩]

/-- With the other header, the group moves from position five to position seven and keeps its offset
of three bytes. Inside the group, text of varying length may stand as well. -/
theorem framedQuote_local :
    ∃ r r₁ r₂, framedQuote.layOut = .ok r ∧ r[5]?.map Token.offset = some (.known 3) ∧
      (∃ inner, (framedQuote.inside 1 4).layOut = .ok inner ∧
        inner.map Token.offset = (r.inside 1 4).map Token.offset) ∧
      (framedQuote.withInside 1 4 fieldedHeader.tokens).layOut = .ok r₁ ∧
      r₁[7]?.map Token.offset = r[5]?.map Token.offset ∧
      (framedQuote.withInside 5 7 freeText).layOut = .ok r₂ ∧
      r₂[8]?.map Token.offset = r[8]?.map Token.offset := by
  have header := layOut_local (s := framedQuote) (a := 1) (b := 4) rfl rfl rfl
  have group := layOut_local (s := framedQuote) (a := 5) (b := 7) rfl rfl rfl
  have same : SameExtent (framedQuote.inside 1 4) fieldedHeader.tokens :=
    ⟨.point _ (.point _ .empty), fieldedHeader, ⟨⟨rfl, rfl, rfl, rfl, trivial⟩, rfl⟩,
      ⟨⟨rfl, rfl, ⟨.field, rfl, rfl⟩, ⟨rfl, rfl, trivial⟩, trivial⟩, rfl⟩,
      .inr ⟨by decide, by decide, by decide⟩⟩
  obtain ⟨r₁, laid₁, _, behind₁⟩ := header.2 fieldedHeader.tokens _ _ rfl rfl (.inr same)
  obtain ⟨r₂, laid₂, _, behind₂⟩ := group.2 freeText _ _ rfl rfl (.inl (.inl rfl))
  exact ⟨_, r₁, r₂, rfl, rfl, header.1, laid₁, behind₁ 1, laid₂, behind₂ 1⟩

end TokenStream

end WireSchema
