import Mathlib.Order.Bounds.Basic
import WireSchema.Proofs.Reference.Pairing

/-!
# The first defect of the references

A stream whose references cannot be paired is refused with one error, whatever else is wrong with
it. Identifiers come first: as long as one of them is carried twice, no reference is looked at. Then
the references are followed in the order of the stream, up to the first one that nothing answers,
and the error says why nothing does.

Results:

1. `firstRepeat_of_anchors`: an identifier that is repeated is reported at the first place where any
   identifier is repeated.
2. `partnerOf_eq_error_iff`: with what error a token is refused, in terms of the stream.
3. `pairing_eq_error_iff`: the pass over the references fails with the first token that is refused.
4. `link_first_defect`: which error a stream is refused with.
-/

namespace WireSchema

namespace Reference

/-! ## Defects of a stream -/

/-- The identifier is carried at two positions, and no token in front of the second one repeats an
identifier. -/
structure FirstRepeat (s : TokenStream) (id : Ident) (first second : Nat) : Prop where
  order : first < second
  carried : Carries s first id
  again : Carries s second id
  least : IsLeast {q | ∃ p id, p < q ∧ Carries s p id ∧ Carries s q id} second
  /-- The first of the two positions is therefore the only one in front of the second. -/
  alone : ∀ p, p < second → Carries s p id → p = first

/-- The token at the position makes a reference that nothing answers. -/
def Unanswered (s : TokenStream) (p : Nat) : Prop :=
  ∃ target, Refers s p target ∧ ∀ q, ¬Answered s p target q

/-- What is wrong with the reference of the token at the position, and the error that says so. -/
inductive Broken (s : TokenStream) (p : Nat) : LinkError → Prop
  /-- The target is carried nowhere. -/
  | dangling {token : Token} {target : Ident} (placed : s[p]? = some token)
      (refers : Refers s p target) (missing : ∀ q, ¬Carries s q target) :
      Broken s p (.dangling p token.id target)
  /-- The target is there, but the token has no identifier that could be referenced in turn. -/
  | anonymous {target : Ident} {q : Nat} (refers : Refers s p target) (found : Carries s q target)
      (nameless : ∀ id, ¬Carries s p id) : Broken s p (.anonymous p target)
  /-- The target is the token itself. -/
  | ownReference {id : Ident} (refers : Refers s p id) (carries : Carries s p id) :
      Broken s p (.ownReference p id)
  /-- The target is another token, which references a third one or none. -/
  | unanswered {other : Token} {id target : Ident} {q : Nat} (refers : Refers s p target)
      (carries : Carries s p id) (differs : target ≠ id) (found : ∀ r, Carries s r target ↔ r = q)
      (there : s[q]? = some other) (elsewhere : other.xref ≠ some id) :
      Broken s p (.unanswered p id target q other.xref)

theorem Broken.refers {s : TokenStream} {p : Nat} {e : LinkError} (broken : Broken s p e) :
    ∃ target, Refers s p target := by
  cases broken with
  | dangling _ refers | anonymous refers | ownReference refers | unanswered refers =>
    exact ⟨_, refers⟩

/-- A broken reference is never reported as a stream that is not well nested. -/
theorem Broken.ne_unresolved {s : TokenStream} {p : Nat} {e : LinkError} (broken : Broken s p e)
    (cause : LayoutError) : e ≠ .unresolved cause := by
  rintro rfl
  cases broken

/-! ## Repeated identifiers -/

/-- The tokens in front of a position carry what they carry in the whole stream. -/
theorem carries_take_iff {s : TokenStream} {n p : Nat} {id : Ident} :
    Carries (s.take n) p id ↔ p < n ∧ Carries s p id := by
  rw [Carries, List.getElem?_take]
  split
  · next before => exact (and_iff_right before).symm
  · next behind => simp [behind]

/-- A table that cannot be filled fails at the first repeated identifier. -/
theorem firstRepeat_of_anchors {s : TokenStream} {e : LinkError}
    (failed : anchors [] 0 s = .error e) :
    ∃ id first second, e = .repeatedId id first second ∧ FirstRepeat s id first second := by
  obtain ⟨id, first, second, rfl, order, carried, again, unique⟩ :=
    repeated_of_anchors describes_nil failed
  refine ⟨id, first, second, rfl, order, carried, again, ⟨⟨first, id, order, carried, again⟩, ?_⟩,
    fun p before carries => ?_⟩
  · rintro q ⟨p, id', before, carries, carries'⟩
    by_contra early
    have q_before : q < second := Nat.lt_of_not_le early
    exact absurd (unique p q id' (carries_take_iff.mpr ⟨Nat.lt_trans before q_before, carries⟩)
      (carries_take_iff.mpr ⟨q_before, carries'⟩)) (Nat.ne_of_lt before)
  · exact unique p first id (carries_take_iff.mpr ⟨before, carries⟩)
      (carries_take_iff.mpr ⟨order, carried⟩)

/-! ## Broken references -/

section

variable {known : Anchors} {s : TokenStream} {position : Nat} {token : Token} {e : LinkError}

theorem Describes.lookup_eq_none_iff (describes : Describes known s) {id : Ident} :
    known.lookup id = none ↔ ∀ q, ¬Carries s q id := by
  simp only [← describes.carries_iff, Option.map_eq_some_iff, Option.eq_none_iff_forall_ne_some]
  constructor
  · rintro missing q ⟨anchor, found, _⟩
    exact missing anchor found
  · intro missing anchor found
    exact missing _ ⟨anchor, found, rfl⟩

/-- The table knows an identifier with the one position that carries it, and with what the token
there references. -/
theorem Describes.lookup_eq_some_iff (describes : Describes known s) {id : Ident} {q : Nat}
    {back : Option Ident} :
    known.lookup id = some ⟨q, back⟩ ↔
      (∀ r, Carries s r id ↔ r = q) ∧ ∃ t, s[q]? = some t ∧ t.xref = back := by
  rw [describes id ⟨q, back⟩]
  constructor
  · rintro ⟨t, placed, noEnd, carried, same⟩
    have here : Carries s q id := ⟨t, placed, noEnd, carried⟩
    refine ⟨fun r => ⟨fun there => describes.uniqueIds r q id there here, ?_⟩, t, placed, same⟩
    rintro rfl
    exact here
  · rintro ⟨only, t, placed, same⟩
    obtain ⟨u, placed', noEnd, carried⟩ := (only q).mpr rfl
    obtain rfl := Option.some.inj (placed.symm.trans placed')
    exact ⟨t, placed, noEnd, carried, same⟩

theorem carries_iff_of_getElem? (placed : s[position]? = some token)
    (noEnd : token.signal.isEnd = false) {id : Ident} :
    Carries s position id ↔ token.id = some id := by
  constructor
  · rintro ⟨t, placed', _, carried⟩
    obtain rfl := Option.some.inj (placed.symm.trans placed')
    exact carried
  · intro carried
    exact ⟨token, placed, noEnd, carried⟩

/-- A reference that is refused is broken, and the error says how. -/
theorem broken_of_partner (describes : Describes known s) (placed : s[position]? = some token)
    (noEnd : token.signal.isEnd = false) {target : Ident} (named : token.xref = some target)
    (refused : partner known position token.id target = .error e) : Broken s position e := by
  have refers : Refers s position target := ⟨token, placed, noEnd, named⟩
  have carries {id : Ident} : Carries s position id ↔ token.id = some id :=
    carries_iff_of_getElem? placed noEnd
  rw [partner] at refused
  cases looked : known.lookup target with
  | none =>
    rw [looked] at refused
    obtain rfl := Except.error.inj refused
    exact .dangling placed refers (describes.lookup_eq_none_iff.mp looked)
  | some anchor =>
    obtain ⟨only, other, there, back⟩ := describes.lookup_eq_some_iff.mp looked
    rw [looked] at refused
    cases own : token.id with
    | none =>
      rw [own] at refused
      obtain rfl := Except.error.inj refused
      refine .anonymous refers ((only _).mpr rfl) fun id carried => ?_
      rw [carries, own] at carried
      cases carried
    | some id =>
      have here : Carries s position id := carries.mpr own
      rw [own] at refused
      dsimp only at refused
      split at refused
      · next same =>
        obtain rfl := Except.error.inj refused
        -- the token carries the target, which is therefore its own identifier
        have itself : token.id = some target := carries.mp ((only position).mpr same.symm)
        obtain rfl := Option.some.inj (own.symm.trans itself)
        exact .ownReference refers here
      · next apart =>
        split at refused
        · cases refused
        · next elsewhere =>
          obtain rfl := Except.error.inj refused
          rw [← back] at elsewhere ⊢
          refine .unanswered refers here ?_ only there elsewhere
          rintro rfl
          exact apart ((only position).mp here).symm

/-- A broken reference is refused, whatever is wrong with it. -/
theorem partner_of_broken (describes : Describes known s) (placed : s[position]? = some token)
    (noEnd : token.signal.isEnd = false) {target : Ident} (named : token.xref = some target)
    (broken : Broken s position e) : partner known position token.id target = .error e := by
  have refers : Refers s position target := ⟨token, placed, noEnd, named⟩
  have carries {id : Ident} : Carries s position id ↔ token.id = some id :=
    carries_iff_of_getElem? placed noEnd
  cases broken with
  | dangling placed' refers' missing =>
    obtain rfl := Option.some.inj (placed.symm.trans placed')
    obtain rfl := refers_injective refers refers'
    rw [partner, describes.lookup_eq_none_iff.mpr missing]
  | @anonymous _ q refers' found nameless =>
    obtain rfl := refers_injective refers refers'
    have own : token.id = none :=
      Option.eq_none_iff_forall_ne_some.mpr fun id carried => nameless id (carries.mpr carried)
    cases looked : known.lookup target with
    | none => exact absurd found (describes.lookup_eq_none_iff.mp looked q)
    | some anchor => rw [partner, looked, own]
  | ownReference refers' carried =>
    obtain rfl := refers_injective refers refers'
    have only (r : Nat) : Carries s r target ↔ r = position := by
      refine ⟨fun there => describes.uniqueIds r position target there carried, ?_⟩
      rintro rfl
      exact carried
    rw [partner, describes.lookup_eq_some_iff.mpr ⟨only, token, placed, rfl⟩, carries.mp carried]
    exact if_pos rfl
  | @unanswered other id _ q refers' carried differs only there elsewhere =>
    obtain rfl := refers_injective refers refers'
    have apart : q ≠ position := by
      rintro rfl
      have itself : token.id = some target := carries.mp ((only q).mpr rfl)
      exact differs (Option.some.inj (itself.symm.trans (carries.mp carried)))
    rw [partner, describes.lookup_eq_some_iff.mpr ⟨only, other, there, rfl⟩, carries.mp carried]
    dsimp only
    rw [if_neg apart, if_neg elsewhere]

/-- A token is refused for what is wrong with its reference. -/
theorem partnerOf_eq_error_iff (describes : Describes known s)
    (placed : s[position]? = some token) :
    partnerOf known position token = .error e ↔ Broken s position e := by
  rcases silent_or_counts token token.xref with silent | ⟨target, noEnd, named⟩
  · rw [partnerOf_of_silent silent]
    constructor
    · intro refused
      cases refused
    · intro broken
      obtain ⟨target, t, placed', noEnd, named⟩ := broken.refers
      obtain rfl := Option.some.inj (placed.symm.trans placed')
      exact absurd named (silent target noEnd)
  · rw [partnerOf_of_refers noEnd named]
    constructor
    · intro refused
      refine broken_of_partner describes placed noEnd named ?_
      cases found : partner known position token.id target with
      | error e' =>
        rw [found] at refused
        obtain rfl := Except.error.inj refused
        rfl
      | ok q =>
        rw [found] at refused
        cases refused
    · intro broken
      rw [partner_of_broken describes placed noEnd named broken]
      rfl

/-- A token is accepted unless it makes a reference that nothing answers. -/
theorem exists_partnerOf_iff_not_unanswered (describes : Describes known s)
    (placed : s[position]? = some token) :
    (∃ entry, partnerOf known position token = .ok entry) ↔ ¬Unanswered s position := by
  rw [exists_partnerOf_iff describes placed]
  simp only [Unanswered, not_exists, not_and, not_forall, not_not]

end

/-- The tokens cannot be paired when one of them is refused, and then for the first one. -/
theorem pairing_eq_error_iff {known : Anchors} {position : Nat} {tokens : List Token}
    {e : LinkError} :
    pairing known position tokens = .error e ↔
      ∃ k token, tokens[k]? = some token ∧ partnerOf known (position + k) token = .error e ∧
        ∀ j t, j < k → tokens[j]? = some t → ∃ entry, partnerOf known (position + j) t = .ok entry := by
  induction tokens generalizing position with
  | nil =>
    constructor
    · intro failed
      cases failed
    · rintro ⟨k, token, placed, _⟩
      cases placed
  | cons first rest ih =>
    rw [pairing_cons, bind_eq_error_iff]
    constructor
    · rintro (refused | ⟨entry, here, failed⟩)
      · exact ⟨0, first, rfl, refused, fun j t before => absurd before (Nat.not_lt_zero j)⟩
      · obtain ⟨k, token, placed, refused, accepted⟩ := ih.mp (bind_pure_eq_error_iff.mp failed)
        refine ⟨k + 1, token, placed, ?_, fun j t before there => ?_⟩
        · rwa [Nat.add_assoc, Nat.add_comm 1] at refused
        · cases j with
          | zero =>
            obtain rfl := Option.some.inj there
            exact ⟨entry, here⟩
          | succ j =>
            have entry := accepted j t (Nat.lt_of_succ_lt_succ before) there
            rwa [Nat.add_assoc, Nat.add_comm 1] at entry
    · rintro ⟨k, token, placed, refused, accepted⟩
      cases k with
      | zero =>
        obtain rfl := Option.some.inj placed
        exact .inl refused
      | succ k =>
        obtain ⟨entry, here⟩ := accepted 0 first (Nat.succ_pos k) rfl
        refine .inr ⟨entry, here, bind_pure_eq_error_iff.mpr (ih.mpr ⟨k, token, placed, ?_, ?_⟩)⟩
        · rwa [Nat.add_assoc, Nat.add_comm 1]
        · intro j t before there
          rw [Nat.add_assoc, Nat.add_comm 1]
          exact accepted (j + 1) t (Nat.succ_lt_succ before) there

end Reference

namespace TokenStream

open Reference

variable {s : TokenStream}

/-! ## The error of a stream -/

/-- As long as an identifier is carried twice, no reference is looked at. -/
theorem exists_firstRepeat (twice : ¬UniqueIds s) :
    ∃ id first second, FirstRepeat s id first second ∧
      s.pairReferences = .error (.repeatedId id first second) := by
  cases filled : anchors [] 0 s with
  | ok known =>
    have describes : Describes known s := describes_of_anchors describes_nil filled
    exact absurd describes.uniqueIds twice
  | error e =>
    obtain ⟨id, first, second, rfl, found⟩ := firstRepeat_of_anchors filled
    exact ⟨id, first, second, found, by rw [pairReferences, filled, error_bind]⟩

/-- Behind the identifiers, the first reference that nothing answers is reported. -/
theorem pairReferences_eq_error_iff (once : UniqueIds s) {e : LinkError} :
    s.pairReferences = .error e ↔ ∃ p, IsLeast {q | Unanswered s q} p ∧ Broken s p e := by
  obtain ⟨known, filled⟩ := exists_anchors once
  have describes : Describes known s := describes_of_anchors describes_nil filled
  have failed : s.pairReferences = .error e ↔ pairing known 0 s = .error e := by
    rw [pairReferences, filled, ok_bind, bind_pure_eq_error_iff]
  simp only [failed, pairing_eq_error_iff, Nat.zero_add]
  constructor
  · rintro ⟨p, token, placed, refused, accepted⟩
    refine ⟨p, ⟨?_, fun q unanswered => ?_⟩, (partnerOf_eq_error_iff describes placed).mp refused⟩
    · by_contra answered
      obtain ⟨entry, here⟩ := (exists_partnerOf_iff_not_unanswered describes placed).mpr answered
      rw [refused] at here
      cases here
    · by_contra behind
      obtain ⟨_, ⟨t, there, _⟩, _⟩ := id unanswered
      have entry := accepted q t (Nat.lt_of_not_le behind) there
      exact (exists_partnerOf_iff_not_unanswered describes there).mp entry unanswered
  · rintro ⟨p, ⟨⟨_, ⟨token, placed, _⟩, _⟩, least⟩, broken⟩
    refine ⟨p, token, placed, (partnerOf_eq_error_iff describes placed).mpr broken,
      fun q t before there => ?_⟩
    exact (exists_partnerOf_iff_not_unanswered describes there).mpr fun unanswered =>
      Nat.not_lt.mpr (least unanswered) before

/-- The references of a stream can only fail for a reason of their own. -/
theorem ne_unresolved_of_pairReferences {e : LinkError} (failed : s.pairReferences = .error e)
    (cause : LayoutError) : e ≠ .unresolved cause := by
  by_cases once : UniqueIds s
  · obtain ⟨p, _, broken⟩ := (pairReferences_eq_error_iff once).mp failed
    exact broken.ne_unresolved cause
  · obtain ⟨id, first, second, _, repeated⟩ := exists_firstRepeat once
    obtain rfl := Except.error.inj (failed.symm.trans repeated)
    exact LinkError.noConfusion

/-- A stream that is not well nested is refused as such. A well-nested stream with an identifier
that is carried twice is refused for the first repetition, whatever becomes of its references. When
every identifier is carried once, the stream is refused exactly when some reference is not answered,
and with what is wrong with the first of them. -/
theorem link_first_defect (s : TokenStream) :
    (¬WellNested s.signals →
      ∃ e, s.index true = .error e ∧ s.link = .error (.unresolved (.malformed e))) ∧
    (WellNested s.signals → ¬UniqueIds s →
      ∃ id first second, FirstRepeat s id first second ∧
        s.link = .error (.repeatedId id first second)) ∧
    (WellNested s.signals → UniqueIds s → ∀ e,
      s.link = .error e ↔ ∃ p, IsLeast {q | Unanswered s q} p ∧ Broken s p e) := by
  refine ⟨fun malformed => ?_, fun nested twice => ?_, fun nested once e => ?_⟩
  · cases indexed : s.index true with
    | ok i => exact absurd (wellNested_of_index indexed) malformed
    | error e => exact ⟨e, rfl, by rw [link, indexed]⟩
  · obtain ⟨f, proper, rfl⟩ := wellNested_iff_forest.mp nested
    rw [link_of_proper proper]
    exact exists_firstRepeat twice
  · obtain ⟨f, proper, rfl⟩ := wellNested_iff_forest.mp nested
    rw [link_of_proper proper]
    exact pairReferences_eq_error_iff once

/-- A group that is never closed. -/
def unclosedGroup : TokenStream :=
  [.structural (.start .group) ⟨"fills", some 1, some 2, default, none⟩]

/-- Two identifiers that are repeated, behind a reference to none. -/
def repeatedIds : TokenStream :=
  [.leaf .uint16 .littleEndian ⟨"count", some 1, some 9, default, none⟩,
   .leaf .uint32 .littleEndian ⟨"price", some 2, none, default, none⟩,
   .leaf .uint32 .littleEndian ⟨"volume", some 2, none, default, none⟩,
   .leaf .uint8 .littleEndian ⟨"flags", some 1, none, default, none⟩]

/-- A length whose data do not reference it in turn, in front of a leaf that references itself. -/
def oneSidedReference : TokenStream :=
  [.structural (.start .message) ⟨"order", some 9, none, default, none⟩,
   .leaf .uint32 .littleEndian ⟨"noteLength", some 4, some 3, default, none⟩,
   .varyingLeaf .char .littleEndian ⟨"note", some 3, none, default, none⟩,
   .leaf .uint8 .littleEndian ⟨"flags", some 5, some 5, default, none⟩,
   .structural (.stop .message) ⟨"order", some 9, none, default, none⟩]

theorem oneSidedReference_first_defect :
    (¬WellNested unclosedGroup.signals ∧ ∃ e, unclosedGroup.index true = .error e ∧
      unclosedGroup.link = .error (.unresolved (.malformed e))) ∧
    (WellNested repeatedIds.signals ∧ ¬UniqueIds repeatedIds ∧ ∃ id first second,
      FirstRepeat repeatedIds id first second ∧
        repeatedIds.link = .error (.repeatedId id first second)) ∧
    WellNested oneSidedReference.signals ∧ UniqueIds oneSidedReference ∧
      ∃ p, IsLeast {q | Unanswered oneSidedReference q} p ∧
        Broken oneSidedReference p (.unanswered 1 4 3 2 none) := by
  have malformed : ¬WellNested unclosedGroup.signals :=
    not_wellNested_of_index (rfl : unclosedGroup.index true = .error _)
  have repeated_nested : WellNested repeatedIds.signals :=
    wellNested_of_index (rfl : repeatedIds.index true = .ok _)
  have twice : ¬UniqueIds repeatedIds := fun once =>
    absurd (once 1 2 2 ⟨_, rfl, rfl, rfl⟩ ⟨_, rfl, rfl, rfl⟩) (by decide)
  have nested : WellNested oneSidedReference.signals :=
    wellNested_of_index (rfl : oneSidedReference.index true = .ok _)
  have describes : Describes _ oneSidedReference :=
    describes_of_anchors describes_nil (rfl : anchors [] 0 oneSidedReference = .ok _)
  exact ⟨⟨malformed, (link_first_defect unclosedGroup).1 malformed⟩,
    ⟨repeated_nested, twice, (link_first_defect repeatedIds).2.1 repeated_nested twice⟩,
    nested, describes.uniqueIds,
    ((link_first_defect oneSidedReference).2.2 nested describes.uniqueIds _).mp rfl⟩

end TokenStream

end WireSchema
