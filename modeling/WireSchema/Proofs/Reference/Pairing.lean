import WireSchema.Proofs.Nesting.Scan
import WireSchema.Proofs.Reference.Anchors

/-!
# Pairing references

Each side of a pair is found at a step of its own: a token looks its target up in the table of
identifiers and checks that the token there names it in turn. That the result is symmetric is
nowhere enforced. It follows from the identifiers being unique and from end tokens being left out
of the table and of the pairing alike. The list of pairs is kept beside the table of partners, and
gets a pair at the first of its two steps.

Results:

1. `partner_eq_ok_iff`: a token gets a partner exactly when another token answers its reference.
2. `listed_of_pairing`: the list of pairs and the table of partners are in step.
3. `link_iff_and_resolves`: the references of a stream are paired exactly when it is well nested,
   no identifier is carried twice and every reference is answered, and what is paired then is
   exactly what names each other.
-/

namespace WireSchema

namespace Reference

/-! ## Tokens that name each other -/

/-- The reference of a token to a target is answered from a position: another token there carries
the target and references the identifier of the first one. -/
def Answered (s : TokenStream) (p : Nat) (target : Ident) (q : Nat) : Prop :=
  p ≠ q ∧ ∃ id, Carries s p id ∧ Carries s q target ∧ Refers s q id

/-- The tokens at two positions name each other. -/
def Reciprocal (s : TokenStream) (p q : Nat) : Prop :=
  ∃ target, Refers s p target ∧ Answered s p target q

theorem Reciprocal.symm {s : TokenStream} {p q : Nat} (pair : Reciprocal s p q) :
    Reciprocal s q p := by
  obtain ⟨target, refers, distinct, id, carries, answers, back⟩ := pair
  exact ⟨id, back, distinct.symm, target, answers, carries, refers⟩

/-- A token names the one that answers its reference. -/
theorem reciprocal_iff_answered {s : TokenStream} {p q : Nat} {target : Ident}
    (refers : Refers s p target) : Reciprocal s p q ↔ Answered s p target q := by
  constructor
  · rintro ⟨target', refers', answered⟩
    obtain rfl := refers_injective refers refers'
    exact answered
  · intro answered
    exact ⟨target, refers, answered⟩

/-! ## One reference -/

section

variable {known : Anchors} {s : TokenStream} {position : Nat} {token : Token}

/-- A token gets a partner exactly when the token there answers its reference. -/
theorem partner_eq_ok_iff (describes : Describes known s) (placed : s[position]? = some token)
    (noEnd : token.signal.isEnd = false) {target : Ident} {q : Nat} :
    partner known position token.id target = .ok q ↔ Answered s position target q := by
  constructor
  · intro found
    rw [partner] at found
    cases looked : known.lookup target with
    | none =>
      rw [looked] at found
      cases found
    | some anchor =>
      cases own : token.id with
      | none =>
        rw [looked, own] at found
        cases found
      | some id =>
        rw [looked, own] at found
        dsimp only at found
        split at found
        · cases found
        · next distinct =>
          split at found
          · next answers =>
            obtain rfl := Except.ok.inj found
            obtain ⟨t, there, noEnd', carried, back⟩ := (describes target anchor).mp looked
            exact ⟨fun same => distinct same.symm, id, ⟨token, placed, noEnd, own⟩,
              ⟨t, there, noEnd', carried⟩, ⟨t, there, noEnd', back.trans answers⟩⟩
          · cases found
  · rintro ⟨distinct, id, carries, ⟨t, there, noEnd', carried⟩, u, there', _, named⟩
    -- the table knows the token that answers, since nothing else in the stream carries the target
    obtain rfl := Option.some.inj (there.symm.trans there')
    have own : token.id = some id := by
      obtain ⟨v, placed', _, carried'⟩ := carries
      obtain rfl := Option.some.inj (placed.symm.trans placed')
      exact carried'
    have looked := (describes target ⟨q, t.xref⟩).mpr ⟨t, there, noEnd', carried, rfl⟩
    rw [partner, looked, own]
    dsimp only
    rw [if_neg (fun same => distinct same.symm), if_pos named]

/-- The entry of one token in the table of partners. -/
def partnerOf (known : Anchors) (position : Nat) (token : Token) :
    Except LinkError (Option Nat) :=
  match token.signal.isEnd, token.xref with
  | false, some target => (partner known position token.id target).map some
  | _, _ => .ok none

theorem partnerOf_of_refers (noEnd : token.signal.isEnd = false) {target : Ident}
    (named : token.xref = some target) :
    partnerOf known position token = (partner known position token.id target).map some := by
  rw [partnerOf, noEnd, named]

/-- An end, or a token without a reference, has no partner. -/
theorem partnerOf_of_silent
    (silent : ∀ target, token.signal.isEnd = false → token.xref ≠ some target) :
    partnerOf known position token = .ok none := by
  rw [partnerOf]
  split
  · next target noEnd named => exact absurd named (silent target noEnd)
  · rfl

theorem partnerOf_eq_some_iff (describes : Describes known s)
    (placed : s[position]? = some token) {q : Nat} :
    partnerOf known position token = .ok (some q) ↔ Reciprocal s position q := by
  rcases silent_or_counts token token.xref with silent | ⟨target, noEnd, named⟩
  · rw [partnerOf_of_silent silent]
    constructor
    · intro none
      cases none
    · rintro ⟨target, ⟨t, placed', noEnd, named⟩, _⟩
      obtain rfl := Option.some.inj (placed.symm.trans placed')
      exact absurd named (silent target noEnd)
  · rw [partnerOf_of_refers noEnd named,
      reciprocal_iff_answered ⟨token, placed, noEnd, named⟩,
      ← partner_eq_ok_iff describes placed noEnd]
    cases partner known position token.id target <;> simp [Except.map]

/-- A token is refused exactly when it makes a reference that nothing answers. -/
theorem exists_partnerOf_iff (describes : Describes known s) (placed : s[position]? = some token) :
    (∃ entry, partnerOf known position token = .ok entry) ↔
      ∀ target, Refers s position target → ∃ q, Answered s position target q := by
  rcases silent_or_counts token token.xref with silent | ⟨target, noEnd, named⟩
  · rw [partnerOf_of_silent silent]
    constructor
    · rintro _ target ⟨t, placed', noEnd, named⟩
      obtain rfl := Option.some.inj (placed.symm.trans placed')
      exact absurd named (silent target noEnd)
    · intro _
      exact ⟨none, rfl⟩
  · have refers : Refers s position target := ⟨token, placed, noEnd, named⟩
    rw [partnerOf_of_refers noEnd named]
    constructor
    · rintro ⟨entry, found⟩ target' refers'
      obtain rfl := refers_injective refers refers'
      cases paired : partner known position token.id target with
      | error e =>
        rw [paired] at found
        cases found
      | ok q => exact ⟨q, (partner_eq_ok_iff describes placed noEnd).mp paired⟩
    · intro answered
      obtain ⟨q, answers⟩ := answered target refers
      rw [(partner_eq_ok_iff describes placed noEnd).mpr answers]
      exact ⟨some q, rfl⟩

end

/-! ## All references -/

section

variable {known : Anchors} {position : Nat} {token : Token} {tokens : List Token}

theorem pairing_cons (known : Anchors) (position : Nat) (token : Token) (rest : List Token) :
    pairing known position (token :: rest) = do
      let entry ← partnerOf known position token
      let later ← pairing known (position + 1) rest
      return later.record position entry := by
  rcases silent_or_counts token token.xref with silent | ⟨target, noEnd, named⟩
  · rw [partnerOf_of_silent silent, pairing]
    split
    · next target noEnd named => exact absurd named (silent target noEnd)
    · rfl
  · rw [partnerOf_of_refers noEnd named, pairing, noEnd, named]
    dsimp only
    cases partner known position token.id target <;> rfl

/-- What is paired behind a token, with the entry of the token in front. -/
theorem pairing_cons_eq_ok_iff {paired : Pairing} :
    pairing known position (token :: tokens) = .ok paired ↔
      ∃ entry later, partnerOf known position token = .ok entry ∧
        pairing known (position + 1) tokens = .ok later ∧ later.record position entry = paired := by
  rw [pairing_cons, bind_eq_ok_iff]
  constructor
  · rintro ⟨entry, here, done⟩
    obtain ⟨later, found, done⟩ := bind_eq_ok_iff.mp done
    exact ⟨entry, later, here, found, Except.ok.inj done⟩
  · rintro ⟨entry, later, here, found, rfl⟩
    exact ⟨entry, here, bind_eq_ok_iff.mpr ⟨later, found, rfl⟩⟩

/-- Every token has one entry in the table of partners. -/
theorem partners_length {paired : Pairing} (found : pairing known position tokens = .ok paired) :
    paired.partners.length = tokens.length := by
  induction tokens generalizing position paired with
  | nil =>
    obtain rfl := Except.ok.inj found
    rfl
  | cons first rest ih =>
    obtain ⟨entry, later, _, behind, rfl⟩ := pairing_cons_eq_ok_iff.mp found
    exact congrArg (· + 1) (ih behind)

/-- The table of partners has the entry of every token at its position. -/
theorem getElem?_of_pairing {paired : Pairing}
    (found : pairing known position tokens = .ok paired) {k : Nat}
    (placed : tokens[k]? = some token) :
    ∃ entry, partnerOf known (position + k) token = .ok entry ∧
      paired.partners[k]? = some entry := by
  induction tokens generalizing position paired k with
  | nil => cases placed
  | cons first rest ih =>
    obtain ⟨entry, later, here, behind, rfl⟩ := pairing_cons_eq_ok_iff.mp found
    cases k with
    | zero =>
      obtain rfl := Option.some.inj placed
      exact ⟨entry, here, rfl⟩
    | succ k =>
      rw [← Nat.add_assoc, Nat.add_right_comm]
      exact ih behind placed

/-- The tokens can be paired when every one of them has an entry. -/
theorem exists_pairing
    (each : ∀ k token, tokens[k]? = some token →
      ∃ entry, partnerOf known (position + k) token = .ok entry) :
    ∃ paired, pairing known position tokens = .ok paired := by
  induction tokens generalizing position with
  | nil => exact ⟨.empty, rfl⟩
  | cons first rest ih =>
    obtain ⟨entry, here⟩ := each 0 first rfl
    have others_each (k : Nat) (token : Token) (placed : rest[k]? = some token) :
        ∃ entry, partnerOf known (position + 1 + k) token = .ok entry := by
      rw [Nat.add_right_comm, Nat.add_assoc]
      exact each (k + 1) token placed
    obtain ⟨later, found⟩ := ih others_each
    exact ⟨_, pairing_cons_eq_ok_iff.mpr ⟨entry, later, here, found, rfl⟩⟩

end

/-! ## The pairs -/

namespace Pairing

variable {x : Pairing} {position p q : Nat} {entry : Option Nat}

theorem mem_pairs_record :
    (p, q) ∈ (x.record position entry).pairs ↔
      (entry = some q ∧ p = position ∧ p < q) ∨ (p, q) ∈ x.pairs := by
  cases entry with
  | none => simp [record]
  | some partner =>
    simp only [record]
    split
    · next later =>
      rw [List.mem_cons, Prod.mk.injEq, Option.some_inj]
      constructor
      · rintro (⟨rfl, rfl⟩ | listed)
        · exact .inl ⟨rfl, rfl, later⟩
        · exact .inr listed
      · rintro (⟨rfl, rfl, _⟩ | listed)
        · exact .inl ⟨rfl, rfl⟩
        · exact .inr listed
    · next earlier =>
      refine ⟨.inr, fun listed => listed.resolve_left ?_⟩
      rintro ⟨same, rfl, later⟩
      obtain rfl := Option.some.inj same
      exact earlier later

/-- The pairs are kept in step with the partners: those of the tokens whose partner stands behind
them are listed, by their positions. -/
structure Listed (x : Pairing) (position : Nat) : Prop where
  mem_iff : ∀ p q, (p, q) ∈ x.pairs ↔
    p < q ∧ ∃ k, p = position + k ∧ x.partners[k]? = some (some q)
  ascending : x.pairs.Pairwise fun a b => a.1 < b.1

namespace Listed

theorem empty : Pairing.empty.Listed position where
  mem_iff p q := by simp [Pairing.empty]
  ascending := .nil

theorem record (listed : x.Listed (position + 1)) (entry : Option Nat) :
    (x.record position entry).Listed position where
  mem_iff p q := by
    rw [mem_pairs_record, listed.mem_iff]
    constructor
    · rintro (⟨rfl, rfl, later⟩ | ⟨later, k, rfl, there⟩)
      · exact ⟨later, 0, rfl, rfl⟩
      · exact ⟨later, k + 1, Nat.add_right_comm position 1 k, there⟩
    · rintro ⟨later, k, rfl, there⟩
      cases k with
      | zero => exact .inl ⟨Option.some.inj there, rfl, later⟩
      | succ k => exact .inr ⟨later, k, (Nat.add_right_comm position 1 k).symm, there⟩
  ascending := by
    -- a pair that is listed later begins behind this position
    have behind (b : Nat × Nat) (inside : b ∈ x.pairs) : position < b.1 := by
      obtain ⟨_, k, first, _⟩ := (listed.mem_iff b.1 b.2).mp inside
      omega
    cases entry with
    | none => exact listed.ascending
    | some partner =>
      simp only [Pairing.record]
      split
      · exact List.pairwise_cons.mpr ⟨behind, listed.ascending⟩
      · exact listed.ascending

end Listed

end Pairing

theorem listed_of_pairing {known : Anchors} {position : Nat} {tokens : List Token}
    {paired : Pairing} (found : pairing known position tokens = .ok paired) :
    paired.Listed position := by
  induction tokens generalizing position paired with
  | nil =>
    obtain rfl := Except.ok.inj found
    exact .empty
  | cons token rest ih =>
    obtain ⟨entry, later, _, behind, rfl⟩ := pairing_cons_eq_ok_iff.mp found
    exact (ih behind).record entry

end Reference

/-! ## What the links say -/

namespace Links

open Reference

variable {x : Links}

/-- What the links of a stream say about it. -/
structure Resolves (x : Links) (s : TokenStream) : Prop where
  /-- A position is paired with exactly the one whose token and its own name each other. -/
  partner_iff : ∀ p q, x.partner? p = some q ↔ Reciprocal s p q
  /-- A position is paired exactly when its token makes a reference. -/
  paired_iff : ∀ p, (∃ q, x.partner? p = some q) ↔ ∃ target, Refers s p target
  irreflexive : ∀ p, x.partner? p ≠ some p
  involutive : ∀ p q, x.partner? p = some q → x.partner? q = some p
  /-- The pairs are the partners in the order of their positions, -/
  mem_pairs : ∀ p q, (p, q) ∈ x.pairs ↔ p < q ∧ x.partner? p = some q
  /-- each of them once, -/
  ascending : x.pairs.Pairwise fun a b => a.1 < b.1
  /-- and no position is in two of them. -/
  disjoint : ∀ a ∈ x.pairs, ∀ b ∈ x.pairs, ∀ p,
    (p = a.1 ∨ p = a.2) → (p = b.1 ∨ p = b.2) → a = b
  position_iff : ∀ id p, x.positionOf? id = some p ↔ Carries s p id

/-- A position of a pair is paired with the other one. -/
theorem eq_of_mem_pairs {p : Nat} {a : Nat × Nat}
    (mem_pairs : ∀ p q, (p, q) ∈ x.pairs ↔ p < q ∧ x.partner? p = some q)
    (involutive : ∀ p q, x.partner? p = some q → x.partner? q = some p) (listed : a ∈ x.pairs)
    (inside : p = a.1 ∨ p = a.2) : ∃ q, x.partner? p = some q ∧ a = (min p q, max p q) := by
  obtain ⟨first, second⟩ := a
  obtain ⟨before, paired⟩ := (mem_pairs first second).mp listed
  rcases inside with rfl | rfl
  · refine ⟨second, paired, ?_⟩
    rw [Nat.min_eq_left (Nat.le_of_lt before), Nat.max_eq_right (Nat.le_of_lt before)]
  · refine ⟨first, involutive _ _ paired, ?_⟩
    rw [Nat.min_eq_right (Nat.le_of_lt before), Nat.max_eq_left (Nat.le_of_lt before)]

/-- Everything follows from the entries being the tokens that name each other, and from the pairs
being listed in step with them. -/
theorem resolves_of_partner_iff {s : TokenStream}
    (mem_pairs : ∀ p q, (p, q) ∈ x.pairs ↔ p < q ∧ x.partner? p = some q)
    (ascending : x.pairs.Pairwise fun a b => a.1 < b.1)
    (partner_iff : ∀ p q, x.partner? p = some q ↔ Reciprocal s p q)
    (answered : ∀ p target, Refers s p target → ∃ q, Answered s p target q)
    (position_iff : ∀ id p, x.positionOf? id = some p ↔ Carries s p id) : x.Resolves s := by
  have involutive (p q : Nat) (paired : x.partner? p = some q) : x.partner? q = some p :=
    (partner_iff q p).mpr ((partner_iff p q).mp paired).symm
  refine {
    partner_iff := partner_iff
    paired_iff := ?_
    irreflexive := ?_
    involutive := involutive
    mem_pairs := mem_pairs
    ascending := ascending
    disjoint := ?_
    position_iff := position_iff }
  · intro p
    constructor
    · rintro ⟨q, paired⟩
      obtain ⟨target, refers, _⟩ := (partner_iff p q).mp paired
      exact ⟨target, refers⟩
    · rintro ⟨target, refers⟩
      obtain ⟨q, answers⟩ := answered p target refers
      exact ⟨q, (partner_iff p q).mpr ⟨target, refers, answers⟩⟩
  · intro p paired
    obtain ⟨_, _, distinct, _⟩ := (partner_iff p p).mp paired
    exact distinct rfl
  · intro a inA b inB p ofA ofB
    obtain ⟨q, paired, rfl⟩ := eq_of_mem_pairs mem_pairs involutive inA ofA
    obtain ⟨r, paired', rfl⟩ := eq_of_mem_pairs mem_pairs involutive inB ofB
    obtain rfl := Option.some.inj (paired.symm.trans paired')
    rfl

end Links

/-! ## Pairing a stream -/

namespace TokenStream

open Reference

variable {s : TokenStream}

theorem pairReferences_eq_ok_iff {x : Links} :
    s.pairReferences = .ok x ↔ ∃ known paired, anchors [] 0 s = .ok known ∧
      pairing known 0 s = .ok paired ∧ x = ⟨known, paired.partners.toArray, paired.pairs⟩ := by
  rw [pairReferences, bind_eq_ok_iff]
  constructor
  · rintro ⟨known, filled, done⟩
    obtain ⟨paired, found, done⟩ := bind_eq_ok_iff.mp done
    exact ⟨known, paired, filled, found, (Except.ok.inj done).symm⟩
  · rintro ⟨known, paired, filled, found, rfl⟩
    exact ⟨known, filled, bind_eq_ok_iff.mpr ⟨paired, found, rfl⟩⟩

/-- The references of a stream are paired when no identifier is carried twice and every reference
is answered. -/
theorem exists_pairReferences_iff :
    (∃ x, s.pairReferences = .ok x) ↔
      UniqueIds s ∧ ∀ p target, Refers s p target → ∃ q, Answered s p target q := by
  constructor
  · rintro ⟨x, done⟩
    obtain ⟨known, paired, filled, found, _⟩ := pairReferences_eq_ok_iff.mp done
    have describes : Describes known s := describes_of_anchors describes_nil filled
    refine ⟨describes.uniqueIds, fun p target refers => ?_⟩
    obtain ⟨t, placed, _⟩ := id refers
    obtain ⟨entry, here, _⟩ := getElem?_of_pairing found placed
    rw [Nat.zero_add] at here
    exact (exists_partnerOf_iff describes placed).mp ⟨entry, here⟩ target refers
  · rintro ⟨ids, answered⟩
    -- the first pass needs the identifiers only, the second the answers too
    obtain ⟨known, filled⟩ := exists_anchors ids
    have describes : Describes known s := describes_of_anchors describes_nil filled
    have each (k : Nat) (t : Token) (placed : s[k]? = some t) :
        ∃ entry, partnerOf known (0 + k) t = .ok entry := by
      rw [Nat.zero_add]
      exact (exists_partnerOf_iff describes placed).mpr (answered k)
    obtain ⟨paired, found⟩ := exists_pairing each
    exact ⟨_, pairReferences_eq_ok_iff.mpr ⟨known, paired, filled, found, rfl⟩⟩

/-- What is paired names each other. -/
theorem resolves_of_pairReferences {x : Links} (done : s.pairReferences = .ok x) :
    x.Resolves s := by
  obtain ⟨_, answered⟩ := exists_pairReferences_iff.mp ⟨x, done⟩
  obtain ⟨known, paired, filled, found, rfl⟩ := pairReferences_eq_ok_iff.mp done
  have describes : Describes known s := describes_of_anchors describes_nil filled
  have listed := listed_of_pairing found
  refine Links.resolves_of_partner_iff (fun p q => ?_) listed.ascending (fun p q => ?_) answered
    fun id p => describes.carries_iff
  · rw [listed.mem_iff, Links.partner?, List.getElem?_toArray, Option.join_eq_some_iff]
    simp only [Nat.zero_add, exists_eq_left']
  show paired.partners.toArray[p]?.join = some q ↔ Reciprocal s p q
  rw [List.getElem?_toArray, Option.join_eq_some_iff]
  cases placed : s[p]? with
  | none =>
    -- behind the end of the stream there is neither an entry nor a token
    have behind : s.length ≤ p := List.getElem?_eq_none_iff.mp placed
    rw [List.getElem?_eq_none (partners_length found ▸ behind)]
    constructor
    · intro entry
      cases entry
    · rintro ⟨target, ⟨t, placed', _⟩, _⟩
      cases placed.symm.trans placed'
  | some t =>
    obtain ⟨entry, here, placed'⟩ := getElem?_of_pairing found placed
    rw [Nat.zero_add] at here
    rw [← partnerOf_eq_some_iff describes placed, here, placed', Option.some_inj, Except.ok.injEq]

/-- The index of a well nested stream is its own, so that only the references are left. -/
theorem link_of_proper {f : Forest} (proper : f.Proper) :
    f.tokens.link = f.tokens.pairReferences := by
  rw [link, index_of_proper proper]
  show f.tokens.linkWith f.index = _
  rw [linkWith, checkIndex, Index.disagreement_of_proper proper]
  rfl

theorem wellNested_of_link {x : Links} (linked : s.link = .ok x) : WellNested s.signals := by
  cases indexed : s.index true with
  | error e =>
    rw [link, indexed] at linked
    cases linked
  | ok i => exact wellNested_of_index indexed

/-- The references of a stream are paired exactly when it is well nested, no identifier is carried
twice, and every reference is answered by another token. What is paired then names each other. -/
theorem link_iff_and_resolves (s : TokenStream) :
    ((∃ x, s.link = .ok x) ↔
        WellNested s.signals ∧ UniqueIds s ∧
          ∀ p target, Refers s p target → ∃ q, Answered s p target q) ∧
      ∀ x, s.link = .ok x → x.Resolves s := by
  constructor
  · constructor
    · rintro ⟨x, linked⟩
      have nested := wellNested_of_link linked
      obtain ⟨f, proper, rfl⟩ := wellNested_iff_forest.mp nested
      rw [link_of_proper proper] at linked
      exact ⟨nested, exists_pairReferences_iff.mp ⟨x, linked⟩⟩
    · rintro ⟨nested, answered⟩
      obtain ⟨f, proper, rfl⟩ := wellNested_iff_forest.mp nested
      rw [link_of_proper proper]
      exact exists_pairReferences_iff.mpr answered
  · intro x linked
    obtain ⟨f, proper, rfl⟩ := wellNested_iff_forest.mp (wellNested_of_link linked)
    rw [link_of_proper proper] at linked
    exact resolves_of_pairReferences linked

/-- A group behind its entry count, and data behind its length. The ends repeat the identifiers
and the references of their starts. -/
def linkedMessage : TokenStream :=
  [.structural (.start .message) ⟨"order", some 9, none, default, none⟩,
   .leaf .uint16 .littleEndian ⟨"fillCount", some 1, some 2, default, none⟩,
   .structural (.start .group) ⟨"fills", some 2, some 1, default, none⟩,
   .leaf .uint32 .littleEndian ⟨"noteLength", some 4, some 3, default, none⟩,
   .varyingLeaf .char .littleEndian ⟨"note", some 3, some 4, default, none⟩,
   .structural (.stop .group) ⟨"fills", some 2, some 1, default, none⟩,
   .structural (.stop .message) ⟨"order", some 9, none, default, none⟩]

theorem linkedMessage_resolves :
    ∃ x, linkedMessage.link = .ok x ∧ x.Resolves linkedMessage ∧ x.pairs = [(1, 2), (3, 4)] :=
  ⟨_, rfl, (link_iff_and_resolves linkedMessage).2 _ rfl, rfl⟩

end TokenStream

end WireSchema
