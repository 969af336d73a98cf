import Mathlib.Algebra.GroupWithZero.Nat
import WireSchema.Proofs.Layout.Offsets

/-!
# Absolute positions

Offsets are relative to the enclosing entity, so that the place of a token in the whole message is
the sum of its own offset and those of all entities around it. This module compares that sum with a
flat one, over the leaves and markers in front of the token, which knows nothing of entities. The
two agree, and the sum over the entities is known exactly when nothing of varying size has been
passed: no leaf or marker, and no entity that has ended before the token and is of varying size
whatever it contains. A repeating group around the token does no harm.

Results:

1. `total_contributions`: the bytes of a forest are a flat sum over its tokens.
2. `contribution_eq_none_iff`: which tokens make everything behind them unknown.
3. `addsUp_of_getElem?`: the offsets from a token outwards add up to the contributions before it.
4. `outward_offsets_iff_and_sum`: both halves for a whole stream.
-/

namespace WireSchema

/-- Whether a token is a leaf or a marker. -/
def Token.isPoint (t : Token) : Bool := t.signal.isEncoding || t.signal.isMarker

theorem Token.isPoint_iff {t : Token} :
    t.isPoint = true ↔ t.signal.isStart = false ∧ t.signal.isEnd = false := by
  rw [isPoint, Bool.or_eq_true, Signal.isPoint_iff]

theorem Token.not_isPoint_of_start {t : Token} {kind : EntityKind}
    (starts : t.signal = .start kind) : t.isPoint = false := by
  rw [isPoint, starts]
  rfl

theorem Token.not_isPoint_of_stop {t : Token} {kind : EntityKind}
    (stops : t.signal = .stop kind) : t.isPoint = false := by
  rw [isPoint, stops]
  rfl

/-- Whether the entity that a token starts is of varying size whatever it contains. -/
def Token.StartsVarying (t : Token) : Prop := t.signal = .start .group ∨ t.size = .varying

namespace Index

/-- The way outwards from a position: the position itself, the start of the entity around it, and so
on up to the top level. -/
inductive Outward (i : Index) : Option Nat → List Nat → Prop
  | top : Outward i none []
  | step {position : Nat} {outer : List Nat} :
      Outward i (i.parent? position) outer → Outward i (some position) (position :: outer)

/-- There is one way outwards. -/
theorem Outward.unique {i : Index} {position : Option Nat} {way other : List Nat}
    (first : i.Outward position way) (second : i.Outward position other) : way = other := by
  induction first generalizing other with
  | top =>
    cases second
    rfl
  | step _ ih =>
    cases second with
    | step later => rw [ih later]

end Index

namespace Forest

/-! ## Sums of byte counts -/

/-- The sum of byte counts, when all of them are known. -/
def total (counts : List (Option Nat)) : Option Nat := counts.foldr behind (some 0)

theorem behind_comm (first second : Option Nat) : behind first second = behind second first := by
  cases first <;> cases second <;> simp [behind, Nat.add_comm]

theorem behind_total_nil (offset : Option Nat) : behind offset (total []) = offset := by
  cases offset <;> rfl

theorem total_cons (count : Option Nat) (rest : List (Option Nat)) :
    total (count :: rest) = behind count (total rest) :=
  rfl

theorem total_append (front rest : List (Option Nat)) :
    total (front ++ rest) = behind (total front) (total rest) := by
  induction front with
  | nil => exact (behind_zero _).symm
  | cons count more ih =>
    rw [List.cons_append, total_cons, total_cons, ih, behind_assoc]

theorem total_eq_some_iff {counts : List (Option Nat)} {n : Nat} :
    total counts = some n ↔
      (∀ count ∈ counts, count ≠ none) ∧ (counts.map fun count => count.getD 0).sum = n := by
  induction counts generalizing n with
  | nil => simp [total]
  | cons count more ih =>
    rw [total_cons, List.forall_mem_cons, List.map_cons, List.sum_cons]
    cases count with
    | none => simp [behind]
    | some before =>
      simp only [behind, Option.bind_some, Option.map_eq_some_iff, ih]
      simp only [ne_eq, reduceCtorEq, not_false_eq_true, true_and, Option.getD_some]
      constructor
      · rintro ⟨_, ⟨known, rfl⟩, rfl⟩
        exact ⟨known, rfl⟩
      · rintro ⟨known, rfl⟩
        exact ⟨_, ⟨known, rfl⟩, rfl⟩

theorem total_ne_none_iff {counts : List (Option Nat)} :
    total counts ≠ none ↔ ∀ count ∈ counts, count ≠ none := by
  rw [Option.ne_none_iff_exists']
  simp only [total_eq_some_iff, exists_and_left, exists_eq', and_true]

/-! ## What a token contributes -/

/-- What every token adds to the bytes passed: a leaf or a marker its own size, and a start and an
end nothing, except that an end makes them unknown when its entity is of varying size whatever it
contains. -/
def contributions : Forest → List (Option Nat)
  | empty => []
  | point token rest => ownBytes token :: rest.contributions
  | entity start inside _ rest =>
    some 0 :: (inside.contributions ++ entityBytes start (some 0) :: rest.contributions)

theorem contributions_length (f : Forest) : f.contributions.length = f.tokens.length := by
  induction f with
  | empty => rfl
  | point token rest ih => simp [contributions, tokens, ih]
  | entity start inside stop rest inside_ih rest_ih =>
    simp [contributions, tokens, inside_ih, rest_ih]

/-- The bytes of an entity are those inside, unless its end makes them unknown. -/
theorem entityBytes_eq_behind (start : Token) (inside : Option Nat) :
    entityBytes start inside = behind inside (entityBytes start (some 0)) := by
  rw [entityBytes, entityBytes]
  split <;> cases inside <;> rfl

/-- The bytes of a forest are the contributions of its tokens. -/
theorem total_contributions (f : Forest) : total f.contributions = f.bytes := by
  induction f with
  | empty => rfl
  | point token rest ih =>
    rw [contributions, total_cons, ih, bytes]
  | entity start inside stop rest inside_ih rest_ih =>
    rw [contributions, total_cons, behind_zero, total_append, total_cons, inside_ih, rest_ih,
      ← behind_assoc, ← entityBytes_eq_behind, bytes]

/-- Where they are known, the contributions are the sizes of the leaves and markers. -/
theorem contributions_map_getD {f : Forest} (proper : f.Proper) :
    f.contributions.map (fun count => count.getD 0)
      = f.tokens.map fun t => if t.isPoint then t.size.exact.getD 0 else 0 := by
  induction f with
  | empty => rfl
  | point token rest ih =>
    obtain ⟨noStart, noEnd, rest_proper⟩ := proper
    rw [contributions, tokens, List.map_cons, List.map_cons, ih rest_proper,
      if_pos (Token.isPoint_iff.mpr ⟨noStart, noEnd⟩)]
    rfl
  | entity start inside stop rest inside_ih rest_ih =>
    obtain ⟨⟨kind, starts, stops⟩, inside_proper, rest_proper⟩ := proper
    have start_plain : start.isPoint = false := Token.not_isPoint_of_start starts
    have stop_plain : stop.isPoint = false := Token.not_isPoint_of_stop stops
    have ends : (entityBytes start (some 0)).getD 0 = 0 := by
      rw [entityBytes]
      split <;> rfl
    simp [contributions, tokens, inside_ih inside_proper, rest_ih rest_proper, start_plain,
      stop_plain, ends]

theorem ownBytes_eq_none_iff {token : Token} : ownBytes token = none ↔ token.size = .varying := by
  rw [ownBytes, Option.map_eq_none_iff]
  cases token.size <;> simp [Size.bytes?]

theorem entityBytes_zero_eq_none_iff {start : Token} :
    entityBytes start (some 0) = none ↔ start.StartsVarying := by
  rw [entityBytes, Token.StartsVarying]
  split
  · next varies => exact iff_of_true rfl varies
  · next varies => exact iff_of_false (Option.some_ne_none 0) varies

/-- A token makes everything behind it unknown when it is a leaf or a marker of varying size, or the
end of an entity that is of varying size whatever it contains. -/
theorem contribution_eq_none_iff {f : Forest} (proper : f.Proper) {s : TokenStream}
    {counts : List (Option Nat)} {position q : Nat} (spelled : PartAt s position f.tokens)
    (counted : PartAt counts position f.contributions) (low : position ≤ q)
    (high : q < position + f.tokens.length) :
    counts[q]? = some none ↔
      (∃ t, s[q]? = some t ∧ t.isPoint = true ∧ t.size = .varying) ∨
        ∃ p t, (p, q) ∈ f.brackets position ∧ s[p]? = some t ∧ t.StartsVarying := by
  induction f generalizing position with
  | empty => exact absurd low (Nat.not_le.mpr high)
  | point token rest ih =>
    obtain ⟨noStart, noEnd, rest_proper⟩ := proper
    simp only [tokens, List.length_cons] at high
    rcases Nat.eq_or_lt_of_le low with rfl | later
    · have plain : token.isPoint = true := Token.isPoint_iff.mpr ⟨noStart, noEnd⟩
      rw [counted.head, spelled.head, Option.some_inj, ownBytes_eq_none_iff]
      simp [first_not_mem_brackets, plain]
    · exact ih rest_proper spelled.tail counted.tail later (by omega)
  | entity start inside stop rest inside_ih rest_ih =>
    obtain ⟨⟨kind, starts, stops⟩, inside_proper, rest_proper⟩ := proper
    generalize ends : position + 1 + inside.tokens.length = last
    simp only [tokens, List.length_cons, List.length_append] at high
    have spelled_behind := spelled.tail.right
    have counted_behind := counted.tail.right
    rw [ends] at spelled_behind
    rw [contributions_length, ends] at counted_behind
    rcases Nat.eq_or_lt_of_le low with rfl | later
    · have plain : start.isPoint = false := Token.not_isPoint_of_start starts
      rw [counted.head, spelled.head]
      simp [first_not_mem_brackets, plain]
    simp only [mem_brackets_entity_iff_of_end ends]
    rcases Nat.lt_trichotomy q last with inner | rfl | outer
    · simp only [if_pos inner]
      exact inside_ih inside_proper spelled.tail.left counted.tail.left later (by omega)
    · have plain : stop.isPoint = false := Token.not_isPoint_of_stop stops
      rw [counted_behind.head, spelled_behind.head, Option.some_inj, entityBytes_zero_eq_none_iff]
      simp [plain, spelled.head]
    · simp only [if_neg (Nat.lt_asymm outer), if_neg (Nat.ne_of_gt outer)]
      exact rest_ih rest_proper spelled_behind.tail counted_behind.tail outer (by omega)

/-- What has been passed before a position is known as long as nothing of varying size has been. -/
theorem known_before_iff {f : Forest} (proper : f.Proper) {p : Nat}
    (within : p ≤ f.tokens.length) :
    (∀ count ∈ f.contributions.take p, count ≠ none) ↔
      (∀ q t, q < p → f.tokens[q]? = some t → t.isPoint = true → t.size ≠ .varying) ∧
        ∀ start stop t, (start, stop) ∈ f.brackets 0 → stop < p → f.tokens[start]? = some t →
          ¬t.StartsVarying := by
  have unknown {q : Nat} (before : q < p) :=
    contribution_eq_none_iff proper (.refl f.tokens) (.refl f.contributions) (Nat.zero_le q)
      (by omega)
  constructor
  · intro known
    have here {q : Nat} (before : q < p) : f.contributions[q]? ≠ some none := fun none_there => by
      refine known none (List.mem_iff_getElem?.mpr ⟨q, ?_⟩) rfl
      rw [List.getElem?_take, if_pos before, none_there]
    constructor
    · intro q t before there plain varies
      exact here before ((unknown before).mpr (.inl ⟨t, there, plain, varies⟩))
    · intro start stop t listed before there varies
      exact here before ((unknown before).mpr (.inr ⟨start, t, listed, there, varies⟩))
  · rintro ⟨points, entities⟩ count listed rfl
    obtain ⟨q, none_there⟩ := List.mem_iff_getElem?.mp listed
    rw [List.getElem?_take] at none_there
    split at none_there
    · next before =>
      rcases (unknown before).mp none_there with
        ⟨t, there, plain, varies⟩ | ⟨start, t, listed, there, varies⟩
      · exact points q t before there plain varies
      · exact entities start q t listed before there varies
    · cases none_there

/-- The contributions before a position add up to the sizes of the leaves and markers there. -/
theorem sum_before {f : Forest} (proper : f.Proper) (p : Nat) :
    ((f.contributions.take p).map fun count => count.getD 0).sum
      = (((f.tokens.take p).filter Token.isPoint).map fun t => t.size.exact.getD 0).sum := by
  rw [List.map_take, contributions_map_getD proper, ← List.map_take]
  induction f.tokens.take p with
  | nil => rfl
  | cons t rest ih =>
    rw [List.map_cons, List.sum_cons, ih, List.filter_cons]
    cases t.isPoint <;> simp

end Forest

/-! ## The way outwards -/

namespace Index

/-- The way outwards from a position up to an entity, without that entity, meets offsets that add up
to a sum. -/
def AddsUp (i : Index) (offsets : List (Option Nat)) (entity : Option Nat) (position : Nat)
    (sum : Option Nat) : Prop :=
  ∃ way, (∀ outer, i.Outward entity outer → i.Outward (some position) (way ++ outer)) ∧
    Forest.total (way.map fun p => offsets[p]?.join) = sum

variable {i : Index} {offsets : List (Option Nat)} {parent first sum : Option Nat}
  {position p : Nat}

/-- The first unit of an entity is one step away from it. -/
theorem addsUp_first {place : Place} {part : List Place} {others : List (Option Nat)}
    (holds : i.Holds position (place :: part))
    (placed : PartAt offsets position (first :: others)) :
    i.AddsUp offsets place.parent position first := by
  refine ⟨[position], fun outer leads => ?_, ?_⟩
  · rw [← parent?_of_holds holds] at leads
    exact .step leads
  · rw [List.map_singleton, placed.head, Option.join_some]
    cases first <;> rfl

/-- From within an entity the way leads over the start of that entity. -/
theorem AddsUp.trans (inner : i.AddsUp offsets (some position) p sum)
    (outer : i.AddsUp offsets parent position first) :
    i.AddsUp offsets parent p (Forest.behind first sum) := by
  obtain ⟨way, leads, adds⟩ := inner
  obtain ⟨further, leads', adds'⟩ := outer
  refine ⟨way ++ further, fun rest reached => ?_, ?_⟩
  · rw [List.append_assoc]
    exact leads _ (leads' rest reached)
  · rw [List.map_append, Forest.total_append, adds, adds', Forest.behind_comm]

end Index

namespace Forest

/-- The offsets on the way from a token out of a forest add up to the offset of the first unit of
the forest and the contributions before the token. -/
theorem addsUp_of_getElem? {i : Index} {f : Forest} (proper : f.Proper)
    {offsets : List (Option Nat)} {first parent : Option Nat} {depth position k : Nat} {t : Token}
    (holds : i.Holds position (f.places depth parent position))
    (placed : PartAt offsets position (f.offsets first)) (there : f.tokens[k]? = some t)
    (noEnd : t.signal.isEnd = false) :
    i.AddsUp offsets parent (position + k) (behind first (total (f.contributions.take k))) := by
  induction f generalizing first parent depth position k with
  | empty => cases there
  | point token rest ih =>
    obtain ⟨_, _, rest_proper⟩ := proper
    cases k with
    | zero =>
      rw [List.take_zero, behind_total_nil]
      exact Index.addsUp_first holds placed
    | succ k =>
      have later := ih rest_proper (Index.holds_point holds).2 placed.tail there
      rw [behind_assoc, Nat.add_right_comm] at later
      exact later
  | entity start inside stop rest inside_ih rest_ih =>
    obtain ⟨⟨kind, starts, stops⟩, inside_proper, rest_proper⟩ := proper
    generalize ends : position + 1 + inside.tokens.length = last
    obtain ⟨_, _, within, behind⟩ := Index.holds_entity holds ends
    have here := Index.addsUp_first holds placed
    cases k with
    | zero =>
      rw [List.take_zero, behind_total_nil]
      exact here
    | succ k =>
      rw [contributions, List.take_succ_cons, total_cons]
      rw [tokens, List.getElem?_cons_succ] at there
      rcases Nat.lt_trichotomy k inside.tokens.length with inner | rfl | outer
      · rw [List.getElem?_append_left inner] at there
        rw [List.take_append_of_le_length (by rw [contributions_length]; omega), ← Nat.add_assoc,
          Nat.add_right_comm]
        exact (inside_ih inside_proper within placed.tail.left there).trans here
      · rw [List.getElem?_append_right (Nat.le_refl _), Nat.sub_self] at there
        obtain rfl := Option.some.inj there
        rw [stops] at noEnd
        cases noEnd
      · obtain ⟨m, rfl⟩ := Nat.exists_eq_add_of_lt outer
        have placed_behind := placed.tail.right.tail
        rw [offsets_length, ends] at placed_behind
        rw [List.getElem?_append_right (by omega),
          show inside.tokens.length + m + 1 - inside.tokens.length = m + 1 by omega,
          List.getElem?_cons_succ] at there
        have later := rest_ih rest_proper behind placed_behind there
        -- the whole entity has been passed, with the bytes that its own tokens contribute
        have passed :
            total ((inside.contributions ++ entityBytes start (some 0) :: rest.contributions).take
                (inside.tokens.length + m + 1))
              = Forest.behind (entityBytes start inside.bytes)
                  (total (rest.contributions.take m)) := by
          rw [← contributions_length, Nat.add_assoc, List.take_length_add_append,
            List.take_succ_cons, total_append, total_cons, total_contributions, ← behind_assoc,
            ← entityBytes_eq_behind]
        rw [passed, behind_zero, ← behind_assoc,
          show position + (inside.tokens.length + m + 1 + 1) = last + 1 + m by omega]
        exact later

end Forest

/-! ## Whole streams -/

namespace TokenStream

/-- The offset at a position as a natural number, when it is known. -/
def offsetAt (r : TokenStream) (position : Nat) : Option Nat :=
  r[position]?.bind fun t => t.offset.exact

/-- The way outwards from a token meets known offsets only, exactly when no leaf or marker of
varying size stands before the token and no entity has ended there that is of varying size whatever
it contains. The offsets on the way then add up to the sizes of the leaves and markers before the
token. -/
theorem outward_offsets_iff_and_sum {s r : TokenStream} (laid : s.layOut = .ok r) :
    ∃ i, s.index true = .ok i ∧ ∀ p t, s[p]? = some t → t.signal.isEnd = false →
      ∃ way, i.Outward (some p) way ∧
        ((∀ q ∈ way, r.offsetAt q ≠ none) ↔
          (∀ q u, q < p → s[q]? = some u → u.isPoint = true → u.size ≠ .varying) ∧
            ∀ start stop u, i.endOf? start = some stop → stop < p → s[start]? = some u →
              u.signal ≠ .start .group ∧ u.size ≠ .varying) ∧
        ((∀ q ∈ way, r.offsetAt q ≠ none) →
          (way.map fun q => (r.offsetAt q).getD 0).sum
            = (((s.take p).filter Token.isPoint).map fun u => u.size.exact.getD 0).sum) := by
  obtain ⟨f, proper, rfl⟩ := exists_forest_of_layOut laid
  refine ⟨f.index, index_of_proper proper, fun p t there noEnd => ?_⟩
  have within : p ≤ f.tokens.length := Nat.le_of_lt (List.getElem?_eq_some_iff.mp there).1
  obtain ⟨way, leads, adds⟩ := Forest.addsUp_of_getElem? proper (Index.holds_places f)
    (.refl (f.offsets (some 0))) there noEnd
  rw [Nat.zero_add] at leads
  have outward := leads [] .top
  rw [List.append_nil] at outward
  have sum : Forest.total (way.map r.offsetAt) = Forest.total (f.contributions.take p) := by
    rw [← exact_of_layOut proper laid, Forest.behind_zero] at adds
    rw [← adds]
    congr 2
    funext q
    rw [offsetAt, List.getElem?_map]
    cases r[q]? <;> rfl
  have known : (∀ q ∈ way, r.offsetAt q ≠ none) ↔
      ∀ count ∈ f.contributions.take p, count ≠ none := by
    rw [← Forest.total_ne_none_iff, ← sum, Forest.total_ne_none_iff, List.forall_mem_map]
  refine ⟨way, outward, ?_, ?_⟩
  · rw [known, Forest.known_before_iff proper within]
    simp only [Index.endOf?_index_iff, Token.StartsVarying, not_or, ne_eq]
  · intro concrete
    have counted := Forest.total_eq_some_iff.mpr ⟨known.mp concrete, rfl⟩
    rw [Forest.sum_before proper, ← sum, Forest.total_eq_some_iff, List.map_map] at counted
    exact counted.2

/-- A header of two leaves, and a field within the group behind it. -/
def groupBehindHeader : TokenStream :=
  [.structural (.start .message) ⟨"quote", none, none, default, none⟩,
   .structural (.start .composite) ⟨"header", none, none, default, none⟩,
   .leaf .uint16 .littleEndian ⟨"length", none, none, default, none⟩,
   .leaf .uint64 .littleEndian ⟨"time", none, none, default, none⟩,
   .structural (.stop .composite) ⟨"header", none, none, default, none⟩,
   .structural (.start .group) ⟨"levels", none, none, default, none⟩,
   .leaf .uint32 .littleEndian ⟨"price", none, none, default, none⟩,
   .structural (.start .field) ⟨"volume", none, none, default, none⟩,
   .leaf .uint8 .littleEndian ⟨"unit", none, none, default, none⟩,
   .leaf .uint16 .littleEndian ⟨"count", none, none, default, none⟩,
   .structural (.stop .field) ⟨"volume", none, none, default, none⟩,
   .structural (.stop .group) ⟨"levels", none, none, default, none⟩,
   .structural (.stop .message) ⟨"quote", none, none, default, none⟩]

/-- The count has offset 1 in the field, the field 4 in the group, and the group 10 in the
message. -/
theorem groupBehindHeader_sum :
    ∃ r i, groupBehindHeader.layOut = .ok r ∧ groupBehindHeader.index true = .ok i ∧
      i.Outward (some 9) [9, 7, 5, 0] ∧
      [9, 7, 5, 0].map r.offsetAt = [some 1, some 4, some 10, some 0] ∧
      ([9, 7, 5, 0].map fun q => (r.offsetAt q).getD 0).sum
        = (((groupBehindHeader.take 9).filter Token.isPoint).map fun u =>
            u.size.exact.getD 0).sum := by
  obtain ⟨i, indexed, outwards⟩ := outward_offsets_iff_and_sum (s := groupBehindHeader) rfl
  obtain ⟨way, outward, _, sum⟩ := outwards 9 _ rfl rfl
  obtain rfl := Except.ok.inj indexed
  obtain rfl := outward.unique (.step (.step (.step (.step .top))))
  exact ⟨_, _, rfl, rfl, outward, rfl, sum (by decide)⟩

end TokenStream

end WireSchema
