import WireSchema.Nesting.Scan
import WireSchema.Proofs.Nesting.Grammar

/-!
# The scan and the forest

The scan is a stack automaton that fills a table as it goes. It accepts exactly the streams that
proper forests spell out, and the table it leaves behind is a recursion over the forest.

Results:

1. `scan_of_proper`: over a proper forest the scan records the places of the forest and leaves the
   open entities as they were.
2. `closes_of_scan`: whatever the scan accepts closes all open entities.
3. `index_eq_ok_iff`: a stream has an index exactly when a proper forest spells it, and it is the
   index of that forest.
4. `holds_point`, `holds_entity`: what an index says about the units of a forest that it describes.
5. `disagreement_of_proper`: an index agrees with the brackets of its own stream.
-/

namespace WireSchema

/-! ## What the scan records -/

namespace Forest

/-- The places of the tokens of a forest, given the number of entities around it, the start of the
innermost of them, and the position of its first token. -/
def places (depth : Nat) (parent : Option Nat) (position : Nat) : Forest → List Place
  | empty => []
  | point _ rest => ⟨UInt32.ofNat depth, parent, none⟩ :: rest.places depth parent (position + 1)
  | entity _ inside _ rest =>
    let stop := position + 1 + inside.tokens.length
    ⟨UInt32.ofNat depth, parent, some stop⟩
      :: (inside.places (depth + 1) (some position) (position + 1)
        ++ ⟨UInt32.ofNat depth, parent, some position⟩ :: rest.places depth parent (stop + 1))

theorem places_length (f : Forest) (depth : Nat) (parent : Option Nat) (position : Nat) :
    (f.places depth parent position).length = f.tokens.length := by
  induction f generalizing depth parent position with
  | empty => rfl
  | point token rest ih => simp [places, tokens, ih]
  | entity start inside stop rest inside_ih rest_ih =>
    simp [places, tokens, inside_ih, rest_ih]

end Forest

theorem modify_append_cons {α : Type} {front : List α} {position : Nat}
    (sized : front.length = position) (a : α) (back : List α) (change : α → α) :
    (front ++ a :: back).modify position change = front ++ change a :: back := by
  subst sized
  simp [List.modify_eq_take_cons_drop]

namespace Index

/-- The index with the places of further positions, and with the deepest of them. -/
def extend (i : Index) (further : List Place) : Index where
  places := i.places ++ further.toArray
  maxDepth := further.foldl (fun deepest place => max deepest place.depth) i.maxDepth

variable (i : Index)

@[simp] theorem extend_nil : i.extend [] = i := by
  simp [extend]

@[simp] theorem extend_extend (near far : List Place) :
    (i.extend near).extend far = i.extend (near ++ far) := by
  simp [extend, Array.append_assoc]

@[simp] theorem length_extend (further : List Place) :
    (i.extend further).length = i.length + further.length := by
  simp [extend, length]

theorem push_eq_extend (depth : UInt32) (parent : Option Nat) :
    i.push depth parent = i.extend [⟨depth, parent, none⟩] := by
  simp [push, extend]

/-- Linking an end with its start reaches back to the start, which has had no partner so far. -/
theorem pair_eq_extend (depth : UInt32) (parent : Option Nat) (inside : List Place) {stop : Nat}
    (ends : i.length + 1 + inside.length = stop) :
    (((i.push depth parent).extend inside).push depth parent).pair i.length stop
      = i.extend (⟨depth, parent, some stop⟩
          :: (inside ++ [⟨depth, parent, some i.length⟩])) := by
  have sized : (i.places.toList ++ ⟨depth, parent, some stop⟩ :: inside).length = stop := by
    rw [← ends, List.length_append, Nat.add_assoc, Nat.add_comm 1]
    rfl
  have before : i.places.toList.length = i.length := Array.length_toList
  have first := modify_append_cons before ⟨depth, parent, none⟩
    (inside ++ [⟨depth, parent, none⟩]) fun p => { p with partner := some stop }
  have last := modify_append_cons sized ⟨depth, parent, none⟩ []
    fun p => { p with partner := some i.length }
  rw [List.append_assoc, List.append_assoc] at last
  rw [Index.mk.injEq]
  constructor
  · apply Array.toList_inj.mp
    simp only [pair, push, extend, Array.toList_modify, Array.toList_push, Array.toList_append,
      List.append_assoc, List.cons_append, List.nil_append]
    rw [first]
    exact last
  · simp [pair, push, extend]

end Index

namespace Forest

/-- The index of a whole stream that a forest spells out. -/
def index (f : Forest) : Index := Index.empty.extend (f.places 0 none 0)

theorem places_index (f : Forest) : f.index.places = (f.places 0 none 0).toArray := by
  simp [index, Index.extend, Index.empty]

theorem index_length (f : Forest) : f.index.length = f.tokens.length := by
  rw [index, Index.length_extend, Index.length_empty, Nat.zero_add, places_length]

end Forest

namespace Nesting

/-- A signal that neither opens nor closes an entity gets its place and changes nothing else. -/
theorem scan_point {signal : Signal} (noStart : signal.isStart = false)
    (noEnd : signal.isEnd = false) (recorded : Index) (opened : List Opened) (rest : List Signal) :
    scan recorded opened (signal :: rest) = scan (record recorded opened) opened rest := by
  cases signal with
  | start kind => cases noStart
  | stop kind => cases noEnd
  | enumValue | setChoice | encoding => simp [scan]

/-- Over a proper forest the scan records the places of the forest and leaves the open entities as
they were. -/
theorem scan_of_proper {f : Forest} (proper : f.Proper) (recorded : Index) (opened : List Opened)
    (rest : List Signal) :
    scan recorded opened (f.tokens.signals ++ rest)
      = scan (recorded.extend (f.places opened.length (opened.head?.map Opened.position)
          recorded.length)) opened rest := by
  induction f generalizing recorded opened rest with
  | empty => simp [Forest.places]
  | point token others ih =>
    obtain ⟨noStart, noEnd, others_proper⟩ := proper
    rw [Forest.signals_point, List.cons_append, scan_point noStart noEnd, ih others_proper, record,
      Index.length_push, Index.push_eq_extend, Index.extend_extend, Forest.places]
    rfl
  | entity start inside stop others inside_ih others_ih =>
    obtain ⟨⟨kind, starts, stops⟩, inside_proper, others_proper⟩ := proper
    generalize ends : recorded.length + 1 + inside.tokens.length = last
    rw [Forest.signals_entity, starts, stops, List.cons_append, List.append_assoc, List.cons_append,
      scan, inside_ih inside_proper, scan, if_pos rfl, others_ih others_proper]
    simp only [record, Index.length_push, Index.length_extend, Index.length_pair,
      Forest.places_length, ends, List.length_cons, List.head?_cons, Option.map_some]
    -- the end comes to lie behind the places of the inside, and is linked from there
    rw [Index.pair_eq_extend _ _ _ _ (by rw [Forest.places_length, ends]), Index.extend_extend,
      Forest.places, ends]
    simp

end Nesting

/-! ## What the scan accepts -/

namespace Nesting

/-- Whatever the scan accepts closes the open entities. -/
theorem closes_of_scan {s : TokenStream} {recorded result : Index} {opened : List Opened}
    (scanned : scan recorded opened s.signals = .ok result) :
    Closes (opened.map Opened.kind) s := by
  -- from the front, so that a start meets the end that closes it inside the induction hypothesis
  induction s generalizing recorded opened with
  | nil =>
    cases opened with
    | nil => exact .nil
    | cons innermost outer => cases scanned
  | cons token rest ih =>
    rw [TokenStream.signals, List.map_cons, ← TokenStream.signals] at scanned
    cases signal : token.signal with
    | start kind =>
      rw [signal, scan] at scanned
      exact .start signal (ih scanned)
    | stop kind =>
      rw [signal] at scanned
      cases opened with
      | nil => cases scanned
      | cons innermost outer =>
        rw [scan] at scanned
        split at scanned
        · next same => exact .stop (same ▸ signal) (ih scanned)
        · cases scanned
    | enumValue | setChoice | encoding =>
      rw [signal, scan_point rfl rfl] at scanned
      exact .point (by rw [signal]; rfl) (by rw [signal]; rfl) (ih scanned)

end Nesting

namespace TokenStream

/-- The permission to be empty matters to the empty stream only. -/
theorem index_eq_index_true {s : TokenStream} {allowEmpty : Bool}
    (allowed : s ≠ [] ∨ allowEmpty = true) : s.index allowEmpty = s.index true := by
  rcases allowed with filled | rfl
  · cases s with
    | nil => exact absurd rfl filled
    | cons token rest => rfl
  · rfl

theorem allowed_of_index {s : TokenStream} {allowEmpty : Bool} {i : Index}
    (indexed : s.index allowEmpty = .ok i) : s ≠ [] ∨ allowEmpty = true := by
  cases s with
  | nil =>
    cases allowEmpty with
    | false => cases indexed
    | true => exact .inr rfl
  | cons token rest => exact .inl (by simp)

theorem index_of_proper {f : Forest} (proper : f.Proper) : f.tokens.index true = .ok f.index := by
  have scanned := Nesting.scan_of_proper proper .empty [] []
  rw [List.append_nil] at scanned
  rw [index, Bool.not_true, Bool.and_false, if_neg Bool.false_ne_true, scanned]
  rfl

/-- A stream has an index exactly when a proper forest spells it out, and the index is the one of
that forest. -/
theorem index_eq_ok_iff {s : TokenStream} {allowEmpty : Bool} {i : Index} :
    s.index allowEmpty = .ok i ↔
      (s ≠ [] ∨ allowEmpty = true) ∧ ∃ f : Forest, f.Proper ∧ f.tokens = s ∧ f.index = i := by
  constructor
  · intro indexed
    have allowed := allowed_of_index indexed
    refine ⟨allowed, ?_⟩
    rw [index_eq_index_true allowed] at indexed
    have scanned := indexed
    rw [index, Bool.not_true, Bool.and_false, if_neg Bool.false_ne_true] at scanned
    obtain ⟨f, proper, rfl⟩ := Nesting.closes_of_scan scanned
    rw [index_of_proper proper] at indexed
    exact ⟨f, proper, rfl, Except.ok.inj indexed⟩
  · rintro ⟨allowed, f, proper, rfl, rfl⟩
    rw [index_eq_index_true allowed, index_of_proper proper]

theorem wellNested_of_index {s : TokenStream} {allowEmpty : Bool} {i : Index}
    (indexed : s.index allowEmpty = .ok i) : WellNested s.signals := by
  obtain ⟨_, f, proper, spelled, _⟩ := index_eq_ok_iff.mp indexed
  exact wellNested_iff_forest.mpr ⟨f, proper, spelled⟩

theorem exists_index_iff {s : TokenStream} :
    (∃ i, s.index true = .ok i) ↔ WellNested s.signals := by
  constructor
  · rintro ⟨i, indexed⟩
    exact wellNested_of_index indexed
  · intro nested
    obtain ⟨f, proper, rfl⟩ := wellNested_iff_forest.mp nested
    exact ⟨f.index, index_of_proper proper⟩

theorem not_wellNested_of_index {s : TokenStream} {e : NestingError}
    (refused : s.index true = .error e) : ¬WellNested s.signals := by
  intro nested
  obtain ⟨i, indexed⟩ := exists_index_iff.mpr nested
  cases refused.symm.trans indexed

end TokenStream

/-! ## Parts of a list -/

/-- The list has the given part from a position on. -/
def PartAt {α : Type} (whole : List α) (position : Nat) (part : List α) : Prop :=
  part <+: whole.drop position

namespace PartAt

variable {α : Type} {whole part others : List α} {position : Nat} {a : α}

theorem refl (all : List α) : PartAt all 0 all :=
  List.prefix_refl all

theorem head (found : PartAt whole position (a :: part)) : whole[position]? = some a := by
  obtain ⟨later, same⟩ := found
  rw [← Nat.add_zero position, ← List.getElem?_drop, ← same]
  rfl

theorem left (found : PartAt whole position (part ++ others)) : PartAt whole position part :=
  (List.prefix_append part others).trans found

theorem right (found : PartAt whole position (part ++ others)) :
    PartAt whole (position + part.length) others := by
  obtain ⟨later, same⟩ := found
  refine ⟨later, ?_⟩
  have behind := congrArg (List.drop part.length) same
  rwa [List.append_assoc, List.drop_left, List.drop_drop] at behind

theorem tail (found : PartAt whole position (a :: part)) : PartAt whole (position + 1) part :=
  @right α whole [a] part position found

theorem cons (here : whole[position]? = some a) (later : PartAt whole (position + 1) part) :
    PartAt whole position (a :: part) := by
  obtain ⟨within, rfl⟩ := List.getElem?_eq_some_iff.mp here
  rw [PartAt, List.drop_eq_getElem_cons within]
  exact List.cons_prefix_cons.mpr ⟨rfl, later⟩

theorem append (front : PartAt whole position part)
    (back : PartAt whole (position + part.length) others) :
    PartAt whole position (part ++ others) := by
  obtain ⟨later, same⟩ := front
  rw [PartAt, ← List.drop_drop, ← same, List.drop_left] at back
  rw [PartAt, ← same]
  exact (List.prefix_append_right_inj part).mpr back

end PartAt

/-! ## Reading the index of a forest -/

namespace Index

/-- The index has the given places from a position on. -/
def Holds (i : Index) (position : Nat) (part : List Place) : Prop :=
  PartAt i.places.toList position part

/-- The index of a forest holds the places of the forest. -/
theorem holds_places (f : Forest) : f.index.Holds 0 (f.places 0 none 0) := by
  rw [Holds, f.places_index]
  exact PartAt.refl _

variable {i : Index} {depth position : Nat} {parent : Option Nat}

section

variable {place : Place} {part : List Place}

theorem place_of_holds (holds : i.Holds position (place :: part)) :
    i.places[position]? = some place := by
  rw [← Array.getElem?_toList, holds.head]

theorem depth?_of_holds (holds : i.Holds position (place :: part)) :
    i.depth? position = some place.depth := by
  rw [depth?, place_of_holds holds]
  rfl

theorem parent?_of_holds (holds : i.Holds position (place :: part)) :
    i.parent? position = place.parent := by
  rw [parent?, place_of_holds holds]
  rfl

theorem partner?_of_holds (holds : i.Holds position (place :: part)) :
    i.partner? position = place.partner := by
  rw [partner?, place_of_holds holds]
  rfl

end

/-- A point has no partner, and the units behind it follow. -/
theorem holds_point {token : Token} {rest : Forest}
    (holds : i.Holds position ((Forest.point token rest).places depth parent position)) :
    i.partner? position = none ∧ i.Holds (position + 1) (rest.places depth parent (position + 1)) :=
  ⟨partner?_of_holds holds, holds.tail⟩

/-- The start and the end of an entity are partners; its units follow the start, and the units
behind it follow the end. -/
theorem holds_entity {start stop : Token} {inside rest : Forest} {last : Nat}
    (holds : i.Holds position ((Forest.entity start inside stop rest).places depth parent position))
    (ends : position + 1 + inside.tokens.length = last) :
    i.partner? position = some last ∧ i.partner? last = some position ∧
      i.Holds (position + 1) (inside.places (depth + 1) (some position) (position + 1)) ∧
      i.Holds (last + 1) (rest.places depth parent (last + 1)) := by
  subst ends
  have within := holds.tail.left
  have behind := holds.tail.right
  rw [Forest.places_length] at behind
  exact ⟨partner?_of_holds holds, partner?_of_holds behind, within, behind.tail⟩

/-- A later partner is an end. -/
theorem endOf?_of_partner? {stop : Nat} (partners : i.partner? position = some stop)
    (behind : position < stop) : i.endOf? position = some stop := by
  rw [endOf?, partners, Option.filter_some, if_pos (decide_eq_true behind)]

/-- An earlier partner is a start. -/
theorem startOf?_of_partner? {start : Nat} (partners : i.partner? position = some start)
    (before : start < position) : i.startOf? position = some start := by
  rw [startOf?, partners, Option.filter_some, if_pos (decide_eq_true before)]

/-! ## An index and its own stream -/

/-- Every signal of a forest agrees with the partner that the index of the forest records. -/
theorem fits_of_holds {f : Forest} (proper : f.Proper) {signals : Array Signal}
    (holds : i.Holds position (f.places depth parent position))
    (spelled : PartAt signals.toList position f.tokens.signals) {signal : Signal} {p : Nat}
    (listed : (signal, p) ∈ f.tokens.signals.zipIdx position) : i.fits signals p signal = true := by
  induction f generalizing depth position parent with
  | empty => cases listed
  | point token rest ih =>
    obtain ⟨noStart, noEnd, rest_proper⟩ := proper
    obtain ⟨alone, behind⟩ := holds_point holds
    rw [Forest.signals_point, List.zipIdx_cons] at listed
    rcases List.mem_cons.mp listed with here | later
    · obtain ⟨rfl, rfl⟩ := Prod.mk.inj here
      rw [fits, alone, noStart, noEnd]
      rfl
    · exact ih rest_proper behind spelled.tail later
  | entity start inside stop rest inside_ih rest_ih =>
    obtain ⟨⟨kind, starts, stops⟩, inside_proper, rest_proper⟩ := proper
    generalize last : position + 1 + inside.tokens.length = stop_position
    obtain ⟨opens, closes, within, behind⟩ := holds_entity holds last
    rw [Forest.signals_entity] at listed spelled
    have size : inside.tokens.signals.length = inside.tokens.length := List.length_map _
    have first := spelled.head
    have spelled_last := spelled.tail.right
    rw [size, last] at spelled_last
    rw [List.zipIdx_cons, List.zipIdx_append, size, last, List.zipIdx_cons] at listed
    rcases List.mem_cons.mp listed with here | listed
    · obtain ⟨rfl, rfl⟩ := Prod.mk.inj here
      have final := spelled_last.head
      rw [Array.getElem?_toList] at final
      rw [fits, opens]
      simp only [final]
      rw [if_pos (by omega), starts, stops]
      exact beq_self_eq_true _
    rcases List.mem_append.mp listed with inner | listed
    · exact inside_ih inside_proper within spelled.tail.left inner
    rcases List.mem_cons.mp listed with here | outer
    · obtain ⟨rfl, rfl⟩ := Prod.mk.inj here
      rw [Array.getElem?_toList] at first
      rw [fits, closes]
      simp only [first]
      rw [if_neg (by omega), starts, stops]
      exact beq_self_eq_true _
    · exact rest_ih rest_proper behind spelled_last.tail outer

/-- An index agrees with the brackets of the stream that it was made from. -/
theorem disagreement_of_proper {f : Forest} (proper : f.Proper) :
    f.index.disagreement f.tokens = none := by
  rw [disagreement, if_pos f.index_length, Option.map_eq_none_iff, List.find?_eq_none]
  rintro ⟨signal, position⟩ listed
  have agrees : f.index.fits f.tokens.signals.toArray position signal = true :=
    fits_of_holds proper (holds_places f) (List.prefix_refl f.tokens.signals) listed
  show ¬(!f.index.fits f.tokens.signals.toArray position signal) = true
  rw [agrees]
  exact Bool.false_ne_true

end Index

end WireSchema
