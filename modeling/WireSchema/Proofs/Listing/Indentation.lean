import Mathlib.Data.Finset.Lattice.Fold
import Mathlib.Data.Finset.Range
import WireSchema.Proofs.Listing.Lines
import WireSchema.Proofs.Nesting.Scan

/-!
# Indentation

A listing counts starts against ends and stops counting down at zero, so that it can show streams
that are not well nested. It does not look at the kinds of entities and keeps no stack. The depth
that it has reached is the height of the stream, starts less ends, above the lowest height met so
far. On a well-nested stream that is the number of open entities, and the depth of the index.

Results:

1. `depthAfter_eq_rise`: the depth reached behind any number of tokens is the height there above the
   lowest height up to there.
2. `places_depths`: the index of a well-nested stream records the depths of the listing.
3. `listing_indentation`: the indentation of every line, and its agreement with the index.
-/

namespace WireSchema

/-! ## Heights -/

namespace TokenStream

/-- The starts less the ends among a number of tokens at the front. -/
def height (s : TokenStream) (n : Nat) : Int :=
  (s.take n).countP (fun t => t.signal.isStart) - (s.take n).countP (fun t => t.signal.isEnd)

/-- The least height among those up to a number of tokens. -/
def lowest (s : TokenStream) (n : Nat) : Int :=
  (Finset.range (n + 1)).inf' Finset.nonempty_range_add_one s.height

/-- The height above the lowest one so far. -/
def rise (s : TokenStream) (n : Nat) : Int :=
  s.height n - s.lowest n

/-- The level of a token: the rise in front of it, or behind it when it is an end. -/
def level (s : TokenStream) (p : Nat) : Int :=
  if s[p]?.any fun t => t.signal.isEnd then s.rise (p + 1) else s.rise p

variable {s : TokenStream} {n : Nat}

theorem height_succ_of_token {token : Token} (found : s[n]? = some token) :
    s.height (n + 1) = s.height n + (if token.signal.isStart then 1 else 0)
      - (if token.signal.isEnd then 1 else 0) := by
  simp only [height, List.take_add_one, found, Option.toList_some, List.countP_append,
    List.countP_singleton]
  split <;> split <;> omega

theorem height_succ_of_length_le (behind : s.length ≤ n) : s.height (n + 1) = s.height n := by
  simp only [height, List.take_of_length_le behind,
    List.take_of_length_le (Nat.le_succ_of_le behind)]

theorem lowest_succ (s : TokenStream) (n : Nat) :
    s.lowest (n + 1) = min (s.lowest n) (s.height (n + 1)) := by
  simp only [lowest, Finset.range_add_one (n := n + 1),
    Finset.inf'_insert Finset.nonempty_range_add_one]
  exact min_comm _ _

theorem lowest_le_height (s : TokenStream) (n : Nat) : s.lowest n ≤ s.height n :=
  Finset.inf'_le s.height (Finset.self_mem_range_succ n)

end TokenStream

/-! ## Depths of a listing -/

namespace Listing

variable {s : TokenStream} {token : Token} {p : Nat}

theorem depthAfter_concat (depth : Nat) (signals : List Signal) (signal : Signal) :
    depthAfter depth (signals ++ [signal]) = depthBehind (depthAfter depth signals) signal := by
  rw [depthAfter, List.foldl_concat, depthAfter]

theorem depthAfter_take_succ (found : s[p]? = some token) :
    depthAfter 0 ((s.take (p + 1)).map Token.signal)
      = depthBehind (depthAfter 0 ((s.take p).map Token.signal)) token.signal := by
  rw [List.take_add_one, found, Option.toList_some, List.map_append, List.map_singleton,
    depthAfter_concat]

/-- A depth goes up and down with the height, but is held at zero. -/
theorem depthBehind_eq_max (depth : Nat) (signal : Signal) :
    (depthBehind depth signal : Int) = max (0 : Int) ((depth : Int)
      + (if signal.isStart then 1 else 0) - (if signal.isEnd then 1 else 0)) := by
  cases signal with
  | start kind | stop kind =>
    simp only [depthBehind, Signal.isStart, Signal.isEnd, Bool.false_eq_true, if_true, if_false]
    omega
  | _ => simp [depthBehind, Signal.isStart, Signal.isEnd]

/-- Being held at zero, the depth is the height above the lowest one so far. -/
theorem depthAfter_eq_rise (s : TokenStream) (n : Nat) :
    (depthAfter 0 ((s.take n).map Token.signal) : Int) = s.rise n := by
  induction n with
  | zero => simp [depthAfter, TokenStream.rise, TokenStream.lowest, TokenStream.height]
  | succ n ih =>
    have lowest := s.lowest_succ n
    have above := s.lowest_le_height n
    rw [TokenStream.rise] at ih ⊢
    cases found : s[n]? with
    | none =>
      have behind : s.length ≤ n := List.getElem?_eq_none_iff.mp found
      have same := TokenStream.height_succ_of_length_le behind
      rw [List.take_of_length_le behind] at ih
      rw [List.take_of_length_le (Nat.le_succ_of_le behind), ih]
      omega
    | some token =>
      have height := TokenStream.height_succ_of_token found
      rw [depthAfter_take_succ found, depthBehind_eq_max, ih]
      omega

/-- A token is shown at its level. -/
theorem shownDepth_eq_level (found : s[p]? = some token) :
    (shownDepth (depthAfter 0 ((s.take p).map Token.signal)) token.signal : Int) = s.level p := by
  rw [TokenStream.level, found, Option.any_some, shownDepth]
  split
  · next ends =>
    -- an end is shown at the depth that is reached behind it
    have behind := depthAfter_eq_rise s (p + 1)
    rwa [depthAfter_take_succ found, depthBehind, if_pos ends] at behind
  · exact depthAfter_eq_rise s p

theorem shownDepth_le (depth : Nat) (signal : Signal) : shownDepth depth signal ≤ depth := by
  unfold shownDepth
  split <;> omega

theorem depthAfter_le (depth : Nat) (signals : List Signal) :
    depthAfter depth signals ≤ depth + signals.length := by
  induction signals generalizing depth with
  | nil => exact Nat.le_refl depth
  | cons signal rest ih =>
    have later := ih (depthBehind depth signal)
    have here := depthBehind_eq_max depth signal
    rw [depthAfter, List.foldl_cons, ← depthAfter, List.length_cons]
    split at here <;> omega

/-- The depths at which signals are shown. -/
def shownDepths (depth : Nat) : List Signal → List Nat
  | [] => []
  | signal :: rest => shownDepth depth signal :: shownDepths (depthBehind depth signal) rest

theorem shownDepths_append (depth : Nat) (front back : List Signal) :
    shownDepths depth (front ++ back)
      = shownDepths depth front ++ shownDepths (depthAfter depth front) back := by
  induction front generalizing depth with
  | nil => rfl
  | cons signal front ih =>
    rw [List.cons_append, shownDepths, ih, shownDepths, List.cons_append, depthAfter, depthAfter,
      List.foldl_cons]

theorem getElem?_shownDepths (depth : Nat) (signals : List Signal) (k : Nat) :
    (shownDepths depth signals)[k]?
      = signals[k]?.map (shownDepth (depthAfter depth (signals.take k))) := by
  induction signals generalizing depth k with
  | nil => rfl
  | cons signal rest ih =>
    cases k with
    | zero => rfl
    | succ k =>
      rw [shownDepths, List.getElem?_cons_succ, List.getElem?_cons_succ, ih, List.take_succ_cons,
        depthAfter, depthAfter, List.foldl_cons]

/-! ## Depths of an index -/

/-- The units of an entity leave the depth as it was. -/
theorem depthAfter_of_proper {f : Forest} (proper : f.Proper) (depth : Nat) (rest : List Signal) :
    depthAfter depth (f.tokens.signals ++ rest) = depthAfter depth rest := by
  induction f generalizing depth rest with
  | empty => rfl
  | point token others ih =>
    obtain ⟨noStart, noEnd, others_proper⟩ := proper
    rw [Forest.signals_point, List.cons_append, depthAfter, List.foldl_cons, ← depthAfter,
      ih others_proper, depthBehind, if_neg (by simp [noEnd]), if_neg (by simp [noStart])]
  | entity start inside stop others inside_ih others_ih =>
    obtain ⟨⟨kind, starts, stops⟩, inside_proper, others_proper⟩ := proper
    rw [Forest.signals_entity, starts, stops, List.cons_append, List.append_assoc, depthAfter,
      List.foldl_cons, ← depthAfter, inside_ih inside_proper, List.cons_append, depthAfter,
      List.foldl_cons, ← depthAfter, others_ih others_proper]
    rfl

/-- The index of a forest records the depths at which its tokens are shown. -/
theorem places_depths {f : Forest} (proper : f.Proper) (depth : Nat) (parent : Option Nat)
    (position : Nat) :
    (f.places depth parent position).map Place.depth
      = (shownDepths depth f.tokens.signals).map UInt32.ofNat := by
  induction f generalizing depth parent position with
  | empty => rfl
  | point token others ih =>
    obtain ⟨noStart, noEnd, others_proper⟩ := proper
    simp [Forest.places, shownDepths, shownDepth, depthBehind, noStart, noEnd, ih others_proper]
  | entity start inside stop others inside_ih others_ih =>
    obtain ⟨⟨kind, starts, stops⟩, inside_proper, others_proper⟩ := proper
    have around (rest : List Signal) : shownDepths (depth + 1) (inside.tokens.signals ++ rest)
        = shownDepths (depth + 1) inside.tokens.signals ++ shownDepths (depth + 1) rest := by
      have unchanged := depthAfter_of_proper inside_proper (depth + 1) []
      rw [List.append_nil] at unchanged
      rw [shownDepths_append, unchanged]
      rfl
    simp [Forest.places, shownDepths, shownDepth, depthBehind, starts, stops, Signal.isStart,
      Signal.isEnd, around, inside_ih inside_proper, others_ih others_proper]

/-- The depth that an index records of a token is its level, unless the stream is too long for its
depths to be counted. -/
theorem depth?_eq_level {allowEmpty : Bool} {i : Index} (indexed : s.index allowEmpty = .ok i)
    (small : s.length < 2 ^ 32) (found : s[p]? = some token) :
    ∃ depth, i.depth? p = some depth ∧ (depth.toNat : Int) = s.level p := by
  obtain ⟨_, f, proper, rfl, rfl⟩ := TokenStream.index_eq_ok_iff.mp indexed
  have recorded := congrArg (·[p]?) (places_depths proper 0 none 0)
  simp only [List.getElem?_map, getElem?_shownDepths, TokenStream.signals, found, Option.map_some,
    ← List.map_take] at recorded
  rw [← shownDepth_eq_level found]
  refine ⟨.ofNat (shownDepth (depthAfter 0 ((f.tokens.take p).map Token.signal)) token.signal),
    ?_, ?_⟩
  · rw [Index.depth?, f.places_index, List.getElem?_toArray]
    exact recorded
  · have bound := depthAfter_le 0 ((f.tokens.take p).map Token.signal)
    have less := shownDepth_le (depthAfter 0 ((f.tokens.take p).map Token.signal)) token.signal
    have within : p < f.tokens.length := (List.getElem?_eq_some_iff.mp found).1
    rw [List.length_map, List.length_take] at bound
    rw [UInt32.toNat_ofNat_of_lt' (by show _ < 2 ^ 32; omega)]

end Listing

namespace TokenStream

open Listing Text

/-- Every line of a plain listing is indented by two spaces for each level of its token, between
the position with its two separating spaces and the signal. On a well-nested stream whose depths
can be counted, the level of a token is its depth in the index. -/
theorem listing_indentation (s : TokenStream) :
    (∀ p token, s[p]? = some token → ∃ indent : Nat, (indent : Int) = 2 * s.level p ∧
      ((s.listing .plain).toList.splitOn '\n')[p]?
        = some (alignRight (positionWidth s.length) (decimal p) ++ [' ', ' ']
          ++ List.replicate indent ' ' ++ token.signal.name.toList
          ++ description .plain token)) ∧
    (s.length < 2 ^ 32 → ∀ allowEmpty i, s.index allowEmpty = .ok i →
      ∀ p < s.length, ∃ depth, i.depth? p = some depth ∧ (depth.toNat : Int) = s.level p) := by
  constructor
  · intro p token found
    refine ⟨2 * shownDepth (depthAfter 0 ((s.take p).map Token.signal)) token.signal, ?_, ?_⟩
    · rw [Int.natCast_mul, shownDepth_eq_level found]
      rfl
    · have within : p < (contents (positionWidth s.length) 0 0 s).length := by
        rw [contents_length]
        exact (List.getElem?_eq_some_iff.mp found).1
      rw [splitOn_listing, List.getElem?_append_left within, getElem?_contents, found,
        Option.map_some, Nat.zero_add]
      rfl
  · intro small allowEmpty i indexed p within
    exact depth?_eq_level indexed small (List.getElem?_eq_getElem within)

/-- Two ends that close nothing stand in front of a message with a group. -/
def strayEnds : TokenStream :=
  [.structural (.stop .field) ⟨"", none, none, default, none⟩,
   .structural (.stop .group) ⟨"", none, none, default, none⟩,
   .structural (.start .message) ⟨"quote", none, none, default, none⟩,
   .structural (.start .group) ⟨"levels", none, none, default, none⟩,
   .leaf .int64 .littleEndian ⟨"price", none, none, default, none⟩,
   .structural (.stop .group) ⟨"", none, none, default, none⟩]

/-- The message and the group stand for themselves when they are closed. -/
def closedMessage : TokenStream :=
  strayEnds.drop 2 ++ [.structural (.stop .message) ⟨"", none, none, default, none⟩]

theorem strayEnds_indentation :
    ((strayEnds.listing .plain).toList.splitOn '\n')[4]?
        = some "4      NONE \"price\" int64 le size=8 @?".toList ∧
      ∃ i, closedMessage.index false = .ok i ∧
        ∃ depth, i.depth? 2 = some depth ∧ (depth.toNat : Int) = closedMessage.level 2 := by
  obtain ⟨indent, same, shown⟩ := (listing_indentation strayEnds).1 4 _ rfl
  obtain rfl : indent = 4 := by
    have level : strayEnds.level 4 = 2 := by decide
    omega
  refine ⟨shown.trans (by decide +kernel), _, rfl, ?_⟩
  exact (listing_indentation closedMessage).2 (by decide) false _ rfl 2 (by decide)

end TokenStream

end WireSchema
