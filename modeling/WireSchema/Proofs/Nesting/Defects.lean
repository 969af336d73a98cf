import Mathlib.Data.List.Induction
import Mathlib.Order.Bounds.Basic
import WireSchema.Proofs.Nesting.Delimiting

/-!
# The first defect of a stream

A stream that is not well nested is refused with one error, however many defects it has. Which of
them the error names can be told from the signals alone: the first end behind which no stream is
well nested any more, and if there is none, the last start that is never closed.

The scan keeps a stack of open entities. What it has read so far is, at every moment, a well-nested
part, an unclosed start, a well-nested part, and so on, with one start for each entity of the stack.
An end that does not fit the top of the stack ends this, and nothing else does.

Results:

1. `leavesOpen_or_refused`: a stream leaves entities open, or goes wrong at an end.
2. `scan_of_leavesOpen`: the stack of the scan holds the entities that the signals leave open.
3. `isGreatest_unclosed`, `isLeast_blocked`: the top of the stack is the last start that is not
   closed, and the end that does not fit it is the first one that spoils the stream.
4. `index_first_defect`: which error a stream is refused with.
-/

namespace WireSchema

/-! ## Defects of a stream -/

/-- Some well-nested stream begins with the signals. -/
def Viable (signals : List Signal) : Prop :=
  ∃ rest, WellNested (signals ++ rest)

/-- The token at the position is an end, and no well-nested stream begins with the signals up to and
including it. -/
structure Blocked (signals : List Signal) (p : Nat) : Prop where
  ends : ∃ kind, signals[p]? = some (.stop kind)
  hopeless : ¬Viable (signals.take (p + 1))

/-- The token at the position starts an entity that has no end among the signals. -/
structure Unclosed (signals : List Signal) (a : Nat) : Prop where
  starts : ∃ kind, signals[a]? = some (.start kind)
  never : ∀ b, ¬Delimits signals a b

/-- The signal of the token that has to be mended. -/
def NestingError.signal? : NestingError → Option Signal
  | noTokens => none
  | strayEnd _ kind => some (.stop kind)
  | crossedEnd _ _ _ openKind => some (.start openKind)
  | unclosedStart _ kind => some (.start kind)

theorem WellNested.append {front back : List Signal} (first : WellNested front)
    (second : WellNested back) : WellNested (front ++ back) := by
  induction first with
  | empty => exact second
  | point isPoint _ ih => exact .point isPoint ih
  | entity closes inside_nested _ _ ih =>
    rw [List.cons_append, List.append_assoc, List.cons_append]
    exact .entity closes inside_nested ih

theorem Viable.take {signals : List Signal} (viable : Viable signals) (n : Nat) :
    Viable (signals.take n) := by
  obtain ⟨rest, nested⟩ := viable
  refine ⟨signals.drop n ++ rest, ?_⟩
  rwa [← List.append_assoc, List.take_append_drop]

/-- No position of a viable stream is blocked. -/
theorem Viable.not_blocked {signals : List Signal} (viable : Viable signals) (p : Nat) :
    ¬Blocked signals p :=
  fun blocked => blocked.hopeless (viable.take (p + 1))

namespace Delimits

/-- Signals in front of an entity move it and change nothing else about it. -/
theorem behind {signals : List Signal} {a b : Nat} (delimits : Delimits signals a b)
    (front : List Signal) :
    Delimits (front ++ signals) (front.length + a) (front.length + b) := by
  obtain ⟨before, kind, inside, back, rfl, rfl, rfl, nested⟩ := delimits_iff_parts.mp delimits
  refine delimits_iff_parts.mpr ⟨front ++ before, kind, inside, back, ?_, ?_, ?_, nested⟩
  · rw [List.append_assoc]
  · rw [List.length_append]
  · rw [Nat.add_assoc, Nat.add_assoc, Nat.add_assoc]

end Delimits

/-- Every start of a well-nested stream is closed. -/
theorem WellNested.exists_delimits {signals : List Signal} (nested : WellNested signals)
    {a : Nat} {kind : EntityKind} (starts : signals[a]? = some (.start kind)) :
    ∃ b, Delimits signals a b := by
  obtain ⟨f, proper, rfl⟩ := nested.exists_forest
  obtain ⟨b, listed⟩ := Forest.exists_bracket_of_start proper starts
  exact ⟨b, Forest.delimits_of_mem_brackets proper listed⟩

namespace Nesting

/-! ## What is left open -/

/-- The signals leave the given entities open, the innermost first: behind the start of each of
them, up to the next of these starts, everything is closed. -/
inductive LeavesOpen : List Opened → List Signal → Prop
  | nothing {signals : List Signal} (nested : WellNested signals) : LeavesOpen [] signals
  | innermost {outer : List Opened} {front inside : List Signal} {kind : EntityKind}
      (before : LeavesOpen outer front) (nested : WellNested inside) :
      LeavesOpen (⟨kind, front.length⟩ :: outer) (front ++ .start kind :: inside)

/-- An end of the kind does not close the innermost of the open entities. -/
def Refuses (opened : List Opened) (kind : EntityKind) : Prop :=
  ∀ innermost ∈ opened.head?, innermost.kind ≠ kind

/-- Where nothing is open, no end fits. -/
theorem refuses_nil (kind : EntityKind) : Refuses [] kind := by
  rintro _ ⟨⟩

theorem refuses_cons_iff {innermost : Opened} {outer : List Opened} {kind : EntityKind} :
    Refuses (innermost :: outer) kind ↔ innermost.kind ≠ kind := by
  simp [Refuses]

namespace LeavesOpen

variable {opened outer : List Opened} {signals more : List Signal} {kind : EntityKind} {a : Nat}

theorem append (leaves : LeavesOpen opened signals) (nested : WellNested more) :
    LeavesOpen opened (signals ++ more) := by
  cases leaves with
  | nothing before => exact .nothing (before.append nested)
  | innermost before inside_nested =>
    rw [List.append_assoc, List.cons_append]
    exact .innermost before (inside_nested.append nested)

theorem start (leaves : LeavesOpen opened signals) (kind : EntityKind) :
    LeavesOpen (⟨kind, signals.length⟩ :: opened) (signals ++ [.start kind]) :=
  .innermost leaves .empty

theorem stop (leaves : LeavesOpen (⟨kind, a⟩ :: outer) signals) :
    LeavesOpen outer (signals ++ [.stop kind]) := by
  cases leaves with
  | innermost before nested =>
    rw [List.append_assoc, List.cons_append]
    exact before.append (.entity rfl nested .empty)

/-- One more signal changes what is left open, unless it is an end that does not fit. -/
theorem step (leaves : LeavesOpen opened signals) (signal : Signal) :
    (∃ opened', LeavesOpen opened' (signals ++ [signal])) ∨
      ∃ kind, signal = .stop kind ∧ Refuses opened kind := by
  cases signal with
  | start kind => exact .inl ⟨_, leaves.start kind⟩
  | stop kind =>
    cases opened with
    | nil => exact .inr ⟨kind, rfl, refuses_nil kind⟩
    | cons innermost outer =>
      by_cases same : innermost.kind = kind
      · subst same
        exact .inl ⟨outer, leaves.stop⟩
      · exact .inr ⟨kind, rfl, refuses_cons_iff.mpr same⟩
  | enumValue | setChoice | encoding =>
    exact .inl ⟨opened, leaves.append (.point (Signal.isPoint_iff.mpr ⟨rfl, rfl⟩) .empty)⟩

/-- What is left open can still be closed. -/
theorem viable (leaves : LeavesOpen opened signals) : Viable signals := by
  induction opened generalizing signals with
  | nil =>
    cases leaves with
    | nothing nested => exact ⟨[], by rwa [List.append_nil]⟩
  | cons innermost outer ih =>
    obtain ⟨rest, nested⟩ := ih leaves.stop
    exact ⟨.stop innermost.kind :: rest, by rwa [List.append_cons]⟩

end LeavesOpen

/-- Signals leave entities open, or one of their ends does not fit what is open in front of it. -/
theorem leavesOpen_or_refused (signals : List Signal) :
    (∃ opened, LeavesOpen opened signals) ∨
      ∃ front opened kind back, signals = front ++ .stop kind :: back ∧
        LeavesOpen opened front ∧ Refuses opened kind := by
  -- from the back, since what is open depends on everything in front
  induction signals using List.reverseRecOn with
  | nil => exact .inl ⟨[], .nothing .empty⟩
  | append_singleton signals signal ih =>
    rcases ih with ⟨opened, leaves⟩ | ⟨front, opened, kind, back, rfl, leaves, refused⟩
    · rcases leaves.step signal with further | ⟨kind, rfl, refused⟩
      · exact .inl further
      · exact .inr ⟨signals, opened, kind, [], rfl, leaves, refused⟩
    · refine .inr ⟨front, opened, kind, back ++ [signal], ?_, leaves, refused⟩
      rw [List.append_assoc, List.cons_append]

/-! ## The stack of the scan -/

/-- Over a well-nested part the scan goes on with the open entities that it had. -/
theorem scan_of_wellNested {signals : List Signal} (nested : WellNested signals)
    (recorded : Index) (opened : List Opened) :
    ∃ later : Index, later.length = recorded.length + signals.length ∧
      ∀ rest, scan recorded opened (signals ++ rest) = scan later opened rest := by
  obtain ⟨f, proper, rfl⟩ := nested.exists_forest
  refine ⟨_, ?_, fun rest => scan_of_proper proper recorded opened rest⟩
  simp [Forest.places_length, TokenStream.signals]

/-- The stack of the scan holds the entities that the signals leave open. -/
theorem scan_of_leavesOpen {opened : List Opened} {signals : List Signal}
    (leaves : LeavesOpen opened signals) :
    ∃ recorded : Index, recorded.length = signals.length ∧
      ∀ rest, scan .empty [] (signals ++ rest) = scan recorded opened rest := by
  induction leaves with
  | nothing nested =>
    obtain ⟨recorded, size, scanned⟩ := scan_of_wellNested nested .empty []
    exact ⟨recorded, by simpa using size, scanned⟩
  | @innermost outer front inside kind _ nested ih =>
    obtain ⟨before, size, scanned⟩ := ih
    obtain ⟨recorded, size', scanned'⟩ :=
      scan_of_wellNested nested (record before outer) (⟨kind, front.length⟩ :: outer)
    refine ⟨recorded, ?_, fun rest => ?_⟩
    · rw [size', record, Index.length_push, size, List.length_append, List.length_cons]
      omega
    · rw [List.append_assoc, scanned, List.cons_append, scan, size, scanned']

/-- The error of an end that does not fit: there is nothing to close, or something else is open. -/
def refusal (position : Nat) (kind : EntityKind) : List Opened → NestingError
  | [] => .strayEnd position kind
  | innermost :: _ => .crossedEnd position kind innermost.position innermost.kind

variable {opened : List Opened} {front back signals : List Signal} {kind : EntityKind} {a : Nat}

/-- The scan stops at an end that does not fit, whatever stands behind it. -/
theorem scan_refused (leaves : LeavesOpen opened front) (refused : Refuses opened kind)
    (back : List Signal) :
    scan .empty [] (front ++ .stop kind :: back) = .error (refusal front.length kind opened) := by
  obtain ⟨recorded, size, scanned⟩ := scan_of_leavesOpen leaves
  rw [scanned, ← size]
  cases opened with
  | nil => rfl
  | cons innermost outer =>
    rw [scan, if_neg (refuses_cons_iff.mp refused)]
    rfl

theorem scan_unclosed {innermost : Opened} (leaves : LeavesOpen (innermost :: opened) signals) :
    scan .empty [] signals = .error (.unclosedStart innermost.position innermost.kind) := by
  obtain ⟨recorded, _, scanned⟩ := scan_of_leavesOpen leaves
  rw [← List.append_nil signals, scanned]
  rfl

/-- A stream that the scan refuses is not well nested. -/
theorem not_wellNested_of_scan {e : NestingError} (refused : scan .empty [] signals = .error e) :
    ¬WellNested signals := by
  intro nested
  obtain ⟨recorded, _, scanned⟩ := scan_of_wellNested nested .empty []
  rw [← List.append_nil signals, scanned] at refused
  cases refused

theorem wellNested_iff_nothing_open (leaves : LeavesOpen opened signals) :
    WellNested signals ↔ opened = [] := by
  constructor
  · intro nested
    cases opened with
    | nil => rfl
    | cons innermost outer => exact absurd nested (not_wellNested_of_scan (scan_unclosed leaves))
  · rintro rfl
    cases leaves with
    | nothing nested => exact nested

/-! ## Where the defect is -/

/-- An end that does not fit cannot be part of a well-nested stream. -/
theorem not_viable_of_refused (leaves : LeavesOpen opened front) (refused : Refuses opened kind) :
    ¬Viable (front ++ [.stop kind]) := by
  rintro ⟨rest, nested⟩
  rw [List.append_assoc] at nested
  exact not_wellNested_of_scan (scan_refused leaves refused rest) nested

/-- The first end that spoils the stream is the one that does not fit what is open. -/
theorem isLeast_blocked (leaves : LeavesOpen opened front) (refused : Refuses opened kind) :
    IsLeast {p | Blocked (front ++ .stop kind :: back) p} front.length := by
  constructor
  · refine ⟨⟨kind, getElem?_append_cons front back _⟩, ?_⟩
    rw [List.append_cons, List.take_left' (by rw [List.length_append]; rfl)]
    exact not_viable_of_refused leaves refused
  · intro p blocked
    by_contra before
    have shorter : p + 1 ≤ front.length := Nat.lt_of_not_le before
    refine blocked.hopeless ?_
    rw [List.take_append_of_le_length shorter]
    exact leaves.viable.take (p + 1)

/-- Nothing closes a start behind which everything is closed already. -/
theorem not_delimits_of_wellNested {inside : List Signal} (nested : WellNested inside) (b : Nat) :
    ¬Delimits (front ++ .start kind :: inside) front.length b := by
  intro delimits
  -- its end would stand in a well-nested part, with nothing to close in front of it
  obtain ⟨front', kind', inside', back, parts, sized, _, nested'⟩ := delimits_iff_parts.mp delimits
  obtain ⟨rfl, later⟩ := List.append_inj parts sized.symm
  obtain ⟨_, rfl⟩ := List.cons.inj later
  have refused := scan_refused (.nothing nested') (refuses_nil kind') back
  exact not_wellNested_of_scan refused nested

/-- A start in a well-nested part is closed there. -/
theorem le_of_unclosed {inside : List Signal} (nested : WellNested inside) {c : Nat}
    (unclosed : Unclosed (front ++ .start kind :: inside) c) : c ≤ front.length := by
  by_contra behind
  obtain ⟨⟨kind', opens⟩, never⟩ := unclosed
  obtain ⟨d, rfl⟩ := Nat.exists_eq_add_of_lt (Nat.lt_of_not_le behind)
  have first : (front ++ [Signal.start kind]).length = front.length + 1 := by simp
  rw [List.append_cons] at opens never
  rw [Nat.add_right_comm, ← first, List.getElem?_append_right (Nat.le_add_right _ _),
    Nat.add_sub_cancel_left] at opens
  obtain ⟨b, delimits⟩ := nested.exists_delimits opens
  have moved := delimits.behind (front ++ [.start kind])
  rw [first, Nat.add_right_comm] at moved
  exact never _ moved

/-- The innermost open entity is the last one that is not closed. -/
theorem isGreatest_unclosed {outer : List Opened}
    (leaves : LeavesOpen (⟨kind, a⟩ :: outer) signals) :
    IsGreatest {c | Unclosed signals c} a ∧ signals[a]? = some (.start kind) := by
  cases leaves with
  | @innermost _ front inside _ _ nested =>
    have starts := getElem?_append_cons front inside (.start kind)
    exact ⟨⟨⟨⟨kind, starts⟩, not_delimits_of_wellNested nested⟩, fun _ => le_of_unclosed nested⟩,
      starts⟩

end Nesting

/-! ## The error of a stream -/

namespace TokenStream

open Nesting

theorem index_of_ne_nil {s : TokenStream} (filled : s ≠ []) (allowEmpty : Bool) :
    s.index allowEmpty = scan .empty [] s.signals := by
  rw [index, List.isEmpty_eq_false_iff.mpr filled, Bool.false_and, if_neg Bool.false_ne_true]

section

variable {opened : List Opened} {front back : List Signal} {kind : EntityKind}

/-- A stream is refused at the first end that does not fit, whatever stands behind that end. -/
theorem index_of_refused {s : TokenStream} (parts : s.signals = front ++ .stop kind :: back)
    (leaves : LeavesOpen opened front) (refused : Refuses opened kind) (allowEmpty : Bool) :
    s.index allowEmpty = .error (refusal front.length kind opened) := by
  have filled : s ≠ [] := by
    rintro rfl
    exact List.append_ne_nil_of_right_ne_nil _ (List.cons_ne_nil _ _) parts.symm
  rw [index_of_ne_nil filled, parts, scan_refused leaves refused]

theorem index_of_take {s : TokenStream}
    (begins : s.signals.take (front.length + 1) = front ++ [.stop kind])
    (leaves : LeavesOpen opened front) (refused : Refuses opened kind) (allowEmpty : Bool) :
    s.index allowEmpty = .error (refusal front.length kind opened) := by
  have parts : s.signals = front ++ .stop kind :: s.signals.drop (front.length + 1) := by
    rw [List.append_cons, ← begins, List.take_append_drop]
  exact index_of_refused parts leaves refused allowEmpty

/-- The innermost open start is a token of the stream. -/
theorem start_of_refused {s : TokenStream} {innermost : Opened} {outer : List Opened}
    (parts : s.signals = front ++ .stop kind :: back)
    (leaves : LeavesOpen (innermost :: outer) front) :
    s.signals[innermost.position]? = some (.start innermost.kind) := by
  have starts := (isGreatest_unclosed leaves).2
  rw [parts, List.getElem?_append_left (List.getElem?_eq_some_iff.mp starts).1]
  exact starts

/-- The token that has to be mended is the end when nothing is open in front of it, and the
innermost open start otherwise. -/
theorem exists_token_of_refused {s : TokenStream}
    (parts : s.signals = front ++ .stop kind :: back) (leaves : LeavesOpen opened front) :
    ∃ q t, (refusal front.length kind opened).position? = some q ∧ s[q]? = some t ∧
      (refusal front.length kind opened).signal? = some t.signal := by
  cases opened with
  | nil =>
    obtain ⟨t, found, same⟩ := token_of_signal (parts ▸ getElem?_append_cons front back _)
    exact ⟨_, t, rfl, found, congrArg some same⟩
  | cons innermost outer =>
    obtain ⟨t, found, same⟩ := token_of_signal (start_of_refused parts leaves)
    exact ⟨_, t, rfl, found, congrArg some same⟩

end

/-- A stream that is not well nested is refused with its first defect. If some end spoils it, the
error is about the first such end: it closes nothing when the tokens in front of it are well nested,
and it crosses the last start among them that is not closed when they are not; what stands behind
the end does not matter. If no end spoils the stream, the error is about the last start that is
never closed. In any case, the error points to a token of the stream, and names its signal. -/
theorem index_first_defect {s : TokenStream} (filled : s ≠ []) (malformed : ¬WellNested s.signals)
    (allowEmpty : Bool) :
    (∀ p kind, IsLeast {q | Blocked s.signals q} p → s.signals[p]? = some (.stop kind) →
      (WellNested (s.signals.take p) → s.index allowEmpty = .error (.strayEnd p kind)) ∧
      (¬WellNested (s.signals.take p) → ∃ a openKind,
        IsGreatest {c | Unclosed (s.signals.take p) c} a ∧
        s.signals[a]? = some (.start openKind) ∧
        (Signal.start openKind).closing ≠ some (.stop kind) ∧
        s.index allowEmpty = .error (.crossedEnd p kind a openKind)) ∧
      ∀ t : TokenStream, t.signals.take (p + 1) = s.signals.take (p + 1) →
        t.index allowEmpty = s.index allowEmpty) ∧
    ((∀ p, ¬Blocked s.signals p) → ∃ a kind,
      IsGreatest {c | Unclosed s.signals c} a ∧ s.signals[a]? = some (.start kind) ∧
      s.index allowEmpty = .error (.unclosedStart a kind)) ∧
    ∃ e, s.index allowEmpty = .error e ∧
      ∃ q t, e.position? = some q ∧ s[q]? = some t ∧ e.signal? = some t.signal := by
  rcases leavesOpen_or_refused s.signals with
    ⟨opened, leaves⟩ | ⟨front, opened, kind, back, parts, leaves, refused⟩
  · cases opened with
    | nil => exact absurd ((wellNested_iff_nothing_open leaves).mpr rfl) malformed
    | cons innermost outer =>
      obtain ⟨last, starts⟩ := isGreatest_unclosed leaves
      have indexed := index_of_ne_nil filled allowEmpty
      rw [scan_unclosed leaves] at indexed
      refine ⟨fun p kind first => absurd first.1 (leaves.viable.not_blocked p),
        fun _ => ⟨_, _, last, starts, indexed⟩, _, indexed, ?_⟩
      obtain ⟨t, found, same⟩ := token_of_signal starts
      exact ⟨_, t, rfl, found, congrArg some same⟩
  · have first : IsLeast {q | Blocked s.signals q} front.length :=
      parts ▸ isLeast_blocked leaves refused
    have begins : s.signals.take front.length = front := by
      rw [parts, List.take_left]
    have through : s.signals.take (front.length + 1) = front ++ [.stop kind] := by
      rw [parts, List.append_cons, List.take_left' (by rw [List.length_append]; rfl)]
    have indexed := index_of_refused parts leaves refused allowEmpty
    refine ⟨fun p kind' least ends => ?_, fun unspoilt => absurd first.1 (unspoilt _),
      _, indexed, exists_token_of_refused parts leaves⟩
    obtain rfl : front.length = p := first.unique least
    obtain rfl : kind = kind' := by
      rw [parts, getElem?_append_cons] at ends
      exact Signal.stop.inj (Option.some.inj ends)
    rw [begins, wellNested_iff_nothing_open leaves]
    refine ⟨?_, fun some_open => ?_, fun t same => ?_⟩
    · rintro rfl
      exact indexed
    · obtain ⟨innermost, outer, rfl⟩ := List.exists_cons_of_ne_nil some_open
      have differs := refuses_cons_iff.mp refused
      exact ⟨_, _, (isGreatest_unclosed leaves).1, start_of_refused parts leaves,
        fun same => differs (Signal.stop.inj (Option.some.inj same)), indexed⟩
    · rw [indexed]
      exact index_of_take (same.trans through) leaves refused allowEmpty

/-- A field whose message ends first. -/
def crossedField : TokenStream :=
  [.structural (.start .message) ⟨"Order", none, none, default, none⟩,
    .structural (.start .field) ⟨"price", none, none, default, none⟩,
    .structural (.stop .message) ⟨"Order", none, none, default, none⟩,
    .structural (.stop .field) ⟨"price", none, none, default, none⟩]

/-- Only the first of its two ends that cross is reported, and in every stream that begins with the
same three signals. -/
theorem crossedField_first_defect :
    crossedField ≠ [] ∧ ¬WellNested crossedField.signals ∧
      IsLeast {q | Blocked crossedField.signals q} 2 ∧
      (∀ t : TokenStream,
        t.signals.take 3 = [.start .message, .start .field, .stop .message] →
          t.index false = .error (.crossedEnd 2 .message 1 .field)) ∧
      ∃ e, crossedField.index false = .error e ∧
        ∃ q t, e.position? = some q ∧ crossedField[q]? = some t ∧ e.signal? = some t.signal := by
  have leaves : LeavesOpen [⟨.field, 1⟩, ⟨.message, 0⟩] [.start .message, .start .field] :=
    ((LeavesOpen.nothing .empty).start .message).start .field
  have refused : Refuses [⟨.field, 1⟩, ⟨.message, 0⟩] .message :=
    refuses_cons_iff.mpr (by decide)
  have filled : crossedField ≠ [] := List.cons_ne_nil _ _
  have malformed : ¬WellNested crossedField.signals :=
    not_wellNested_of_scan (scan_refused leaves refused [.stop .field])
  have least : IsLeast {q | Blocked crossedField.signals q} 2 := isLeast_blocked leaves refused
  obtain ⟨named, _, mended⟩ := index_first_defect filled malformed false
  obtain ⟨_, _, agree⟩ := named 2 .message least rfl
  exact ⟨filled, malformed, least, agree, mended⟩

end TokenStream

end WireSchema
