import WireSchema.Nesting.Index

/-!
# Nesting

A stream is well nested when every start signal is closed by the end signal of the same kind at
the same depth. One scan over the signals, with a stack of the entities that are still open,
decides this and records the index as it goes.

Results:

1. `scan_induction`: what recording a position and linking two of them preserve is preserved by the
   whole scan.
-/

namespace WireSchema

/-- Why a stream is not well nested. -/
inductive NestingError
  | noTokens
  /-- An end that closes nothing. -/
  | strayEnd (position : Nat) (kind : EntityKind)
  /-- An end inside an open entity of another kind. -/
  | crossedEnd (position : Nat) (kind : EntityKind) (openPosition : Nat) (openKind : EntityKind)
  /-- A start that is never closed. -/
  | unclosedStart (position : Nat) (kind : EntityKind)
  deriving DecidableEq, Repr

namespace NestingError

def message : NestingError → String
  | noTokens => "stream contains no tokens"
  | strayEnd position kind =>
    (Signal.stop kind).name ++ " at position " ++ position.repr ++ " closes nothing"
  | crossedEnd position kind openPosition openKind =>
    (Signal.stop kind).name ++ " at position " ++ position.repr ++ " crosses unclosed "
      ++ (Signal.start openKind).name ++ " at position " ++ openPosition.repr
  | unclosedStart position kind =>
    (Signal.start kind).name ++ " at position " ++ position.repr ++ " is never closed"

/-- The token that has to be mended: for crossed brackets, the start left open. -/
def position? : NestingError → Option Nat
  | noTokens => none
  | strayEnd position _ | unclosedStart position _ => some position
  | crossedEnd _ _ openPosition _ => some openPosition

end NestingError

namespace Nesting

/-- An entity whose end has not been met. -/
structure Opened where
  kind : EntityKind
  position : Nat
  deriving DecidableEq, Repr

/-- Records the next position inside the open entities, innermost first. -/
def record (recorded : Index) (opened : List Opened) : Index :=
  recorded.push (UInt32.ofNat opened.length) (opened.head?.map Opened.position)

/-- Scans the signals that follow the positions already recorded. -/
def scan (recorded : Index) (opened : List Opened) : List Signal → Except NestingError Index
  | [] =>
    match opened with
    | [] => .ok recorded
    | innermost :: _ => .error (.unclosedStart innermost.position innermost.kind)
  | .stop kind :: rest =>
    match opened with
    | [] => .error (.strayEnd recorded.length kind)
    | innermost :: outer =>
      if innermost.kind = kind then
        scan ((record recorded outer).pair innermost.position recorded.length) outer rest
      else .error (.crossedEnd recorded.length kind innermost.position innermost.kind)
  | .start kind :: rest =>
    scan (record recorded opened) (⟨kind, recorded.length⟩ :: opened) rest
  | .enumValue :: rest => scan (record recorded opened) opened rest
  | .setChoice :: rest => scan (record recorded opened) opened rest
  | .encoding :: rest => scan (record recorded opened) opened rest

/-- Whatever recording a position and linking two of them preserve is preserved by a scan. -/
theorem scan_induction {P : Index → Prop}
    (pushed : ∀ i depth parent, P i → P (i.push depth parent))
    (paired : ∀ i start stop, P i → P (i.pair start stop)) {recorded result : Index}
    {opened : List Opened} {signals : List Signal} (holds : P recorded)
    (scanned : scan recorded opened signals = .ok result) : P result := by
  fun_induction scan recorded opened signals with
  | case1 =>
    obtain rfl := Except.ok.inj scanned
    exact holds
  | case2 | case3 | case5 => cases scanned
  | case4 _ _ _ _ ih => exact ih (paired _ _ _ (pushed _ _ _ holds)) scanned
  | case6 _ _ _ _ ih | case7 _ _ _ ih | case8 _ _ _ ih | case9 _ _ _ ih =>
    exact ih (pushed _ _ _ holds) scanned

end Nesting

namespace TokenStream

/-- Checks that a stream is well nested and indexes it. An empty stream is refused unless it is
allowed as an entity without content. -/
def index (s : TokenStream) (allowEmpty : Bool) : Except NestingError Index :=
  if s.isEmpty && !allowEmpty then .error .noTokens
  else Nesting.scan .empty [] s.signals

end TokenStream

end WireSchema
