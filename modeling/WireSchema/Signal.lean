import WireSchema.Vocabulary

/-!
# Signals

The structural role of a token. Six kinds of entity are delimited by a start and an end signal;
enumeration values and bitset choices are single points inside their entity; every other token is
a leaf that carries a scalar encoding.

Results:

1. `closing_eq_some_iff`, `opening_eq_some_iff`: the end signal of a kind closes the start signal
   of the same kind, and nothing else is closed or opened.
-/

namespace WireSchema

/-- The kinds of entity that a start and an end signal delimit. -/
inductive EntityKind
  | message
  | composite
  | field
  /-- A repeating group: its entry count is only known at run time. -/
  | group
  | enumeration
  | bitset
  deriving DecidableEq, Repr

/-- The structural role of a token. -/
inductive Signal
  | start (kind : EntityKind)
  | stop (kind : EntityKind)
  /-- One legal value of an enumeration. -/
  | enumValue
  /-- One bit position of a bitset. -/
  | setChoice
  /-- A leaf with a scalar encoding. -/
  | encoding
  deriving DecidableEq, Repr

namespace Signal

/-- Every signal, in the order of their numbers in the payload. -/
def all : List Signal :=
  [.start .message, .stop .message, .start .composite, .stop .composite, .start .field, .stop .field,
   .start .group, .stop .group, .start .enumeration, .enumValue, .stop .enumeration,
   .start .bitset, .setChoice, .stop .bitset, .encoding]

def name : Signal → String
  | start .message => "MESSAGE_START"
  | stop .message => "MESSAGE_END"
  | start .composite => "COMPOSITE_START"
  | stop .composite => "COMPOSITE_END"
  | start .field => "FIELD_START"
  | stop .field => "FIELD_END"
  | start .group => "GROUP_START"
  | stop .group => "GROUP_END"
  | start .enumeration => "ENUM_START"
  | enumValue => "ENUM_VALUE"
  | stop .enumeration => "ENUM_END"
  | start .bitset => "SET_START"
  | setChoice => "SET_CHOICE"
  | stop .bitset => "SET_END"
  | encoding => "NONE"

theorem name_injective (a b : Signal) (h : name a = name b) : a = b := by
  cases a with
  | start k | stop k =>
    cases b with
    | start l | stop l => cases k <;> cases l <;> simp_all [name]
    | _ => cases k <;> simp_all [name]
  | _ =>
    cases b with
    | start l | stop l => cases l <;> simp_all [name]
    | _ => simp_all [name]

instance : Vocabulary Signal where
  terms := all
  name := name
  complete a := by
    cases a with
    | start k | stop k => cases k <;> decide
    | _ => decide
  name_injective := name_injective

def isStart : Signal → Bool
  | start _ => true
  | _ => false

def isEnd : Signal → Bool
  | stop _ => true
  | _ => false

/-- Whether this is a single point inside its entity. -/
def isMarker : Signal → Bool
  | enumValue | setChoice => true
  | _ => false

/-- Whether this is a leaf with a scalar encoding. -/
def isEncoding : Signal → Bool
  | encoding => true
  | _ => false

def closing : Signal → Option Signal
  | start kind => some (stop kind)
  | _ => none

def opening : Signal → Option Signal
  | stop kind => some (start kind)
  | _ => none

theorem closing_eq_some_iff {s t : Signal} :
    s.closing = some t ↔ ∃ kind, s = start kind ∧ t = stop kind := by
  cases s <;> simp [closing, eq_comm]

theorem opening_eq_some_iff {s t : Signal} :
    t.opening = some s ↔ ∃ kind, s = start kind ∧ t = stop kind := by
  cases t <;> simp [opening, eq_comm]

end Signal

end WireSchema
