import TableDriven.Lexicon.Basic
import TableDriven.Input.Basic

/-! # Trails

What the forward automaton read at one place of the input: the units, each with the recognition
code behind it, newest first.  Dropping the head of a trail shortens the match by one unit, and
the length of a trail is the length of the match.  `Lexicon.split` walks a trail with the reverse
automaton to find where a token ends and its right context begins.
-/

namespace TableDriven

/-- The units of a match, each with the recognition code behind it, newest first. -/
abbrev Trail (U : Type) := List (U × Nat)

namespace Lexicon

variable [ScanUnit U] (lexicon : Lexicon)

/-- The state of the forward automaton after `unit`, or `none` if the run ends before it: the
unit has no category, or it leads to the invalid state. -/
def advance? (state : Nat) (unit : U) : Run (Option Nat) :=
  match lexicon.category? (ScanUnit.ordinal unit) with
  | none => return none
  | some category => do
    let next ← lexicon.forward.next state category
    return if next = Automaton.invalidState then none else some next

/-- The state of the reverse automaton after `unit`, or `none` if no context goes back that
far. -/
def retreat? (state : Nat) (unit : U) : Run (Option Nat) :=
  match lexicon.category? (ScanUnit.ordinal unit) with
  | none => return none
  | some category => do
    let next ← lexicon.reverse.next state category
    return if next = Automaton.invalidState then none else some next

/-- Whether both automata let a token end before `context`: the forward one at `code`, the
reverse one in `state`. -/
def isSplit (context code state : Nat) : Run Bool := do
  if ← lexicon.forward.splits code context then
    lexicon.reverse.splits (← lexicon.reverse.code state) context
  else return false

/-- The length of the longest token on a trail with `context` behind it.  The reverse automaton
is in `state` at the end of the trail. -/
def splitFrom (context state : Nat) : Trail U → Run (Option Nat)
  | [] => return none
  | (unit, code) :: shorter => do
    if ← lexicon.isSplit context code state then return some (shorter.length + 1)
    else if shorter.isEmpty then return none
    else
      match ← lexicon.retreat? state unit with
      | none => return none
      | some state => splitFrom context state shorter

/-- The length of the longest token on a trail with `context` behind it, under a start
condition. -/
def split (condition context : Nat) (trail : Trail U) : Run (Option Nat) := do
  lexicon.splitFrom context (← lexicon.reverse.initial condition) trail

end Lexicon

end TableDriven
