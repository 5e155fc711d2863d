import TableDriven.Fault

/-! # Scanner tables

A lexicon tells which tokens begin an input.  Every unit of input belongs to a category, and two
automata read categories.  The forward automaton reads a token followed by its right context,
text that must come next but stays in the input; the reverse automaton reads backwards from the
end of such a match and finds where the context may begin.  A state has a recognition code, and
codes have the tokens recognized in them and, for each context, whether a token may end there.
Start conditions choose the initial states.
-/

namespace TableDriven

/-- One automaton of a lexicon: the initial state of each start condition, the next state by state
and category, the recognition code of each state, the tokens of each code in ascending order, and
whether a token may end before a context, by code and context. -/
structure Automaton where
  initialStates : Array UInt16
  transitions : Array (Array UInt16)
  codes : Array UInt16
  tokenLists : Array (Array UInt16)
  contextSplits : Array (Array Bool)
  deriving DecidableEq, Inhabited

namespace Automaton

variable (automaton : Automaton)

def invalidState : Nat := 0

def stateCount : Nat := automaton.transitions.size

def codeCount : Nat := automaton.tokenLists.size

def initial (condition : Nat) : Run Nat := do
  return (← Run.lookup automaton.initialStates condition).toNat

/-- The state after a unit of the given category. -/
def next (state category : Nat) : Run Nat := do
  return (← Run.lookup (← Run.lookup automaton.transitions state) category).toNat

def code (state : Nat) : Run Nat := do
  return (← Run.lookup automaton.codes state).toNat

def tokens (code : Nat) : Run (List Nat) := do
  return (← Run.lookup automaton.tokenLists code).toList.map UInt16.toNat

/-- Whether a token may end before `context` where a code is recognized. -/
def splits (code context : Nat) : Run Bool := do
  Run.lookup (← Run.lookup automaton.contextSplits code) context

end Automaton

/-- The tables of a scanner.  Units behind the last entry of `categories` have none.  The param of a
token is the number to deliver it by, or a negative one for its own; its context is -1 if it has
none. -/
structure Lexicon where
  categoryCount : UInt64
  categories : Array UInt16
  tokenParams : Array Int32
  tokenContexts : Array Int32
  tokenNames : Array String
  conditionCount : UInt64
  contextCount : UInt64
  forward : Automaton
  reverse : Automaton
  deriving DecidableEq, Inhabited

namespace Lexicon

variable (lexicon : Lexicon)

def tokenCount : Nat := lexicon.tokenParams.size

def conditions : Nat := lexicon.conditionCount.toNat

def contexts : Nat := lexicon.contextCount.toNat

def category? (unit : Nat) : Option Nat := lexicon.categories[unit]?.map UInt16.toNat

/-- The number that a token is delivered by, negative for its own. -/
def param (token : Nat) : Run Int := do
  return (← Run.lookup lexicon.tokenParams token).toInt

def context? (token : Nat) : Run (Option Nat) := do
  let number := (← Run.lookup lexicon.tokenContexts token).toInt
  return if number < 0 then none else some number.toNat

def tokenName? (token : Nat) : Option String := lexicon.tokenNames[token]?

end Lexicon

end TableDriven
