import TableDriven.Lexicon.Basic
import TableDriven.TableFault

/-! # The check of a scanner table

A lexicon that passes has arrays of matching sizes, no number in it that points outside them, and
no way out of the invalid states.
-/

namespace TableDriven

/-- What is wrong with an automaton.  It `leavesInvalid` if the invalid state leads somewhere else.
-/
inductive Automaton.Defect where
  | noStates
  | initialCount (actual conditions : Nat)
  | initialOutOfRange (state condition : Nat)
  | rowLength (state actual expected : Nat)
  | transitionOutOfRange (state category next : Nat)
  | leavesInvalid
  | codeCount (actual states : Nat)
  | codeOutOfRange (state code : Nat)
  | splitCount (actual codes : Nat)
  | splitLength (code actual expected : Nat)
  | tokensUnsorted (code : Nat)
  | tokenOutOfRange (code token : Nat)
  deriving DecidableEq, Inhabited

def Automaton.Defect.message : Automaton.Defect → String
  | .noStates => "has no states"
  | .initialCount actual conditions => s!"has {actual} initial states for {conditions} conditions"
  | .initialOutOfRange state condition =>
    s!"initial state {state} of condition {condition} out of range"
  | .rowLength state actual expected =>
    s!"state {state} has {actual} transitions, expected {expected}"
  | .transitionOutOfRange state category next =>
    s!"transition [{state}][{category}] = {next} out of range"
  | .leavesInvalid => s!"invalid state {Automaton.invalidState} has outgoing transitions"
  | .codeCount actual states => s!"has {actual} recognition codes for {states} states"
  | .codeOutOfRange state code => s!"state {state} recognition code {code} out of range"
  | .splitCount actual codes => s!"has {actual} context rows for {codes} codes"
  | .splitLength code actual expected =>
    s!"context row {code} has {actual} entries, expected {expected}"
  | .tokensUnsorted code => s!"token list {code} is not strictly ascending"
  | .tokenOutOfRange code token => s!"token list {code} names token {token} out of range"

namespace Lexicon

/-- What is wrong with a lexicon.  The headers of its binary form may announce other numbers of
tokens and states. -/
inductive Defect where
  | noCategories
  | noConditions
  | categoryOutOfRange (unit category : Nat)
  | contextCount (actual tokens : Nat)
  | nameCount (actual tokens : Nat)
  | contextOutOfRange (token : Nat) (context : Int)
  | forward (defect : Automaton.Defect)
  | reverse (defect : Automaton.Defect)
  | tokenHeader (announced actual : Nat)
  | forwardHeader (announced actual : Nat)
  | reverseHeader (announced actual : Nat)
  deriving DecidableEq, Inhabited

def Defect.message : Defect → String
  | .noCategories => "no input categories"
  | .noConditions => "no start conditions"
  | .categoryOutOfRange unit category => s!"unit {unit} maps to category {category} out of range"
  | .contextCount actual tokens => s!"{actual} token contexts for {tokens} tokens"
  | .nameCount actual tokens => s!"{actual} token names for {tokens} tokens"
  | .contextOutOfRange token context => s!"token {token} has context number {context} out of range"
  | .forward defect => "forward DFA " ++ defect.message
  | .reverse defect => "reverse DFA " ++ defect.message
  | .tokenHeader announced actual =>
    s!"header says {announced} tokens, param array has {actual}"
  | .forwardHeader announced actual =>
    s!"forward DFA header says {announced} states, transition table has {actual}"
  | .reverseHeader announced actual =>
    s!"reverse DFA header says {announced} states, transition table has {actual}"

end Lexicon

/-- The sizes that an automaton shares with its lexicon. -/
structure Automaton.Frame where
  categories : Nat
  conditions : Nat
  contexts : Nat
  tokens : Nat
  deriving DecidableEq, Inhabited

namespace Automaton

def ascending : List UInt16 → Bool
  | first :: second :: rest => first < second && ascending (second :: rest)
  | _ => true

variable (automaton : Automaton) (frame : Frame)

/-- The row of `state` has a transition for each category, and they lead to states. -/
def checkRow (state : Nat) (row : Array UInt16) : Except Defect Unit := do
  ensure (row.size = frame.categories) (.rowLength state row.size frame.categories)
  ensureAll row fun category next =>
    ensure (next.toNat < automaton.stateCount) (.transitionOutOfRange state category next.toNat)

/-- The tokens of `code` are in ascending order and in the lexicon. -/
def checkTokens (code : Nat) (tokens : Array UInt16) : Except Defect Unit := do
  ensure (ascending tokens.toList) (.tokensUnsorted code)
  ensureAll tokens fun _ token =>
    ensure (token.toNat < frame.tokens) (.tokenOutOfRange code token.toNat)

/-- Checks an automaton against the sizes of its lexicon. -/
def check : Except Defect Unit := do
  let states := automaton.stateCount
  let codes := automaton.codeCount
  ensure (invalidState < states) .noStates
  ensure (automaton.initialStates.size = frame.conditions)
    (.initialCount automaton.initialStates.size frame.conditions)
  ensureAll automaton.initialStates fun condition state =>
    ensure (state.toNat < states) (.initialOutOfRange state.toNat condition)
  ensureAll automaton.transitions (automaton.checkRow frame)
  ensure (automaton.transitions[invalidState]?.all (·.all fun next => next.toNat == invalidState))
    .leavesInvalid
  ensure (automaton.codes.size = states) (.codeCount automaton.codes.size states)
  ensureAll automaton.codes fun state code =>
    ensure (code.toNat < codes) (.codeOutOfRange state code.toNat)
  ensure (automaton.contextSplits.size = codes) (.splitCount automaton.contextSplits.size codes)
  ensureAll automaton.contextSplits fun code row =>
    ensure (row.size = frame.contexts) (.splitLength code row.size frame.contexts)
  ensureAll automaton.tokenLists (checkTokens frame)

end Automaton

namespace Lexicon

variable (lexicon : Lexicon)

def noContext : Int := -1

def frame : Automaton.Frame :=
  ⟨lexicon.categoryCount.toNat, lexicon.conditions, lexicon.contexts, lexicon.tokenCount⟩

/-- Checks that every number of the lexicon points into it. -/
def check : Except Defect Unit := do
  let categories := lexicon.categoryCount.toNat
  let tokens := lexicon.tokenCount
  ensure (0 < categories) .noCategories
  ensure (0 < lexicon.conditions) .noConditions
  ensureAll lexicon.categories fun unit category =>
    ensure (category.toNat < categories) (.categoryOutOfRange unit category.toNat)
  ensure (lexicon.tokenContexts.size = tokens) (.contextCount lexicon.tokenContexts.size tokens)
  ensure (lexicon.tokenNames.size = 0 ∨ lexicon.tokenNames.size = tokens)
    (.nameCount lexicon.tokenNames.size tokens)
  ensureAll lexicon.tokenContexts fun token context =>
    ensure (context.toInt = noContext ∨
        (0 ≤ context.toInt ∧ context.toInt.toNat < lexicon.contexts))
      (.contextOutOfRange token context.toInt)
  (lexicon.forward.check lexicon.frame).mapError .forward
  (lexicon.reverse.check lexicon.frame).mapError .reverse

end Lexicon

end TableDriven
