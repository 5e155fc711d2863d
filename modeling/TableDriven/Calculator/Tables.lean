import TableDriven.LrTable.Basic
import TableDriven.Lexicon.Basic

/-! # The calculator's tables

A small language of sums:

* the start symbol is an expression and the end of input;
* an expression is the sum of two expressions, or an integer; sums group to the left.

Its scanner knows runs of digits, plus signs and runs of blanks.
-/

namespace TableDriven.Calculator

def integer : Nat := 0
def plus : Nat := 1
def endOfInput : Nat := 2

def digitsToken : Nat := 0
def blanksToken : Nat := 2

/-- The category of an ASCII character: 1 for digits, 2 for the plus sign, 3 for blanks, and 0
for the rest. -/
def category (unit : Nat) : UInt16 :=
  if 0x30 ≤ unit ∧ unit ≤ 0x39 then 1
  else if unit = 0x2B then 2
  else if unit = 0x20 ∨ unit = 0x09 ∨ unit = 0x0D ∨ unit = 0x0A then 3
  else 0

/-- The calculator's scanner table.  The forward states are 1 at the start, 2 in digits, 3 behind
a plus sign and 4 in blanks. -/
def lexicon : Lexicon where
  categoryCount := 4
  categories := ((List.range 128).map category).toArray
  tokenParams := #[0, 1, -1]
  tokenContexts := #[-1, -1, -1]
  tokenNames := #["int", "plus", "space"]
  conditionCount := 1
  contextCount := 0
  forward := {
    initialStates := #[1]
    transitions := #[#[0, 0, 0, 0], #[0, 2, 3, 4], #[0, 2, 0, 0], #[0, 0, 0, 0], #[0, 0, 0, 4]]
    codes := #[0, 0, 1, 2, 3]
    tokenLists := #[#[], #[0], #[1], #[2]]
    contextSplits := #[#[], #[], #[], #[]] }
  reverse := {
    initialStates := #[1]
    transitions := #[#[0, 0, 0, 0], #[0, 0, 0, 0]]
    codes := #[0, 0]
    tokenLists := #[#[]]
    contextSplits := #[#[]] }

/-- The calculator's parser table.  With three productions, 0 to 2 reduce, 3 to 5 shift and
reduce, 6 is an error and `6 + s` shifts to state `s`.  States 0 and 2 expect an integer, state 1
the end, and state 3 reduces a sum. -/
def table : LrTable where
  symbolCount := 5
  productionLhs := #[4, 3, 3]
  productionRhsLength := #[2, 3, 1]
  productionParam := #[0, 1, 2]
  maxInsertion := 3
  maxDeletion := 3
  validationLength := 2
  singlePointInsertions := #[0, 1]
  insertionCosts := #[1, 1, 1, 1, 1]
  deletionCosts := #[1, 1, 1, 1, 1]
  goalProduction := 0
  eofSymbol := 2
  actions := #[#[5, 6, 6, 7, 6, 6], #[6, 8, 3, 6, 6, 6], #[5, 6, 6, 9, 6, 6], #[6, 1, 1, 6, 6, 6]]
  unwinding := #[3, 5, 3, 1]
  symbolNames := #["int", "+", "$", "E", "S'"]
  linkNames := #["start", "add", "num"]

end TableDriven.Calculator
