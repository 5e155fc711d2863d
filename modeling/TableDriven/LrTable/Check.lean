import TableDriven.LrTable.Basic
import TableDriven.TableFault

/-! # The check of a parser table

A table that passes has arrays of matching sizes and no number in it that points outside them.
Tables read from bytes are always checked.
-/

namespace TableDriven.LrTable

/-- What is wrong with a parser table.  It is `tooLarge` if the largest shift does not fit the 16
bits of an action; an `emptyShiftReduce` would not reduce what it shifted; the `header` of the
binary form announces another number. -/
inductive Defect where
  | noSymbols
  | noProductions
  | noStates
  | count (what : String) (actual expected : Nat) (owners : String)
  | lhsOutOfRange (production lhs : Nat)
  | goalOutOfRange (production : Nat)
  | eofOutOfRange (symbol : Nat)
  | singlePointOutOfRange (symbol : Nat)
  | tooLarge (states productions : Nat)
  | rowLength (state actual expected : Nat)
  | shiftOutOfRange (state symbol next : Nat)
  | emptyShiftReduce (state symbol production : Nat)
  | unwindingOutOfRange (number state : Nat)
  | header (announced : Nat) (what : String) (actual : Nat)
  deriving DecidableEq, Inhabited

def Defect.message : Defect → String
  | .noSymbols => "no symbols"
  | .noProductions => "no productions"
  | .noStates => "no states"
  | .count what actual expected owners => s!"{actual} {what} for {expected} {owners}"
  | .lhsOutOfRange production lhs => s!"production {production} has LHS {lhs} out of range"
  | .goalOutOfRange production => s!"goal production {production} out of range"
  | .eofOutOfRange symbol => s!"EOF symbol {symbol} out of range"
  | .singlePointOutOfRange symbol => s!"single-point insertion symbol {symbol} out of range"
  | .tooLarge states productions =>
    s!"{states} states and {productions} productions do not fit 16-bit actions"
  | .rowLength state actual expected => s!"state {state} has {actual} actions, expected {expected}"
  | .shiftOutOfRange state symbol next =>
    s!"action [{state}][{symbol}] shifts to state {next} out of range"
  | .emptyShiftReduce state symbol production =>
    s!"action [{state}][{symbol}] shift-reduces by empty production {production}"
  | .unwindingOutOfRange number state =>
    s!"unwinding entry {number} of state {state} out of range"
  | .header announced what actual => s!"header says {announced} {what}, table has {actual}"

variable (table : LrTable)

/-- The entry for `symbol` in the row of `state` leads somewhere. -/
def checkAction (state symbol : Nat) (number : UInt16) : Except Defect Unit :=
  match table.decode number.toNat with
  | .shift next => ensure (next < table.stateCount) (.shiftOutOfRange state symbol next)
  | .shiftReduce production =>
    ensure (table.productionRhsLength[production]? ≠ some 0)
      (.emptyShiftReduce state symbol production)
  | .reduce _ | .error => .ok ()

/-- The row of `state` has an entry for each symbol and the marker, and they lead somewhere. -/
def checkRow (state : Nat) (row : Array UInt16) : Except Defect Unit := do
  ensure (row.size = table.symbols + 1) (.rowLength state row.size (table.symbols + 1))
  ensureAll row (table.checkAction state)

/-- Checks that every number of the table points into it. -/
def check : Except Defect Unit := do
  let symbols := table.symbols
  let productions := table.productionCount
  let states := table.stateCount
  ensure (0 < symbols) .noSymbols
  ensure (0 < productions) .noProductions
  ensure (initialState < states) .noStates
  ensure (table.productionRhsLength.size = productions)
    (.count "RHS lengths" table.productionRhsLength.size productions "productions")
  ensure (table.productionParam.size = productions)
    (.count "params" table.productionParam.size productions "productions")
  ensureAll table.productionLhs fun production lhs =>
    ensure (lhs.toNat < symbols) (.lhsOutOfRange production lhs.toNat)
  ensure (table.goal < productions) (.goalOutOfRange table.goal)
  ensure (table.eof < symbols) (.eofOutOfRange table.eof)
  ensure (table.insertionCosts.size = symbols)
    (.count "insertion costs" table.insertionCosts.size symbols "symbols")
  ensure (table.deletionCosts.size = symbols)
    (.count "deletion costs" table.deletionCosts.size symbols "symbols")
  ensureAll table.singlePointInsertions fun _ symbol =>
    ensure (symbol.toNat < symbols) (.singlePointOutOfRange symbol.toNat)
  ensure (2 * productions + states ≤ 0x10000) (.tooLarge states productions)
  ensureAll table.actions table.checkRow
  ensure (table.unwinding.size = states)
    (.count "unwinding entries" table.unwinding.size states "states")
  ensureAll table.unwinding fun state number =>
    ensure (number.toNat < productions + symbols) (.unwindingOutOfRange number.toNat state)
  ensure (table.symbolNames.size = 0 ∨ table.symbolNames.size = symbols)
    (.count "symbol names" table.symbolNames.size symbols "symbols")
  ensure (table.linkNames.size = 0 ∨ table.linkNames.size = productions)
    (.count "link names" table.linkNames.size productions "productions")

end TableDriven.LrTable
