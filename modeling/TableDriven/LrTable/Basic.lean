import TableDriven.Fault
import Std.Data.TreeMap

/-! # Parser tables

The tables of an LR(1) parser with what error repair needs beside them.  An entry of the action
table is a number; with `n` productions, a number below `n` reduces, one below `2n` shifts and
reduces at once, `2n` is an error, and a larger one shifts.  The symbol behind the last is the
continuation marker, a token that stands for whatever the grammar expects next: its meaning comes
from the unwinding table.
-/

namespace TableDriven

/-- What a parser does in a state on a symbol.  Reducing by the goal production accepts; a
`shiftReduce` reduces right away what it shifts. -/
inductive Action where
  | reduce (production : Nat)
  | shiftReduce (production : Nat)
  | shift (state : Nat)
  | error
  deriving DecidableEq, Inhabited

def Action.text : Action → String
  | .reduce production => s!"Reduce({production})"
  | .shiftReduce production => s!"ShiftReduce({production})"
  | .shift state => s!"Shift({state})"
  | .error => "Error"

/-- What the grammar expects next in a state: a reduction or a terminal. -/
inductive Unwinding where
  | reduce (production : Nat)
  | shift (symbol : Nat)
  deriving DecidableEq, Inhabited

def Unwinding.text : Unwinding → String
  | .reduce production => s!"Reduce({production})"
  | .shift symbol => s!"Shift({symbol})"

/-- The tables of an LR(1) parser.  A repair may insert `maxInsertion` symbols by following the
grammar, or one of `singlePointInsertions`, the most preferred first; `validationLength` symbols
behind it must parse.  The actions are by state and symbol, with one more column for the marker. -/
structure LrTable where
  symbolCount : UInt64
  productionLhs : Array UInt32
  productionRhsLength : Array UInt32
  productionParam : Array Int32
  maxInsertion : UInt64
  maxDeletion : UInt64
  validationLength : UInt64
  singlePointInsertions : Array UInt32
  insertionCosts : Array UInt32
  deletionCosts : Array UInt32
  goalProduction : UInt64
  eofSymbol : UInt32
  actions : Array (Array UInt16)
  unwinding : Array UInt16
  symbolNames : Array String
  linkNames : Array String
  deriving DecidableEq, Inhabited

namespace LrTable

variable (table : LrTable)

def initialState : Nat := 0

def symbols : Nat := table.symbolCount.toNat

def productionCount : Nat := table.productionLhs.size

def stateCount : Nat := table.actions.size

def goal : Nat := table.goalProduction.toNat

def eof : Nat := table.eofSymbol.toNat

def marker : Nat := table.symbols

def markerNumber : UInt32 := UInt32.ofNat table.symbols

def isMarker (symbol : Nat) : Bool := symbol == table.marker

/-- The action that a number stands for. -/
def decode (number : Nat) : Action :=
  let count := table.productionCount
  if number < count then .reduce number
  else if number < 2 * count then .shiftReduce (number - count)
  else if number = 2 * count then .error
  else .shift (number - 2 * count)

/-- The action in a state on a symbol.  A symbol outside the grammar is an error, and so is the
marker: what it stands for has to be looked up first. -/
def action (state symbol : Nat) : Run Action := do
  let row ← Run.lookup table.actions state
  match row[symbol]? with
  | some number => return if symbol < table.symbols then table.decode number.toNat else .error
  | none => return .error

/-- The unwinding entry of a state. -/
def unwind (state : Nat) : Run Unwinding := do
  let number := (← Run.lookup table.unwinding state).toNat
  let count := table.productionCount
  return if number < count then .reduce number else .shift (number - count)

def lhs (production : Nat) : Run Nat := do
  return (← Run.lookup table.productionLhs production).toNat

def rhsLength (production : Nat) : Run Nat := do
  return (← Run.lookup table.productionRhsLength production).toNat

def param (production : Nat) : Run Int := do
  return (← Run.lookup table.productionParam production).toInt

def unlistedCost : Nat := 0xFFFFFFFF

def insertionCost (symbol : Nat) : Nat :=
  (table.insertionCosts[symbol]?.map UInt32.toNat).getD unlistedCost

def deletionCost (symbol : Nat) : Nat :=
  (table.deletionCosts[symbol]?.map UInt32.toNat).getD unlistedCost

def symbolName? (symbol : Nat) : Option String := table.symbolNames[symbol]?

/-- The name of a symbol for a reader: its own, that of the marker, or its number. -/
def symbolLabel (symbol : Nat) : String :=
  match table.symbolName? symbol with
  | some name => name
  | none => if table.isMarker symbol then "<continue>" else s!"#{symbol}"

/-- The numbers of named things; of two with one name, the last. -/
def numbering (names : Array String) : Std.TreeMap String Nat :=
  names.toList.zipIdx.foldl (fun numbers (name, index) => numbers.insert name index) ∅

def productionsLinked (name : String) : List Nat :=
  (table.linkNames.toList.zipIdx.filter fun link => link.1 == name).map Prod.snd

end LrTable

end TableDriven
