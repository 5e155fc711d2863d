import TableDriven.Feed
import TableDriven.Log
import TableDriven.Parser.Bindings
import TableDriven.Repair.Search
import TableDriven.Text.Quoted

/-! # Parsers

A parser keeps a stack of cells, each with the state behind a symbol and the symbol's value, and
the position of the token that it shifted last.  Its journal holds the notices for its client,
its log entries, and the notes of its feed and its factories, in order.
-/

namespace TableDriven

namespace Parser

open TableDriven.Repair (Insertion symbolsText)

/-- The manner of a repair. -/
inductive RepairKind where
  | deletion
  | singlePoint
  | continuation
  deriving DecidableEq, Inhabited

def RepairKind.text : RepairKind → String
  | .deletion => "Deletion"
  | .singlePoint => "SinglePoint"
  | .continuation => "Continuation"

/-- What a repair did to the input. -/
structure Report where
  deleted : List Nat
  inserted : List Nat
  kind : RepairKind
  cost : Nat
  deriving DecidableEq, Inhabited

def RepairKind.ofInsertion : Insertion → RepairKind
  | .nothing => .deletion
  | .single _ => .singlePoint
  | .continuation _ => .continuation

def Report.ofRepair (repair : Repair) (deleted : List Nat) : Report where
  deleted := deleted
  inserted := repair.insertion.symbols
  kind := .ofInsertion repair.insertion
  cost := repair.cost

/-- How a table makes a parse impossible: a reduction would take off the bottom of the stack, or has
nowhere to go. -/
inductive Misbehaviour where
  | popsInitial (production : Nat)
  | noGoto (label : String) (state : Nat) (action : Action)
  deriving DecidableEq, Inhabited

def Misbehaviour.message : Misbehaviour → String
  | .popsInitial production => s!"reducing production {production} would pop the initial state"
  | .noGoto label state action => s!"no goto on {label} from state {state}: " ++ action.text

/-- Why a parse failed: the input failed or was refused by its source, no repair was found for the
error at a token, or the table misbehaved. -/
inductive ParseFault where
  | io (cause : IoFault)
  | rejected (text : String)
  | unrepairable (symbol : Nat) (position : Position)
  | table (cause : Misbehaviour)
  deriving DecidableEq, Inhabited

def ParseFault.ofStream : StreamFault → ParseFault
  | .io cause => .io cause
  | .rejected text => .rejected text

def ParseFault.message : ParseFault → String
  | .io cause => "I/O error during parse: " ++ cause.message
  | .rejected text => "syntax exception from token source: " ++ text
  | .unrepairable symbol position =>
    "unrepairable syntax error at " ++ position.text ++ s!" (symbol {symbol})"
  | .table cause => "parser table misbehaved: " ++ cause.message

/-- An item of a parser's journal.  The parser `decided` on an action in a state on a symbol, and
was `lost` where the unwinding table did not reach a terminal.  Factories for a production or a link
name that the table lacks are ignored. -/
inductive Notice (V ε : Type) where
  | decided (state : Nat) (label : String) (action : Action)
  | accepted
  | lost
  | found (repair : Repair)
  | repaired (token : Token V) (report : Report)
  | unrepaired (token : Token V)
  | ioFailed (cause : IoFault)
  | rejected (text : String)
  | unknownProduction (production count : Nat)
  | unknownLink (name : String)
  | fed (notice : Feed.Notice ε)
  | noted (note : ε)
  deriving Inhabited

/-- The log entry of a notice.  That of `repaired`, `unrepaired`, `ioFailed` and `rejected` is
what a client that only keeps a log says. -/
def Notice.entry? : Notice V ε → Option Log.Entry
  | .decided state label action =>
    some ⟨.trace, s!"state {state}, symbol {label}: " ++ action.text⟩
  | .accepted => some ⟨.trace, "accept"⟩
  | .lost => some ⟨.warn, "unwinding table does not reach a shift"⟩
  | .found repair =>
    let deletions := repair.deletions
    let cost := repair.cost
    some ⟨.debug, s!"repair found: delete {deletions}, insert " ++ repair.insertion.text ++
      s!", cost {cost}"⟩
  | .repaired token report =>
    some ⟨.warn, "syntax error at " ++ token.position.text ++ " repaired (" ++ report.kind.text ++
      "): deleted " ++ symbolsText report.deleted ++ ", inserted " ++ symbolsText report.inserted⟩
  | .unrepaired token =>
    some ⟨.error, "unrepairable syntax error at " ++ token.position.text⟩
  | .ioFailed cause => some ⟨.error, "parse aborted by I/O error: " ++ cause.message⟩
  | .rejected text => some ⟨.error, "parse aborted by token source: " ++ text⟩
  | .unknownProduction production count =>
    some ⟨.warn, s!"ignoring binding for production {production}: table has {count}"⟩
  | .unknownLink name =>
    some ⟨.warn, "no production has link name " ++ Text.Quoted.ofString name⟩
  | .fed notice => notice.entry?
  | .noted _ => none

/-- A symbol on the stack, with the state behind it; one that the next reduction takes off has none.
-/
structure Cell (V : Type) where
  state : Option Nat
  value : Option V
  deriving Inhabited

/-- The place in a stack, counted from the top, of the value at an offset from the first of the
`rhsLength` cells on top. -/
def depth? (rhsLength : Nat) (offset : Int) : Option Nat :=
  if offset < rhsLength then some ((rhsLength : Int) - 1 - offset).toNat else none

def valueAt (stack : List (Cell V)) (rhsLength : Nat) (offset : Int) : Option V :=
  (depth? rhsLength offset).bind fun depth => stack[depth]?.bind Cell.value

def dropValue (stack : List (Cell V)) (rhsLength : Nat) (offset : Int) : List (Cell V) :=
  match depth? rhsLength offset with
  | none => stack
  | some depth => stack.modify depth fun cell => { cell with value := none }

def follow (rhsLength : Nat) : Recipe V α → List (Cell V) → α × List (Cell V)
  | .done result, stack => (result, stack)
  | .ask (.look offset) next, stack =>
    follow rhsLength (next (valueAt stack rhsLength offset)) stack
  | .ask (.take offset) next, stack =>
    follow rhsLength (next (valueAt stack rhsLength offset)) (dropValue stack rhsLength offset)

end Parser

/-- A parser with factories `φ`.  Unless it `repairs`, every syntax error is fatal. -/
structure Parser (φ V ε : Type) where
  table : LrTable
  bindings : Parser.Bindings φ
  repairs : Bool
  stack : List (Parser.Cell V)
  lastShift : Token Unit
  journal : Array (Parser.Notice V ε)
  deriving Inhabited

namespace Parser

def create (table : LrTable) (repairs : Bool) : Parser φ V ε where
  table := table
  bindings := .none table.productionCount
  repairs := repairs
  stack := []
  lastShift := .bare 0
  journal := #[]

variable (parser : Parser φ V ε)

def note (notice : Notice V ε) : Parser φ V ε :=
  { parser with journal := parser.journal.push notice }

def takeJournal : List (Notice V ε) × Parser φ V ε :=
  (parser.journal.toList, { parser with journal := #[] })

def bind (production : Nat) (factory : φ) : Parser φ V ε :=
  if production < parser.bindings.slots.size then
    { parser with bindings := parser.bindings.bindAll [production] factory }
  else parser.note (.unknownProduction production parser.bindings.slots.size)

/-- Binds one factory to every production with a link name; answers how many there are. -/
def bindLink (name : String) (factory : φ) : Nat × Parser φ V ε :=
  match parser.table.productionsLinked name with
  | [] => (0, parser.note (.unknownLink name))
  | productions =>
    (productions.length,
      { parser with bindings := parser.bindings.bindAll productions factory })

end Parser

end TableDriven
