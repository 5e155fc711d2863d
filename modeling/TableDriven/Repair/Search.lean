import TableDriven.Dialogue
import TableDriven.Repair.Trial
import TableDriven.Text.Quoted

/-! # The search for a repair

A syntax error is repaired by deleting some of the next tokens and inserting nothing, one symbol
that the table lists, or what the grammar expects next, read off the unwinding table.  A repair
is valid if a number of tokens behind it parse.  Of the valid ones the cheapest is taken, among
equals the one that comes first: fewer deletions before more, then a mere deletion, single
symbols in the table's order, and continuations from the shortest on.

The search is a dialogue that asks for tokens ahead, so it reads no more of them than it needs
and can be run over any stream.
-/

namespace TableDriven

/-- What a repair inserts.  A continuation is as many markers as there are symbols, which is what
they will stand for. -/
inductive Repair.Insertion where
  | nothing
  | single (symbol : Nat)
  | continuation (symbols : List Nat)
  deriving DecidableEq, Inhabited

/-- A change to the tokens that come next. -/
structure Repair where
  deletions : Nat
  insertion : Repair.Insertion
  cost : Nat
  deriving DecidableEq, Inhabited

namespace Repair

def Insertion.symbols : Insertion → List Nat
  | .nothing => []
  | .single symbol => [symbol]
  | .continuation symbols => symbols

def symbolsText (symbols : List Nat) : String :=
  Text.Quoted.bracketed (symbols.map toString)

def Insertion.text : Insertion → String
  | .nothing => "None"
  | .single symbol => s!"Single({symbol})"
  | .continuation symbols => "Continuation(" ++ symbolsText symbols ++ ")"

/-- Whether a cost is below that of the best repair so far. -/
def improves (cost : Nat) (best : Option Repair) : Bool :=
  match best with
  | none => true
  | some repair => cost < repair.cost

/-- What a search asks for: the number of the token at a distance, to be told that the unwinding
table does not reach a terminal, or to be given up. -/
inductive Probe where
  | symbol (distance : Nat)
  | lost
  | broken (why : Breakdown)
  deriving DecidableEq, Inhabited

/-- What answers a probe. -/
def Probe.Answer : Probe → Type
  | .symbol _ => Nat
  | .lost => Unit
  | .broken _ => Empty

/-- A computation that looks ahead in the tokens. -/
abbrev Search := Dialogue Probe Probe.Answer

namespace Search

def symbol (distance : Nat) : Search Nat := .ask (.symbol distance) fun number => .done number

def ofRun : Run α → Search α
  | .ok result => .done result
  | .error why => .ask (.broken why) fun answer => nomatch answer

end Search

section
variable (table : LrTable) (fuel : Nat)

/-- The symbols that are inserted alone, the most preferred first. -/
def singles : List Nat := table.singlePointInsertions.toList.map UInt32.toNat

/-- How many tokens behind a repair must parse. -/
def demand : Nat := max table.validationLength.toNat 1

/-- Whether `count` tokens from `distance` on parse, or the input ends cleanly among them. -/
def validate : Nat → StateStack → Nat → Search Bool
  | 0, _, _ => return true
  | count + 1, stack, distance => do
    let symbol ← Search.symbol distance
    match ← Search.ofRun (table.advance fuel stack symbol) with
    | .error => return false
    | .accepted => return true
    | .shifted _ stack =>
      if symbol = table.eof then return true else validate count stack (distance + 1)

/-- Whether the tokens from `distance` on parse for as long as the table demands. -/
def isValid (stack : StateStack) (distance : Nat) : Search Bool :=
  validate table fuel (demand table) stack distance

/-- Tries to insert one symbol after `deletions` that cost `spent`. -/
def trySingles (stack : StateStack) (deletions spent : Nat) :
    List Nat → Option Repair → Search (Option Repair)
  | [], best => return best
  | symbol :: rest, best => do
    let cost := spent + table.insertionCost symbol
    if improves cost best then
      match ← Search.ofRun (table.advance fuel stack symbol) with
      | .shifted _ shifted =>
        if ← isValid table fuel shifted deletions then
          trySingles stack deletions spent rest (some ⟨deletions, .single symbol, cost⟩)
        else trySingles stack deletions spent rest best
      | .accepted | .error => trySingles stack deletions spent rest best
    else trySingles stack deletions spent rest best

/-- Tries to insert up to `left` further symbols that the grammar expects, behind `inserted`
(newest first), which cost `spent` with the deletions. -/
def tryContinuation (deletions : Nat) (best : Option Repair) :
    Nat → StateStack → List Nat → Nat → Search (Option Repair)
  | 0, _, _, _ => return best
  | left + 1, stack, inserted, spent => do
    match ← Search.ofRun (table.expected fuel stack) with
    | .nothing => return best
    | .lost => .ask .lost fun _ => return best
    | .terminal symbol stack =>
      let cost := spent + table.insertionCost symbol
      if symbol = table.eof || !improves cost best then return best
      match ← Search.ofRun (table.advance fuel stack symbol) with
      | .accepted | .error => return best
      | .shifted _ shifted =>
        let inserted := symbol :: inserted
        if ← isValid table fuel shifted deletions then
          return some ⟨deletions, .continuation inserted.reverse, cost⟩
        else tryContinuation deletions best left shifted inserted cost

/-- Tries the insertions after `deletions` that cost `spent`. -/
def tryInsertions (stack : StateStack) (deletions spent : Nat) (best : Option Repair) :
    Search (Option Repair) := do
  let best ← trySingles table fuel stack deletions spent (singles table) best
  tryContinuation table fuel deletions best table.maxInsertion.toNat stack [] spent

def tryDeletion (stack : StateStack) (deletions : Nat) : Search Bool :=
  if deletions = 0 then return false else isValid table fuel stack deletions

/-- Goes on with the search after `deletions` that cost `spent`; `left` more are allowed.  Once a
deletion alone is valid nothing can be cheaper, and neither the end of file nor a marker is
ever deleted. -/
def searchFrom (stack : StateStack) : Nat → Nat → Nat → Option Repair → Search (Option Repair)
  | left, deletions, spent, best => do
    if !improves spent best then return best
    if ← tryDeletion table fuel stack deletions then
      return some ⟨deletions, .nothing, spent⟩
    let best ← tryInsertions table fuel stack deletions spent best
    match left with
    | 0 => return best
    | left + 1 =>
      if !improves 0 best then return best
      let deleted ← Search.symbol deletions
      if deleted = table.eof || table.isMarker deleted then return best
      searchFrom stack left (deletions + 1) (spent + table.deletionCost deleted) best

/-- The cheapest repair of the error at the next token, for a parser with these states. -/
def search (stack : StateStack) : Search (Option Repair) :=
  searchFrom table fuel stack table.maxDeletion.toNat 0 0 none

end

end Repair

end TableDriven
