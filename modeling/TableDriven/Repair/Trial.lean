import TableDriven.LrTable.Basic

/-! # Trial parsing

What a parser would do with a symbol, tried on its states alone.  A stack lists states, the top
first.  The cell of a symbol that is shifted and reduced at once has no state: the reduction that
follows takes it off again before any table is consulted with it.
-/

namespace TableDriven

/-- A stack of states, the top first; `none` for a cell that the next reduction takes off. -/
abbrev StateStack := List (Option Nat)

namespace LrTable

variable (table : LrTable)

/-- What a token's symbol stands for in a state: itself, or what the unwinding table says for the
continuation marker. -/
def resolve (state symbol : Nat) : Run Unwinding :=
  if table.isMarker symbol then table.unwind state else return .shift symbol

/-- The action on the symbol that a production reduces to, in the state that the reduction
uncovered. -/
def goto (uncovered : Option Nat) (production : Nat) : Run Action :=
  match uncovered with
  | none => throw .index
  | some state => do table.action state (← table.lhs production)

/-- Where a reduction leads.  It fails if it would take off the bottom of the stack, or has nowhere
to go. -/
inductive Landing where
  | failed
  | accepted
  | landed (stack : StateStack)
  deriving DecidableEq, Inhabited

/-- Reduces by a production, and by those that gotos shift and reduce by. -/
def land : Nat → StateStack → Nat → Run Landing
  | 0, _, _ => throw .fuel
  | fuel + 1, stack, production => do
    match stack.drop (← table.rhsLength production) with
    | [] => return .failed
    | uncovered :: below =>
      if production = table.goal then return .accepted
      match ← table.goto uncovered production with
      | .shift next => return .landed (some next :: uncovered :: below)
      | .shiftReduce production => land fuel (none :: uncovered :: below) production
      | .reduce _ | .error => return .failed

/-- What becomes of a symbol.  The marker is shifted as the terminal that it stands for. -/
inductive Outcome where
  | shifted (symbol : Nat) (stack : StateStack)
  | accepted
  | error
  deriving DecidableEq, Inhabited

/-- The state on top of a stack, if the table has a row for it. -/
def topRow? (stack : StateStack) : Option Nat :=
  match stack with
  | some state :: _ => if state < table.stateCount then some state else none
  | none :: _ | [] => none

/-- Takes a symbol, which may be the continuation marker, until it is shifted. -/
def advance : Nat → StateStack → Nat → Run Outcome
  | 0, _, _ => throw .fuel
  | fuel + 1, stack, symbol =>
    match table.topRow? stack with
    | none => return .error
    | some state => do
      match ← table.resolve state symbol with
      | .reduce production =>
        match ← table.land fuel stack production with
        | .failed => return .error
        | .accepted => return .accepted
        | .landed stack => advance fuel stack symbol
      | .shift terminal =>
        match ← table.action state terminal with
        | .shift next => return .shifted terminal (some next :: stack)
        | .shiftReduce production =>
          match ← table.land fuel (none :: stack) production with
          | .failed => return .error
          | .accepted => return .accepted
          | .landed stack => return .shifted terminal stack
        | .reduce production =>
          match ← table.land fuel stack production with
          | .failed => return .error
          | .accepted => return .accepted
          | .landed stack => advance fuel stack symbol
        | .error => return .error

/-- Where following the unwinding table leads: to a terminal that is expected on top of a stack,
nowhere, or to more reductions than are followed. -/
inductive Expectation where
  | terminal (symbol : Nat) (stack : StateStack)
  | nothing
  | lost
  deriving DecidableEq, Inhabited

/-- Follows the unwinding table through at most `steps` of its entries. -/
def unwindWithin (fuel : Nat) : Nat → StateStack → Run Expectation
  | 0, _ => return .lost
  | steps + 1, stack =>
    match table.topRow? stack with
    | none => return .nothing
    | some state => do
      match ← table.unwind state with
      | .shift symbol => return .terminal symbol stack
      | .reduce production =>
        match ← table.land fuel stack production with
        | .failed | .accepted => return .nothing
        | .landed stack => unwindWithin fuel steps stack

/-- The terminal that the unwinding table expects next, and the stack behind the reductions that
it asks for first. -/
def expected (fuel : Nat) (stack : StateStack) : Run Expectation :=
  table.unwindWithin fuel (stack.length + table.stateCount + 1) stack

end LrTable

end TableDriven
