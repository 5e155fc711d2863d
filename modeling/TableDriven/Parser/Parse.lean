import TableDriven.Parser.Basic

/-! # Parses

A parse is a parser at work on a feed.  `step` deals with one token: it is shifted, or it goes
back and its reduction is made, or it goes back and the input is repaired.  `Parser.parse` steps
until the goal production is reduced or the parse fails, and leaves nothing behind: whatever the
outcome, the stack is empty and the feed is closed.
-/

namespace TableDriven

open TableDriven.Parser
open TableDriven.Repair (Probe Search)

/-- A parser and the feed that it reads. -/
structure Parse (σ ρ φ V ε : Type) extends Parser φ V ε where
  feed : Feed σ ρ V ε
  deriving Inhabited

namespace Parse

/-- How a parse ends: with the value of the goal production or a failure. -/
abbrev Result (V : Type) := Except ParseFault (Option V)

variable [TokenSource σ V ε] [Resolver ρ σ V ε] [ValueFactory φ V ε]

def note (parse : Parse σ ρ φ V ε) (notice : Notice V ε) : Parse σ ρ φ V ε :=
  { parse with journal := parse.journal.push notice }

/-- Puts a new state of the feed in place and moves its journal into that of the parser. -/
def withFeed (parse : Parse σ ρ φ V ε) (feed : Feed σ ρ V ε) : Parse σ ρ φ V ε :=
  let (notices, feed) := feed.takeJournal
  { parse with feed, journal := parse.journal.appendList (notices.map .fed) }

def nextToken (fuel : Nat) (parse : Parse σ ρ φ V ε) :
    Run (Except StreamFault (Token V) × Parse σ ρ φ V ε) := do
  let (answer, feed) ← parse.feed.next fuel
  return (answer, parse.withFeed feed)

/-- Looks at a token ahead. -/
def peek (fuel : Nat) (parse : Parse σ ρ φ V ε) (distance : Nat) :
    Run (Except StreamFault (Token V) × Parse σ ρ φ V ε) := do
  let (answer, feed) ← parse.feed.peek fuel distance
  return (answer, parse.withFeed feed)

/-- Puts a token back in front of the feed. -/
def pushBack (parse : Parse σ ρ φ V ε) (token : Token V) : Parse σ ρ φ V ε :=
  { parse with feed := parse.feed.pushBack token }

def top (parse : Parse σ ρ φ V ε) : Run Nat :=
  match parse.stack with
  | [] => return LrTable.initialState
  | ⟨some state, _⟩ :: _ => return state
  | ⟨none, _⟩ :: _ => throw .index

def push (parse : Parse σ ρ φ V ε) (state : Option Nat) (value : Option V) : Parse σ ρ φ V ε :=
  { parse with stack := ⟨state, value⟩ :: parse.stack }

def shift (parse : Parse σ ρ φ V ε) (state : Option Nat) (token : Token V) : Parse σ ρ φ V ε :=
  push { parse with lastShift := token.withoutValue } state token.value

/-- Makes the value of a reduction.  Without a factory it is that of the first symbol. -/
def produce (parse : Parse σ ρ φ V ε) (production rhsLength : Nat) :
    Run (Option V × Parse σ ρ φ V ε) := do
  let param ← parse.table.param production
  let bound := do
    let slot ← parse.bindings.slot? production
    return (slot, ← parse.bindings.factories[slot]?)
  match bound with
  | none =>
    let (value, stack) := follow rhsLength (Recipe.take 0) parse.stack
    return (value, { parse with stack })
  | some (slot, factory) =>
    let reduction := ⟨production, param, rhsLength, parse.lastShift⟩
    let ((value, factory, notes), stack) :=
      follow rhsLength (ValueFactory.produce factory reduction) parse.stack
    return (value, { parse with
      stack
      bindings.factories := parse.bindings.factories.setIfInBounds slot factory
      journal := parse.journal.appendList (notes.map .noted) })

/-- Reduces by a production, and by those that gotos shift and reduce by.  Answers how the parse
ends, if it does. -/
def reduce : Nat → Parse σ ρ φ V ε → Nat → Run (Option (Result V) × Parse σ ρ φ V ε)
  | 0, _, _ => throw .fuel
  | fuel + 1, parse, production => do
    let rhsLength ← parse.table.rhsLength production
    match parse.stack.drop rhsLength with
    | [] => return (some (.error (.table (.popsInitial production))), parse)
    | _ :: _ =>
      let (value, parse) ← parse.produce production rhsLength
      let parse := { parse with stack := parse.stack.drop rhsLength }
      if production = parse.table.goal then return (some (.ok value), parse.note .accepted)
      let uncovered := parse.stack.head?.bind Cell.state
      match ← parse.table.goto uncovered production with
      | .shift next => return (none, parse.push (some next) value)
      | .shiftReduce production => reduce fuel (parse.push none value) production
      | action =>
        let label := parse.table.symbolLabel (← parse.table.lhs production)
        return (some (.error (.table (.noGoto label (← parse.top) action))), parse)

/-- Answers the questions of a search from the feed. -/
def answer (fuel : Nat) : Search α → Parse σ ρ φ V ε →
    Run (Except StreamFault α × Parse σ ρ φ V ε)
  | .done result, parse => return (.ok result, parse)
  | .ask (.symbol distance) next, parse => do
    match ← parse.peek fuel distance with
    | (.error fault, parse) => return (.error fault, parse)
    | (.ok token, parse) => answer fuel (next token.number) parse
  | .ask .lost next, parse => answer fuel (next ()) (parse.note .lost)
  | .ask (.broken why) _, _ => throw why

def states (parse : Parse σ ρ φ V ε) : StateStack := parse.stack.map Cell.state

/-- Searches for a repair of the error at the next token, if errors are repaired at all. -/
def findRepair (fuel : Nat) (parse : Parse σ ρ φ V ε) :
    Run (Except StreamFault (Option Repair) × Parse σ ρ φ V ε) := do
  if parse.repairs then
    match ← answer fuel (Repair.search parse.table fuel parse.states) parse with
    | (.ok (some repair), parse) => return (.ok (some repair), parse.note (.found repair))
    | other => return other
  else return (.ok none, parse)

/-- The numbers of the next `count` tokens, behind those in `done` (newest first). -/
def upcoming (fuel : Nat) : Nat → List Nat → Parse σ ρ φ V ε →
    Run (Except StreamFault (List Nat) × Parse σ ρ φ V ε)
  | 0, done, parse => return (.ok done.reverse, parse)
  | count + 1, done, parse => do
    match ← parse.peek fuel done.length with
    | (.error fault, parse) => return (.error fault, parse)
    | (.ok token, parse) => upcoming fuel count (token.number :: done) parse

/-- Drops the next `count` tokens. -/
def skip (fuel : Nat) : Nat → Parse σ ρ φ V ε → Run (Except StreamFault Unit × Parse σ ρ φ V ε)
  | 0, parse => return (.ok (), parse)
  | count + 1, parse => do
    match ← parse.nextToken fuel with
    | (.error fault, parse) => return (.error fault, parse)
    | (.ok _, parse) => skip fuel count parse

/-- The tokens that an insertion puts in front of the input, for an error at `token`. -/
def inserted (parse : Parse σ ρ φ V ε) (token : Token V) : Repair.Insertion → List (Token V)
  | .nothing => []
  | .single symbol => [token.synthetic symbol]
  | .continuation symbols => symbols.map fun _ => token.synthetic parse.table.markerNumber.toNat

/-- Makes a repair and reports it. -/
def apply (fuel : Nat) (parse : Parse σ ρ φ V ε) (repair : Repair) :
    Run (Except StreamFault Unit × Parse σ ρ φ V ε) := do
  match ← upcoming fuel repair.deletions [] parse with
  | (.error fault, parse) => return (.error fault, parse)
  | (.ok deleted, parse) =>
    match ← parse.peek fuel 0 with
    | (.error fault, parse) => return (.error fault, parse)
    | (.ok token, parse) =>
      let parse := parse.note (.repaired token (.ofRepair repair deleted))
      match ← skip fuel repair.deletions parse with
      | (.error fault, parse) => return (.error fault, parse)
      | (.ok (), parse) =>
        return (.ok (), (parse.inserted token repair.insertion).foldl pushBack parse)

/-- Repairs the error at the next token.  Answers how the parse ends, if it cannot go on. -/
def recover (fuel : Nat) (parse : Parse σ ρ φ V ε) :
    Run (Option (Result V) × Parse σ ρ φ V ε) := do
  match ← parse.findRepair fuel with
  | (.error fault, parse) => return (some (.error (.ofStream fault)), parse)
  | (.ok (some repair), parse) =>
    match ← parse.apply fuel repair with
    | (.error fault, parse) => return (some (.error (.ofStream fault)), parse)
    | (.ok (), parse) => return (none, parse)
  | (.ok none, parse) =>
    match ← parse.peek fuel 0 with
    | (.error fault, parse) => return (some (.error (.ofStream fault)), parse)
    | (.ok token, parse) =>
      return (some (.error (.unrepairable token.number token.position)),
        parse.note (.unrepaired token))

/-- What becomes of the next token.  A marker is shifted as the terminal that it stands for; a token
waits while reductions come first, and where it is a syntax error. -/
inductive Turn (V : Type) where
  | shifted (symbol : Nat)
  | reduced
  | stuck
  | ended (result : Result V)
  deriving Inhabited

def Turn.unless (turn : Turn V) : Option (Result V) → Turn V
  | none => turn
  | some result => .ended result

/-- Deals with the next token, except for a syntax error. -/
def turn (fuel : Nat) (parse : Parse σ ρ φ V ε) : Run (Turn V × Parse σ ρ φ V ε) := do
  match ← parse.nextToken fuel with
  | (.error fault, parse) => return (.ended (.error (.ofStream fault)), parse)
  | (.ok token, parse) =>
    let state ← parse.top
    match ← parse.table.resolve state token.number with
    | .reduce production =>
      let (ending, parse) ← (parse.pushBack token).reduce fuel production
      return (Turn.reduced.unless ending, parse)
    | .shift symbol =>
      let action ← parse.table.action state symbol
      let parse := parse.note (.decided state (parse.table.symbolLabel symbol) action)
      match action with
      | .shift next => return (.shifted symbol, parse.shift (some next) token)
      | .shiftReduce production =>
        let (ending, parse) ← (parse.shift none token).reduce fuel production
        return ((Turn.shifted symbol).unless ending, parse)
      | .reduce production =>
        let (ending, parse) ← (parse.pushBack token).reduce fuel production
        return (Turn.reduced.unless ending, parse)
      | .error => return (.stuck, parse.pushBack token)

/-- Deals with the next token.  Answers how the parse ends, if it does. -/
def step (fuel : Nat) (parse : Parse σ ρ φ V ε) : Run (Option (Result V) × Parse σ ρ φ V ε) := do
  match ← parse.turn fuel with
  | (.shifted _, parse) | (.reduced, parse) => return (none, parse)
  | (.stuck, parse) => parse.recover fuel
  | (.ended result, parse) => return (some result, parse)

/-- Steps to the end of the parse. -/
def run : Nat → Parse σ ρ φ V ε → Run (Result V × Parse σ ρ φ V ε)
  | 0, _ => throw .fuel
  | fuel + 1, parse => do
    match ← parse.step fuel with
    | (none, parse) => run fuel parse
    | (some result, parse) => return (result, parse)

def start (parser : Parser φ V ε) (feed : Feed σ ρ V ε) : Parse σ ρ φ V ε :=
  { parser with
    stack := [⟨some LrTable.initialState, none⟩]
    lastShift := .bare 0
    feed }

/-- Empties the stack, closes the feed, and reports a failure of the input. -/
def finish (parse : Parse σ ρ φ V ε) (result : Result V) : Parse σ ρ φ V ε :=
  let parse := { parse with stack := [] }.withFeed parse.feed.close
  match result with
  | .error (.io cause) => parse.note (.ioFailed cause)
  | .error (.rejected text) => parse.note (.rejected text)
  | _ => parse

end Parse

/-- Parses all that a feed delivers.  Answers the value of the goal production or the failure,
and the parser and the feed that are left. -/
def Parser.parse [TokenSource σ V ε] [Resolver ρ σ V ε] [ValueFactory φ V ε] (fuel : Nat)
    (parser : Parser φ V ε) (feed : Feed σ ρ V ε) :
    Run (Parse.Result V × Parser φ V ε × Feed σ ρ V ε) := do
  let (result, parse) ← (Parse.start parser feed).run fuel
  let parse := parse.finish result
  return (result, parse.toParser, parse.feed)

end TableDriven
