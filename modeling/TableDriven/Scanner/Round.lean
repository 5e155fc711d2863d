import TableDriven.Scanner.Basic
import TableDriven.Scanner.Trail

/-! # Rounds

A scanner works in rounds, one at each place where a piece of input begins.  A round runs the
forward automaton as far as it goes and then offers candidates to the factories: from the longest
match down, and of one length in ascending order of the tokens.  It ends with the piece that it
consumed, or with the end of input.
-/

namespace TableDriven.Scanner

variable [ScanUnit U] [UnitSource σ U ε] [TokenFactory φ U V ε]

/-- Goes on with a run of the forward automaton, which is in `state` behind the `length` units of
`trail`. -/
def forwardFrom : Nat → Scanner σ φ U ε → Nat → Nat → Trail U →
    Run (Except IoFault (Trail U) × Scanner σ φ U ε)
  | 0, _, _, _, _ => .error .fuel
  | fuel + 1, scanner, state, length, trail => do
    let (more, scanner) ←
      if length = scanner.window.length then scanner.fillMore fuel else pure (.ok true, scanner)
    match more with
    | .error cause => return (.error cause, scanner)
    | .ok false => return (.ok trail, scanner)
    | .ok true =>
      let unit ← scanner.window.unitAt length
      match ← scanner.lexicon.advance? state unit with
      | none => return (.ok trail, scanner)
      | some state =>
        let code ← scanner.lexicon.forward.code state
        forwardFrom fuel scanner state (length + 1) ((unit, code) :: trail)

/-- Runs the forward automaton from the start of the window under the start condition in force. -/
def forward (fuel : Nat) (scanner : Scanner σ φ U ε) :
    Run (Except IoFault (Trail U) × Scanner σ φ U ε) := do
  forwardFrom fuel scanner (← scanner.lexicon.forward.initial scanner.condition) 0 []

/-- How a round ends in a match: a token of `length` units, or a match of so many that is dropped.
-/
inductive Choice (V : Type) where
  | token (length number : Nat) (value : Option V)
  | discard (length : Nat)
  deriving Inhabited

/-- The number that a token has unless its factory chooses another. -/
def defaultNumber (token : Nat) (param : Int) : Nat := if param < 0 then token else param.toNat

/-- Asks the factory of a token about a candidate of `length` units.  A candidate without a
factory is assembled. -/
def consult (scanner : Scanner σ φ U ε) (token length : Nat) :
    Run (Option (Choice V) × Scanner σ φ U ε) := do
  let param ← scanner.lexicon.param token
  let number := defaultNumber token param
  match scanner.factories[token]? with
  | none | some none => return (some (.token length number none), scanner)
  | some (some factory) =>
    let (ruling, factory, notes) := TokenFactory.consult factory {
      token, param, number
      text := scanner.window.front length
      position := scanner.position
      condition := scanner.condition
      conditionCount := scanner.lexicon.conditions }
    let factories := scanner.factories.setIfInBounds token (some factory)
    let scanner := { scanner with factories }
    let scanner := scanner.noteAll notes
    let scanner :=
      match ruling.condition with
      | none => scanner
      | some condition => (scanner.setCondition condition).2
    match ruling.verdict with
    | .assemble => return (some (.token length ruling.number ruling.value), scanner)
    | .discard => return (some (.discard length), scanner)
    | .reject => return (none, scanner)

/-- The length of the match of `token` at the end of `trail`; `none` if its right context does
not follow. -/
def matchLength (scanner : Scanner σ φ U ε) (trail : Trail U) (token : Nat) :
    Run (Option Nat) := do
  match ← scanner.lexicon.context? token with
  | none => return some trail.length
  | some context => scanner.lexicon.split scanner.condition context trail

def offer (trail : Trail U) : List Nat → Scanner σ φ U ε →
    Run (Option (Choice V) × Scanner σ φ U ε)
  | [], scanner => return (none, scanner)
  | token :: rest, scanner => do
    match ← scanner.matchLength trail token with
    | none => offer trail rest scanner
    | some length =>
      match ← scanner.consult token length with
      | (none, scanner) => offer trail rest scanner
      | taken => return taken

/-- Offers the candidates on a trail, the longest match first, until one is taken.  A match of no
length is never a token. -/
def select : Trail U → Scanner σ φ U ε → Run (Option (Choice V) × Scanner σ φ U ε)
  | [], scanner => return (none, scanner)
  | (unit, code) :: shorter, scanner => do
    match ← offer ((unit, code) :: shorter) (← scanner.lexicon.forward.tokens code) scanner with
    | (none, scanner) => select shorter scanner
    | taken => return taken

/-- What a round ends with: a token and its text, a text that was dropped, a unit that begins no
token, or the end of input. -/
inductive Piece (U V : Type) where
  | token (text : List U) (token : Token V)
  | discarded (text : List U)
  | unmatched (unit : U)
  | eof (token : Token V)
  deriving Inhabited

/-- Consumes `count` units; answers them too. -/
def consume (count : Nat) (scanner : Scanner σ φ U ε) : List U × Scanner σ φ U ε :=
  let units := scanner.window.front count
  let tab := max scanner.tabWidth 1
  (units, { scanner with
    window := scanner.window.drop count
    position := units.foldl (Position.after tab) scanner.position })

def finish (scanner : Scanner σ φ U ε) : Token V × Scanner σ φ U ε :=
  let token := ⟨scanner.eofSymbol, none, scanner.file, scanner.position⟩
  if scanner.isEofReported then (token, scanner)
  else (token, note { scanner with isEofReported := true } (.eof scanner.position))

/-- Consumes what a round found. -/
def settle (choice : Option (Choice V)) (scanner : Scanner σ φ U ε) :
    Run (Piece U V × Scanner σ φ U ε) := do
  let position := scanner.position
  match choice with
  | some (.token length number value) =>
    let (text, scanner) := scanner.consume length
    return (.token text ⟨number, value, scanner.file, position⟩,
      scanner.note (.delivered number length position))
  | some (.discard length) =>
    let (text, scanner) := scanner.consume length
    return (.discarded text, scanner)
  | none =>
    let unit ← scanner.window.unitAt 0
    return (.unmatched unit, ((scanner.note (.unmatched unit position)).consume 1).2)

/-- Scans one piece of input. -/
def round (fuel : Nat) (scanner : Scanner σ φ U ε) :
    Run (Except IoFault (Piece U V) × Scanner σ φ U ε) := do
  let (more, scanner) ←
    if scanner.window.length = 0 then scanner.fillMore fuel else pure (.ok true, scanner)
  match more with
  | .error cause => return (.error cause, scanner)
  | .ok false =>
    let (token, scanner) := scanner.finish
    return (.ok (.eof token), scanner)
  | .ok true =>
    match ← forward fuel scanner with
    | (.error cause, scanner) => return (.error cause, scanner)
    | (.ok trail, scanner) =>
      let (choice, scanner) ← select trail scanner
      let (piece, scanner) ← scanner.settle choice
      return (.ok piece, scanner)

/-- Scans up to the next token. -/
def next : Nat → Scanner σ φ U ε → Run (Except StreamFault (Token V) × Scanner σ φ U ε)
  | 0, _ => .error .fuel
  | fuel + 1, scanner => do
    match ← round fuel scanner with
    | (.error cause, scanner) => return (.error (.io cause), scanner)
    | (.ok (.token _ token), scanner) => return (.ok token, scanner)
    | (.ok (.eof token), scanner) => return (.ok token, scanner)
    | (.ok (.discarded _), scanner) => next fuel scanner
    | (.ok (.unmatched _), scanner) => next fuel scanner

instance : TokenSource (Scanner σ φ U ε) V (Notice U ε) where
  next fuel scanner := do
    let (answer, scanner) ← next fuel scanner
    let (notes, scanner) := scanner.takeJournal
    return ⟨answer, scanner, notes⟩
  close scanner := scanner.close.takeJournal.1

end TableDriven.Scanner
