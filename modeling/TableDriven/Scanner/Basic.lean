import TableDriven.Lexicon.Basic
import TableDriven.Log
import TableDriven.Scanner.Window
import TableDriven.Token.Source

/-! # Scanners

A scanner owns a unit source and a window on it, a start condition, the position of the next
unit, and a factory for some of its tokens.  A factory is shown each candidate match of its token
and rules on it.  What happens on the way is kept in a journal: the notices for the scanner's
client, its log entries, and the notes of its source and factories, in order.
-/

namespace TableDriven

/-- The position behind a unit.  A tab goes to the next multiple of `tab` columns. -/
def Position.after [ScanUnit U] (tab : UInt32) (position : Position) (unit : U) : Position :=
  if ScanUnit.isLineBreak unit then ⟨position.line + 1, 1⟩
  else if ScanUnit.isTab unit then
    ⟨position.line, ((position.column - 1) / tab + 1) * tab + 1⟩
  else ⟨position.line, position.column + 1⟩

namespace Scanner

/-- A candidate match, as a factory sees it.  The token will have `number` unless the factory
chooses another; `condition` is the start condition in force. -/
structure Match (U : Type) where
  token : Nat
  param : Int
  number : Nat
  text : List U
  position : Position
  condition : Nat
  conditionCount : Nat
  deriving Inhabited

/-- Whether a candidate's factory may switch to a start condition. -/
def Match.allows (candidate : Match U) (condition : Nat) : Bool :=
  condition < candidate.conditionCount

/-- What becomes of a candidate: it is delivered and its text consumed, its text is consumed
silently, or the next candidate is tried, of the same length or shorter. -/
inductive Verdict where
  | assemble
  | discard
  | reject
  deriving DecidableEq, Inhabited

def Verdict.text : Verdict → String
  | .assemble => "assemble"
  | .discard => "discard"
  | .reject => "reject"

/-- How a factory rules on a candidate: the verdict, the number and the value of the token, and a
start condition to switch to whatever the verdict, which is ignored if there is none such. -/
structure Ruling (V : Type) where
  verdict : Verdict
  number : Nat
  value : Option V
  condition : Option Nat
  deriving Inhabited

/-- A state that rules on candidates and makes notes of type `ε`. -/
class TokenFactory (φ U : Type) (V : outParam Type) (ε : Type) where
  consult : φ → Match U → Ruling V × φ × List ε

/-- An item of a scanner's journal.  An `unmatched` unit begins no token and was skipped; a token of
`count` units was `delivered`; a factory for a token that the lexicon lacks was ignored. -/
inductive Notice (U ε : Type) where
  | eof (position : Position)
  | unmatched (unit : U) (position : Position)
  | failed (cause : IoFault)
  | delivered (number count : Nat) (position : Position)
  | grown (old new : Nat)
  | unknownToken (token count : Nat)
  | noted (note : ε)
  deriving Inhabited

/-- The log entry of a notice.  That of `eof`, `unmatched` and `failed` is what a client that
only keeps a log says. -/
def Notice.entry? [ScanUnit U] : Notice U ε → Option Log.Entry
  | .eof position => some ⟨.trace, "scanner reached end of input at " ++ position.text⟩
  | .unmatched unit position =>
    some ⟨.warn, "unmatched input " ++ ScanUnit.shown unit ++ " at " ++ position.text⟩
  | .failed cause => some ⟨.error, "scanner input failed: " ++ cause.message⟩
  | .delivered number count position =>
    some ⟨.trace, s!"token {number} ({count} units) at " ++ position.text⟩
  | .grown old new => some ⟨.debug, s!"scanner buffer grows {old} -> {new}"⟩
  | .unknownToken token count =>
    some ⟨.warn, s!"ignoring factory for token {token}: table has {count} tokens"⟩
  | .noted _ => none

end Scanner

/-- A scanner over sources `σ` with factories `φ`.  Tokens numbered `eofSymbol` end the stream, the
buffer of an open scanner has at least `initialBuffer` units, and a token without a factory is
assembled.  The source `isExhausted` if it has no more input. -/
structure Scanner (σ φ U ε : Type) where
  lexicon : Lexicon
  eofSymbol : Nat
  initialBuffer : Nat
  tabWidth : UInt32
  factories : Array (Option φ)
  source : Option σ
  file : Option String
  isExhausted : Bool
  isEofReported : Bool
  window : Window U
  condition : Nat
  position : Position
  journal : Array (Scanner.Notice U ε)
  deriving Inhabited

namespace Scanner

open UnitSource (fill)

def defaultBuffer : Nat := 4096

def defaultTabWidth : UInt32 := 8

def create (lexicon : Lexicon) (eofSymbol initialBuffer : Nat) (tabWidth : UInt32) :
    Scanner σ φ U ε where
  lexicon := lexicon
  eofSymbol := eofSymbol
  initialBuffer := initialBuffer
  tabWidth := tabWidth
  factories := Array.replicate lexicon.tokenCount none
  source := none
  file := none
  isExhausted := true
  isEofReported := false
  window := ⟨#[], 0, 0⟩
  condition := 0
  position := .origin
  journal := #[]

variable [ScanUnit U] [UnitSource σ U ε] (scanner : Scanner σ φ U ε)

def note (notice : Notice U ε) : Scanner σ φ U ε :=
  { scanner with journal := scanner.journal.push notice }

def noteAll (notes : List ε) : Scanner σ φ U ε :=
  { scanner with journal := scanner.journal.appendList (notes.map .noted) }

def takeJournal : List (Notice U ε) × Scanner σ φ U ε :=
  (scanner.journal.toList, { scanner with journal := #[] })

def setFactory (token : Nat) (factory : φ) : Scanner σ φ U ε :=
  if token < scanner.factories.size then
    { scanner with factories := scanner.factories.setIfInBounds token (some factory) }
  else scanner.note (.unknownToken token scanner.factories.size)

def setCondition (condition : Nat) : Bool × Scanner σ φ U ε :=
  if condition < scanner.lexicon.conditions then (true, { scanner with condition })
  else (false, scanner)

def close : Scanner σ φ U ε :=
  match scanner.source with
  | none => { scanner with isExhausted := true }
  | some source =>
    noteAll { scanner with source := none, isExhausted := true } (UnitSource.close source).2

/-- Opens a source at its beginning; one that is open is closed first. -/
def openSource (source : σ) (file : Option String) : Scanner σ φ U ε :=
  let scanner := scanner.close
  { scanner with
    source := some source
    file
    isExhausted := false
    isEofReported := false
    window := scanner.window.reset scanner.initialBuffer
    condition := 0
    position := .origin }

/-- Makes room for `extra` units and reports a buffer that grew. -/
def makeRoom (extra : Nat) : Scanner σ φ U ε :=
  let (window, growth) := scanner.window.makeRoom extra
  let scanner := { scanner with window }
  match growth with
  | none => scanner
  | some (old, new) => scanner.note (.grown old new)

/-- Ends the scan for a failure of the input: it is reported, the source is closed, and the rest
of the window is dropped. -/
def fail (cause : IoFault) : Scanner σ φ U ε :=
  let scanner := (scanner.note (.failed cause)).close
  { scanner with window := scanner.window.clear }

/-- Reads more input behind the window; answers whether there was any. -/
def fillMore : Nat → Scanner σ φ U ε → Run (Except IoFault Bool × Scanner σ φ U ε)
  | 0, _ => .error .fuel
  | fuel + 1, scanner =>
    if scanner.isExhausted then .ok (.ok false, scanner)
    else
      let scanner := if scanner.window.free = 0 then scanner.makeRoom 1 else scanner
      match scanner.source with
      | none => .ok (.ok false, { scanner with isExhausted := true })
      | some source => do
        let free := scanner.window.free
        let delivery ← fill fuel source free
        let scanner := noteAll
          { scanner with
            source := some delivery.rest
            window := scanner.window.write delivery.written }
          delivery.notes
        match delivery.answer with
        | .ok (.read count) =>
          if 0 < count then
            return (.ok true, { scanner with window := scanner.window.extend (min count free) })
          else return (.ok false, { scanner with isExhausted := true })
        | .ok .eof => return (.ok false, { scanner with isExhausted := true })
        | .ok (.tooSmall wanted) =>
          if free < wanted then fillMore fuel (scanner.makeRoom wanted)
          else
            let cause := .refused wanted free
            return (.error cause, scanner.fail cause)
        | .error cause => return (.error cause, scanner.fail cause)

end Scanner

end TableDriven
