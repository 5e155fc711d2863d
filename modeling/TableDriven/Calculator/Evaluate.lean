import TableDriven.Calculator.Tables
import TableDriven.Input.Bytes
import TableDriven.Parser.Parse
import TableDriven.Scanner.Round

/-! # Evaluating sums

The calculator reads bytes, scans and parses them with its tables, and adds.  Integers are 64-bit
words and wrap around.  A sum that needs the value of an integer which a repair inserted has no
value.
-/

namespace TableDriven.Calculator

open TableDriven.Parser (Recipe)

/-- The number that a run of digits spells, modulo `2 ^ 64`. -/
def numeral (digits : List UInt8) : Int64 :=
  digits.foldl (fun value digit => value * 10 + (digit - 0x30).toUInt64.toInt64) 0

/-- What the scanner makes of a match: an integer token with the value that its digits spell, or
nothing. -/
inductive Spelling where
  | numeral
  | blank
  deriving DecidableEq, Inhabited

instance : Scanner.TokenFactory Spelling UInt8 Int64 ε where
  consult
    | .numeral, candidate =>
      (⟨.assemble, candidate.number, some (numeral candidate.text), none⟩, .numeral, [])
    | .blank, candidate => (⟨.discard, candidate.number, none, none⟩, .blank, [])

/-- What the parser makes of a reduction: the value of the first symbol, or the sum of the values
around the operator. -/
inductive Meaning where
  | first
  | sum
  deriving DecidableEq, Inhabited

/-- The sum of the first and the third value, if both are there. -/
def sum : Recipe Int64 (Option Int64) := do
  match ← Recipe.look 0 with
  | none => return none
  | some left =>
    match ← Recipe.look 2 with
    | none => return none
    | some right => return some (left + right)

instance : Parser.ValueFactory Meaning Int64 ε where
  produce
    | .first, _ => return (← Recipe.take 0, .first, [])
    | .sum, _ => return (← sum, .sum, [])

/-- The tables and the manner of scanning and parsing. -/
structure Settings where
  lexicon : Lexicon := Calculator.lexicon
  table : LrTable := Calculator.table
  initialBuffer : Nat := Scanner.defaultBuffer
  tabWidth : UInt32 := Scanner.defaultTabWidth
  repairs : Bool := true
  deriving Inhabited

/-- A notice of the scanner. -/
abbrev ScanNotice := Scanner.Notice UInt8 Empty

/-- A notice of a calculation: one of the parser, or of the scanner among those of the feed. -/
abbrev Notice := Parser.Notice Int64 ScanNotice

/-- A scanner of sums. -/
abbrev SumScanner (ρ : Type) := Scanner (ByteSource ρ) Spelling UInt8 Empty

def scanner (settings : Settings) (input : ρ) (file : Option String) [Reader ρ] : SumScanner ρ :=
  (((Scanner.create settings.lexicon endOfInput settings.initialBuffer settings.tabWidth).setFactory
    digitsToken .numeral).setFactory blanksToken .blank).openSource ⟨some input⟩ file

def parser (settings : Settings) : Parser Meaning Int64 ScanNotice :=
  let parser := Parser.create settings.table settings.repairs
  let (_, parser) := parser.bindLink "start" .first
  let (_, parser) := parser.bindLink "add" .sum
  let (_, parser) := parser.bindLink "num" .first
  parser

def feed (settings : Settings) (input : ρ) (file : Option String) [Reader ρ] :
    Feed (SumScanner ρ) Empty Int64 ScanNotice :=
  .ofSource (scanner settings input file) endOfInput

def evaluateWith [Reader ρ] (fuel : Nat) (settings : Settings) (input : ρ)
    (file : Option String) : Run (Parse.Result Int64 × List Notice) := do
  let (result, parser, _) ← (parser settings).parse fuel (feed settings input file)
  return (result, parser.takeJournal.1)

/-- Fuel for an input of `length` bytes: more than a parser takes steps on it, unless its table
reduces for ever. -/
def fuelFor (table : LrTable) (length : Nat) : Nat :=
  let size := table.stateCount + table.productionCount
  64 * (length + 16) * (size * size)

/-- The value of what a memory holds, with the calculator's own tables. -/
def evaluate (input : Memory) : Run (Parse.Result Int64 × List Notice) :=
  evaluateWith (fuelFor Calculator.table input.bytes.length) {} input none

end TableDriven.Calculator
