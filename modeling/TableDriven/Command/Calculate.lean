import TableDriven.Calculator.Draw
import TableDriven.Calculator.Evaluate
import TableDriven.LrTable.Binary
import TableDriven.Lexicon.Binary
import TableDriven.Session.Tables
import TableDriven.Text.Fixed

/-! # Calculating

A program that evaluates a sum, read from a file or made up, and says how long that took.  It
uses the tables that it finds in files, or else the calculator's own.
-/

namespace TableDriven.Command

open TableDriven.Binary (Bytes)
open TableDriven.Calculator

def milliseconds (nanoseconds : Nat) : String := Text.Fixed.ofFraction 3 nanoseconds 1000000

/-- A rate in units of `2 ^ 20` bytes in a second, with one place. -/
def rate (bytes nanoseconds : Nat) : String :=
  Text.Fixed.ofFraction 1 (bytes * 1000000000) (1048576 * max nanoseconds 1)

/-- Runs a part of a program; answers also how long it took. -/
def timed (part : Program α) : Program (α × Nat) := do
  let start ← Program.now
  let result ← part
  return (result, (← Program.now) - start)

/-- The table in a file, or a given one if the file cannot be read. -/
def tableFrom (describe : δ → String) (load : Bytes → Except (TableFault δ) α) (path : String)
    (default : α) : Program α := do
  match ← Program.contents path with
  | .error _ => return default
  | .ok bytes => Program.doing ("load " ++ path) (Session.tableCauses describe) (load bytes)

def settings : Program Settings := do
  let lexicon ← tableFrom Lexicon.Defect.message Lexicon.ofBytes "tables/calc_scanner.bin"
    Calculator.lexicon
  let table ← tableFrom LrTable.Defect.message LrTable.ofBytes "tables/calc_parser.bin"
    Calculator.table
  return { lexicon, table }

/-- A text to evaluate, and its value if that is known. -/
structure Input where
  bytes : Bytes
  expected : Option Int64
  deriving Inhabited

def fileInput (path : String) : Program Input := do
  let (bytes, time) ← timed do
    Program.doing ("read " ++ path) Program.ioCauses (← Program.contents path)
  let count := bytes.length
  Program.line ("Input: " ++ path ++ s!" ({count} bytes) | load " ++ milliseconds time ++ " ms")
  return ⟨bytes, none⟩

/-- The number below `bound` that a text spells: digits, perhaps behind a plus sign. -/
def numberIn? (bound : Nat) (text : String) : Option Nat :=
  let digits : List Char :=
    match text.toList with
    | '+' :: rest => rest
    | whole => whole
  let number := digits.foldl (fun number digit => number * 10 + (digit.toNat - '0'.toNat)) 0
  if digits ≠ [] ∧ digits.all Char.isDigit ∧ number < bound then some number else none

def setting (name : String) (default : Nat) : Program Nat := do
  return ((← Program.environment name).bind (numberIn? UInt64.size)).getD default

def sampleInput : Program Input := do
  let target ← setting "CALC_DEMO_LEN" 5000
  let seed ← setting "CALC_DEMO_SEED" 42
  let (sample, time) ← timed do
    return (Draw.run (Sample.ofLength target) (WordMixer.mk (UInt64.ofNat seed))).1
  let count := sample.length
  Program.line (s!"Input: generated (len={count} bytes) | gen " ++ milliseconds time ++
    s!" ms [seed={seed}]")
  return ⟨Text.Utf8.encode sample.text, some sample.total⟩

def valueText (value : Int64) : String := toString value.toInt

/-- Evaluates an input; answers also how long that took. -/
def evaluated (settings : Settings) (bytes : Bytes) : Program (Option Int64 × Nat) := timed do
  let calculation := evaluateWith (fuelFor settings.table bytes.length) settings
    ({ bytes } : Memory) none
  let (result, _) ← Program.doing "the tables reduce for ever" (fun _ => []) calculation
  Program.doing "parse failed" (fun fault => [fault.message]) result

def resultLine : Option Int64 → Option Int64 → Except Failure String
  | none, _ => .ok "Result: <none> (input was repaired)"
  | some value, none => .ok ("Result: " ++ valueText value)
  | some value, some expected =>
    if value = expected then .ok ("Result: " ++ valueText value ++ " (matches generator)")
    else .error ⟨"result " ++ valueText value ++ " differs from generator value " ++
      valueText expected, []⟩

/-- Evaluates the file that the first argument names, or an input that is made up. -/
def calculate (arguments : List String) : Program Unit := do
  let (settings, time) ← timed settings
  Program.line ("Tables: " ++ milliseconds time ++ " ms")
  let input ← match arguments with
    | [] => sampleInput
    | path :: _ => fileInput path
  let (value, time) ← evaluated settings input.bytes
  let count := input.bytes.length
  Program.line (s!"Parsed {count} bytes in " ++ milliseconds time ++ " ms (" ++
    rate count time ++ " MiB/s)")
  Program.line (← ExceptT.mk (pure (resultLine value input.expected)))

end TableDriven.Command
