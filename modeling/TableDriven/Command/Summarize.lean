import TableDriven.LrTable.Binary
import TableDriven.LrTable.Json
import TableDriven.Lexicon.Binary
import TableDriven.Lexicon.Json
import TableDriven.Session.Tables

/-! # Summaries of tables

A program that loads a binary table of either kind, told apart by its signature, and prints a
summary.  If the variable `DUMP_JSON` names a file, the table is written there as JSON.
-/

namespace TableDriven.Command

open TableDriven.Text
open TableDriven.Binary (Bytes)

def productionLine (table : LrTable) (production : Nat) : Run String := do
  let label := table.symbolLabel (← table.lhs production)
  let count ← table.rhsLength production
  let param ← table.param production
  let link := Quoted.ofString ((table.linkNames[production]?).getD "")
  return s!"  [{production}] " ++ label ++ s!" ({count} symbols) param {param} link " ++ link

def parserLines (table : LrTable) : Run (List String) := do
  let symbols := table.symbols
  let productions := table.productionCount
  let states := table.stateCount
  let goal := table.goal
  let insertion := table.maxInsertion.toNat
  let deletion := table.maxDeletion.toNat
  let validation := table.validationLength.toNat
  let singles := table.singlePointInsertions.toList.map fun symbol =>
    Quoted.ofString (table.symbolLabel symbol.toNat)
  let sizes := s!"{symbols} symbols, {productions} productions, {states} states, goal {goal}"
  let bounds := s!"max insertion {insertion}, max deletion {deletion}, validation {validation}"
  let lines ← (List.range productions).mapM (productionLine table)
  return ("parser table: " ++ sizes ++ ", eof " ++ table.symbolLabel table.eof) ::
    ("repair: " ++ bounds ++ ", single-point " ++ Quoted.bracketed singles) :: lines

def contextText : Option Nat → String
  | none => "None"
  | some context => s!"Some({context})"

def tokenLine (lexicon : Lexicon) (token : Nat) : Run String := do
  let param ← lexicon.param token
  let context ← lexicon.context? token
  return s!"  [{token}] " ++ (lexicon.tokenName? token).getD "?" ++ s!" param {param} context " ++
    contextText context

def automatonText (automaton : Automaton) : String :=
  let states := automaton.stateCount
  let codes := automaton.codeCount
  s!"{states} states, {codes} codes"

def scannerLines (lexicon : Lexicon) : Run (List String) := do
  let categories := lexicon.categoryCount.toNat
  let tokens := lexicon.tokenCount
  let conditions := lexicon.conditions
  let contexts := lexicon.contexts
  let sizes := s!"{categories} categories, {tokens} tokens, {conditions} conditions"
  let lines ← (List.range tokens).mapM (tokenLine lexicon)
  return ("scanner table: " ++ sizes ++ s!", {contexts} contexts") ::
    ("forward DFA: " ++ automatonText lexicon.forward ++ " | reverse DFA: " ++
      automatonText lexicon.reverse) :: lines

/-- Prints a summary and writes the JSON text, if a file is named for it. -/
def present (describe : δ → String) (lines : Run (List String)) (json : Bytes)
    (target : Option String) : Program Unit := do
  let lines ← Program.doing "the table does not hold together" (fun _ => []) lines
  lines.forM Program.line
  match target with
  | none => return
  | some path =>
    let saved : Except (TableFault δ) Unit ← ExceptT.lift (Session.save path ⟨json, none⟩)
    Program.doing ("write " ++ path) (Session.tableCauses describe) saved
    Program.line ("wrote " ++ path)

def begins (signature bytes : Bytes) : Bool := signature.isPrefixOf bytes

/-- Summarizes the table in the file that the first argument names. -/
def summarize (arguments : List String) : Program Unit := do
  match arguments with
  | [] => throw ⟨"usage: dump_tables <table.bin>", []⟩
  | path :: _ =>
    let bytes ← Program.doing ("read " ++ path) Program.ioCauses (← Program.contents path)
    let target ← Program.environment "DUMP_JSON"
    if begins LrTable.signature bytes then
      let describe := LrTable.Defect.message
      let table ← Program.doing ("load " ++ path) (Session.tableCauses describe)
        (LrTable.ofBytes bytes)
      present describe (parserLines table) table.toJson target
    else if begins Lexicon.signature bytes then
      let describe := Lexicon.Defect.message
      let lexicon ← Program.doing ("load " ++ path) (Session.tableCauses describe)
        (Lexicon.ofBytes bytes)
      present describe (scannerLines lexicon) lexicon.toJson target
    else throw ⟨path ++ ": not a scanner or parser table", []⟩

end TableDriven.Command
