import TableDriven.Calculator.Tables
import TableDriven.LrTable.Binary
import TableDriven.LrTable.Json
import TableDriven.Lexicon.Binary
import TableDriven.Lexicon.Json
import TableDriven.Session.Tables

/-! # Publishing the calculator's tables

A program that writes the calculator's tables into a directory, in binary form and, if the
variable `DUMP_JSON` is `1`, as JSON.
-/

namespace TableDriven.Command

open TableDriven.Binary (Encoding)

def inDirectory (directory name : String) : String :=
  if directory = "" ∨ directory.endsWith "/" then directory ++ name else directory ++ "/" ++ name

def saveAs (describe : δ → String) (path : String) (encoding : Encoding) : Program Unit := do
  let saved : Except (TableFault δ) Unit ← ExceptT.lift (Session.save path encoding)
  Program.doing ("write " ++ path) (Session.tableCauses describe) saved

def wrote (what : String) : Program Unit := Program.line ("[gen_calc_tables] wrote " ++ what)

/-- Writes the tables into the directory that the first argument names. -/
def publish (arguments : List String) : Program Unit := do
  let directory := arguments.headD "tables"
  Program.doing ("create " ++ directory) Program.ioCauses (← Program.makeDirectories directory)
  let json ← Program.environment "DUMP_JSON"
  let scanner := inDirectory directory "calc_scanner.bin"
  saveAs Lexicon.Defect.message scanner Calculator.lexicon.write
  wrote scanner
  let parser := inDirectory directory "calc_parser.bin"
  saveAs LrTable.Defect.message parser Calculator.table.write
  wrote parser
  if json = some "1" then
    let scanner := inDirectory directory "calc_scanner.json"
    saveAs Lexicon.Defect.message scanner ⟨Calculator.lexicon.toJson, none⟩
    let parser := inDirectory directory "calc_parser.json"
    saveAs LrTable.Defect.message parser ⟨Calculator.table.toJson, none⟩
    wrote (scanner ++ " and " ++ parser)

end TableDriven.Command
