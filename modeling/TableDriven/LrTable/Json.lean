import TableDriven.LrTable.Check
import TableDriven.Json.Value

/-! # The JSON form of a parser table

A record of all fields, written without blanks.  Reading also takes the fields in any order,
among others, or as an array, and checks the table.
-/

namespace TableDriven.LrTable

open TableDriven.Json

def fieldNames : List String := [
  "symbol_count", "production_lhs", "production_rhs_len", "production_param", "max_insertion",
  "max_deletion", "validation_length", "single_point_insertions", "insertion_cost",
  "deletion_cost", "goal_production", "eof_symbol", "action", "unwinding", "symbol_names",
  "production_link_names"]

def fieldValues (table : LrTable) : List Value := [
  Coded.toValue table.symbolCount, Coded.toValue table.productionLhs,
  Coded.toValue table.productionRhsLength, Coded.toValue table.productionParam,
  Coded.toValue table.maxInsertion, Coded.toValue table.maxDeletion,
  Coded.toValue table.validationLength, Coded.toValue table.singlePointInsertions,
  Coded.toValue table.insertionCosts, Coded.toValue table.deletionCosts,
  Coded.toValue table.goalProduction, Coded.toValue table.eofSymbol,
  Coded.toValue table.actions, Coded.toValue table.unwinding,
  Coded.toValue table.symbolNames, Coded.toValue table.linkNames]

def toValue (table : LrTable) : Value := .record (fieldNames.zip table.fieldValues)

def ofValue? (value : Value) : Option LrTable := do
  match ← value.fields? fieldNames with
  | [symbolCount, productionLhs, productionRhsLength, productionParam, maxInsertion, maxDeletion,
      validationLength, singlePointInsertions, insertionCosts, deletionCosts, goalProduction,
      eofSymbol, actions, unwinding, symbolNames, linkNames] =>
    return {
      symbolCount := ← Coded.ofValue? symbolCount
      productionLhs := ← Coded.ofValue? productionLhs
      productionRhsLength := ← Coded.ofValue? productionRhsLength
      productionParam := ← Coded.ofValue? productionParam
      maxInsertion := ← Coded.ofValue? maxInsertion
      maxDeletion := ← Coded.ofValue? maxDeletion
      validationLength := ← Coded.ofValue? validationLength
      singlePointInsertions := ← Coded.ofValue? singlePointInsertions
      insertionCosts := ← Coded.ofValue? insertionCosts
      deletionCosts := ← Coded.ofValue? deletionCosts
      goalProduction := ← Coded.ofValue? goalProduction
      eofSymbol := ← Coded.ofValue? eofSymbol
      actions := ← Coded.ofValue? actions
      unwinding := ← Coded.ofValue? unwinding
      symbolNames := ← Coded.ofValue? symbolNames
      linkNames := ← Coded.ofValue? linkNames }
  | _ => none

def toJson (table : LrTable) : List UInt8 := table.toValue.render

def ofJson (text : List UInt8) : Except (TableFault Defect) LrTable := do
  match Value.ofBytes? text >>= ofValue? with
  | none => throw .json
  | some table =>
    table.check.mapError .inconsistent
    return table

end TableDriven.LrTable
