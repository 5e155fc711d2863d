import TableDriven.Lexicon.Check
import TableDriven.Json.Value

/-! # The JSON form of a scanner table

A record of all fields with the two automata as records in it, written without blanks.
-/

namespace TableDriven

open TableDriven.Json

namespace Automaton

def fieldNames : List String :=
  ["initial_state", "transition", "recognition", "token_list", "context_split"]

def fieldValues (automaton : Automaton) : List Value := [
  Coded.toValue automaton.initialStates, Coded.toValue automaton.transitions,
  Coded.toValue automaton.codes, Coded.toValue automaton.tokenLists,
  Coded.toValue automaton.contextSplits]

def ofValue? (value : Value) : Option Automaton := do
  match ← value.fields? fieldNames with
  | [initialStates, transitions, codes, tokenLists, contextSplits] =>
    return {
      initialStates := ← Coded.ofValue? initialStates
      transitions := ← Coded.ofValue? transitions
      codes := ← Coded.ofValue? codes
      tokenLists := ← Coded.ofValue? tokenLists
      contextSplits := ← Coded.ofValue? contextSplits }
  | _ => none

instance : Coded Automaton where
  toValue automaton := .record (fieldNames.zip automaton.fieldValues)
  ofValue? := ofValue?

end Automaton

namespace Lexicon

def fieldNames : List String := [
  "category_count", "category_table", "token_param", "token_context", "token_names",
  "condition_count", "context_count", "forward", "reverse"]

def fieldValues (lexicon : Lexicon) : List Value := [
  Coded.toValue lexicon.categoryCount, Coded.toValue lexicon.categories,
  Coded.toValue lexicon.tokenParams, Coded.toValue lexicon.tokenContexts,
  Coded.toValue lexicon.tokenNames, Coded.toValue lexicon.conditionCount,
  Coded.toValue lexicon.contextCount, Coded.toValue lexicon.forward,
  Coded.toValue lexicon.reverse]

def toValue (lexicon : Lexicon) : Value := .record (fieldNames.zip lexicon.fieldValues)

def ofValue? (value : Value) : Option Lexicon := do
  match ← value.fields? fieldNames with
  | [categoryCount, categories, tokenParams, tokenContexts, tokenNames, conditionCount,
      contextCount, forward, reverse] =>
    return {
      categoryCount := ← Coded.ofValue? categoryCount
      categories := ← Coded.ofValue? categories
      tokenParams := ← Coded.ofValue? tokenParams
      tokenContexts := ← Coded.ofValue? tokenContexts
      tokenNames := ← Coded.ofValue? tokenNames
      conditionCount := ← Coded.ofValue? conditionCount
      contextCount := ← Coded.ofValue? contextCount
      forward := ← Coded.ofValue? forward
      reverse := ← Coded.ofValue? reverse }
  | _ => none

def toJson (lexicon : Lexicon) : List UInt8 := lexicon.toValue.render

def ofJson (text : List UInt8) : Except (TableFault Defect) Lexicon := do
  match Value.ofBytes? text >>= ofValue? with
  | none => throw .json
  | some lexicon =>
    lexicon.check.mapError .inconsistent
    return lexicon

end Lexicon

end TableDriven
