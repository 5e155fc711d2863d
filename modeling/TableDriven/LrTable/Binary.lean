import TableDriven.LrTable.Check
import TableDriven.Log
import TableDriven.Binary.Text
import TableDriven.Binary.Escape

/-! # The binary form of a parser table

A signature, the counts, then the arrays.  The counts repeat the sizes of the arrays, and a table
whose counts and sizes differ is refused.
-/

namespace TableDriven.LrTable

open TableDriven.Binary

def signature : Bytes := Text.Utf8.encode "LRPTBL01"

def write (table : LrTable) : Encoding :=
  .concat [
    ⟨signature, none⟩,
    writeCount table.symbols,
    writeCount table.productionCount,
    writeCount table.maxInsertion.toNat,
    writeCount table.maxDeletion.toNat,
    writeCount table.validationLength.toNat,
    writeCount table.singlePointInsertions.size,
    writeCount table.goal,
    writeCount table.eof,
    writeCount table.stateCount,
    writeArray (some table.productionLhs),
    writeArray (some table.productionRhsLength),
    writeArray (some table.productionParam),
    writeArray (some table.singlePointInsertions),
    writeArray (some table.insertionCosts),
    writeArray (some table.deletionCosts),
    writeShorts2d (some table.actions),
    writeShorts (some table.unwinding),
    writeStrings (some table.symbolNames),
    writeStrings (some table.linkNames)]

/-- The announced number of `what` is the actual one. -/
def checkHeader (announced : Nat) (what : String) (actual : Nat) : Except Defect Unit :=
  ensure (announced = actual) (.header announced what actual)

def read : TableDecoder Defect LrTable := do
  TableDecoder.signature signature
  let symbolCount ← TableDecoder.part (readCount "symbol count")
  let productionCount ← TableDecoder.part (readCount "production count")
  let maxInsertion ← TableDecoder.part (readCount "max insertion")
  let maxDeletion ← TableDecoder.part (readCount "max deletion")
  let validationLength ← TableDecoder.part (readCount "validation length")
  let singlePoints ← TableDecoder.part (readCount "single-point insertion count")
  let goalProduction ← TableDecoder.part (readCount "goal production")
  let eofSymbol ← TableDecoder.part (readCount "EOF symbol")
  let stateCount ← TableDecoder.part (readCount "state count")
  let productionLhs ← TableDecoder.required "production LHS" (readArray UInt32)
  let productionRhsLength ← TableDecoder.required "production RHS lengths" (readArray UInt32)
  let productionParam ← TableDecoder.required "production params" (readArray Int32)
  let singlePointInsertions ←
    TableDecoder.required "single-point insertions" (readArray UInt32)
  let insertionCosts ← TableDecoder.required "insertion costs" (readArray UInt32)
  let deletionCosts ← TableDecoder.required "deletion costs" (readArray UInt32)
  let actions ← TableDecoder.required "action table" readShorts2d
  let unwinding ← TableDecoder.required "unwinding table" readShorts
  let symbolNames ← TableDecoder.required "symbol names" readStrings
  let linkNames ← TableDecoder.required "link names" readStrings
  let table : LrTable := {
    symbolCount := UInt64.ofNat symbolCount
    productionLhs, productionRhsLength, productionParam
    maxInsertion := UInt64.ofNat maxInsertion
    maxDeletion := UInt64.ofNat maxDeletion
    validationLength := UInt64.ofNat validationLength
    singlePointInsertions, insertionCosts, deletionCosts
    goalProduction := UInt64.ofNat goalProduction
    eofSymbol := UInt32.ofNat eofSymbol
    actions, unwinding, symbolNames, linkNames }
  TableDecoder.require (checkHeader productionCount "productions" table.productionCount)
  TableDecoder.require
    (checkHeader singlePoints "single-point insertions" table.singlePointInsertions.size)
  TableDecoder.require (checkHeader stateCount "states" table.stateCount)
  TableDecoder.require table.check
  return table

/-- The parser table at the front of `bytes`. -/
def ofBytes (bytes : Bytes) : Except (TableFault Defect) LrTable := read.load bytes

def toBytes (table : LrTable) : Except (TableFault Defect) Bytes :=
  table.write.toExcept.mapError .codec

def loadEntry (table : LrTable) : Log.Entry :=
  let symbols := table.symbols
  let productions := table.productionCount
  let states := table.stateCount
  ⟨.debug, s!"loaded parser table: {symbols} symbols, {productions} productions, {states} states"⟩

end TableDriven.LrTable
