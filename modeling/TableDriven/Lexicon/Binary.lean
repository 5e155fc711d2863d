import TableDriven.Lexicon.Check
import TableDriven.Log
import TableDriven.Binary.Text
import TableDriven.Binary.Escape

/-! # The binary form of a scanner table

A signature, the counts, the arrays of the lexicon, and its two automata, each behind its own
number of states.
-/

namespace TableDriven

open TableDriven.Binary

namespace Automaton

def write (automaton : Automaton) : Encoding :=
  .concat [
    writeCount automaton.stateCount,
    writeArray (some automaton.initialStates),
    writeShorts2d (some automaton.transitions),
    writeShorts (some automaton.codes),
    writeArray2d (some automaton.tokenLists),
    writeBools2d (some automaton.contextSplits)]

/-- Reads an automaton; `misannounced` is the defect of a wrong number of states. -/
def read (misannounced : Nat → Nat → Lexicon.Defect) : TableDecoder Lexicon.Defect Automaton := do
  let stateCount ← TableDecoder.part (readCount "state count")
  let initialStates ← TableDecoder.required "initial states" (readArray UInt16)
  let transitions ← TableDecoder.required "transitions" readShorts2d
  let codes ← TableDecoder.required "recognition codes" readShorts
  let tokenLists ← TableDecoder.required "token lists" (readArray2d UInt16)
  let contextSplits ← TableDecoder.required "context split table" readBools2d
  let automaton : Automaton := { initialStates, transitions, codes, tokenLists, contextSplits }
  TableDecoder.require
    (ensure (automaton.stateCount = stateCount) (misannounced stateCount automaton.stateCount))
  return automaton

end Automaton

namespace Lexicon

def signature : Bytes := Text.Utf8.encode "LRSTBL01"

def write (lexicon : Lexicon) : Encoding :=
  .concat [
    ⟨signature, none⟩,
    writeCount lexicon.categoryCount.toNat,
    writeCount lexicon.tokenCount,
    writeCount lexicon.conditions,
    writeCount lexicon.contexts,
    writeShorts (some lexicon.categories),
    writeArray (some lexicon.tokenParams),
    writeArray (some lexicon.tokenContexts),
    writeStrings (some lexicon.tokenNames),
    lexicon.forward.write,
    lexicon.reverse.write]

def read : TableDecoder Defect Lexicon := do
  TableDecoder.signature signature
  let categoryCount ← TableDecoder.part (readCount "category count")
  let tokenCount ← TableDecoder.part (readCount "token count")
  let conditionCount ← TableDecoder.part (readCount "condition count")
  let contextCount ← TableDecoder.part (readCount "context count")
  let categories ← TableDecoder.required "category table" readShorts
  let tokenParams ← TableDecoder.required "token params" (readArray Int32)
  let tokenContexts ← TableDecoder.required "token contexts" (readArray Int32)
  let tokenNames ← TableDecoder.required "token names" readStrings
  let forward ← Automaton.read .forwardHeader
  let reverse ← Automaton.read .reverseHeader
  let lexicon : Lexicon := {
    categoryCount := UInt64.ofNat categoryCount
    categories, tokenParams, tokenContexts, tokenNames
    conditionCount := UInt64.ofNat conditionCount
    contextCount := UInt64.ofNat contextCount
    forward, reverse }
  TableDecoder.require
    (ensure (lexicon.tokenCount = tokenCount) (.tokenHeader tokenCount lexicon.tokenCount))
  TableDecoder.require lexicon.check
  return lexicon

/-- The scanner table at the front of `bytes`. -/
def ofBytes (bytes : Bytes) : Except (TableFault Defect) Lexicon := read.load bytes

def toBytes (lexicon : Lexicon) : Except (TableFault Defect) Bytes :=
  lexicon.write.toExcept.mapError .codec

def loadEntry (lexicon : Lexicon) : Log.Entry :=
  let categories := lexicon.categoryCount.toNat
  let tokens := lexicon.tokenCount
  let forward := lexicon.forward.stateCount
  let reverse := lexicon.reverse.stateCount
  ⟨.debug, s!"loaded scanner table: {categories} categories, {tokens} tokens, " ++
    s!"{forward} forward / {reverse} reverse states"⟩

end Lexicon

end TableDriven
