import TableDriven.Binary.Length

/-! # Arrays of fixed-width values

An array is its length and its elements; a two-dimensional array is its number of rows and the
rows, none of them null.
-/

namespace TableDriven.Binary

def writeWords [Word α] (values : Array α) : Encoding :=
  ⟨values.toList.flatMap Word.encode, none⟩

def writeArray [Word α] (values : Option (Array α)) : Encoding :=
  writeMeasured Array.size writeWords values

def writeRows (row : α → Encoding) (rows : Array α) : Encoding :=
  .concat (rows.toList.map row)

def writeArray2d [Word α] (rows : Option (Array (Array α))) : Encoding :=
  writeMeasured Array.size (writeRows fun row => writeArray (some row)) rows

def readArray (α : Type) [Word α] : Decoder (Option (Array α)) :=
  readMeasured fun length => Decoder.replicate length (Word.read α)

/-- Reads `left` rows after those in `done`; `row` reads the one of the given number. -/
def readRowsOnto (row : Nat → Decoder α) (done : Array α) : Nat → Decoder (Array α)
  | 0, input => .ok done input
  | left + 1, input =>
    match row done.size input with
    | .ok value rest => readRowsOnto row (done.push value) left rest
    | .error cause rest => .error cause rest

/-- Reads `count` rows; `row` reads the one of the given number. -/
def readRows (row : Nat → Decoder α) (count : Nat) : Decoder (Array α) :=
  readRowsOnto row #[] count

def readRow (α : Type) [Word α] (index : Nat) : Decoder (Array α) := do
  match ← readArray α with
  | some row => return row
  | none => throw (.corrupt (.nullRow index))

def readArray2d (α : Type) [Word α] : Decoder (Option (Array (Array α))) :=
  readMeasured (readRows (readRow α))

end TableDriven.Binary
