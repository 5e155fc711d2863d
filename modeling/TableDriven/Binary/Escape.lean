import TableDriven.Binary.RunLength

/-! # Run-length arrays of 16-bit values

A value stands bare, or in an escaped record: the escape in the high byte and the run length less
one in the low byte, then the value.  A bare value must not have the escape in its high byte, so
a lone value that has it is escaped too.  The escape then moves on, which keeps a stream of such
values from paying for each of them; it depends on the values alone, so writer and reader agree
on it after every row.
-/

namespace TableDriven.Binary

/-- The high byte that marks an escaped record. -/
structure Escape where
  high : UInt8
  deriving DecidableEq, Inhabited

namespace Escape

def initial : Escape := ⟨0x81⟩

def collides (escape : Escape) (value : UInt16) : Bool := value.toNat / 256 == escape.high.toNat

/-- The escape in force after `value`: it moves on if the value collides with it. -/
def after (escape : Escape) (value : UInt16) : Escape :=
  if escape.collides value then ⟨escape.high + 0x4B⟩ else escape

end Escape

def shortRunMax : Nat := 256

def shortRecord (escape : Escape) : Stretch UInt16 → Bytes
  | (value, count) =>
    if count = 1 ∧ escape.collides value = false then Word.encode value
    else escape.high :: UInt8.ofNat (count - 1) :: Word.encode value

/-- Puts the record of a run before the bytes written so far, newest first, and moves the
escape on.  A bare value does not collide, so it leaves the escape alone. -/
def pushShortRecord : Bytes × Escape → Stretch UInt16 → Bytes × Escape
  | (written, escape), stretch =>
    ((shortRecord escape stretch).reverse ++ written, escape.after stretch.1)

def encodeShorts (escape : Escape) (values : List UInt16) : Bytes × Escape :=
  let (written, escape) := (runs shortRunMax values).foldl pushShortRecord ([], escape)
  (written.reverse, escape)

def writeShortRuns (values : Array UInt16) : Encoding :=
  ⟨(encodeShorts .initial values.toList).1, none⟩

def writeShortRow : List Encoding × Escape → Array UInt16 → List Encoding × Escape
  | (written, escape), row =>
    let (bytes, escape) := encodeShorts escape row.toList
    ((writeLength (some row.size) ++ ⟨bytes, none⟩) :: written, escape)

/-- Writes the rows of an array; the escape carries over from one to the next. -/
def writeShortRows (rows : Array (Array UInt16)) : Encoding :=
  .concat (rows.toList.foldl writeShortRow ([], .initial)).1.reverse

def writeShorts (values : Option (Array UInt16)) : Encoding :=
  writeMeasured Array.size writeShortRuns values

/-- Writes a run-length array of signed 16-bit values, or a null. -/
def writeSignedShorts (values : Option (Array Int16)) : Encoding :=
  writeShorts (values.map (·.map Int16.toUInt16))

/-- Writes a two-dimensional run-length array of 16-bit values, or a null. -/
def writeShorts2d (rows : Option (Array (Array UInt16))) : Encoding :=
  writeMeasured Array.size writeShortRows rows

/-- Reads records behind the values in `done` until there are `length`; answers the escape
behind them as well. -/
def readShortRunsOnto (length : Nat) (done : Array UInt16) (escape : Escape) (input : Bytes) :
    EStateM.Result CodecFault Bytes (Array UInt16 × Escape) :=
  if length ≤ done.size then .ok (done, escape) input
  else
    match input with
    | high :: low :: rest =>
      if high = escape.high then
        match rest with
        | valueHigh :: valueLow :: rest =>
          let count := low.toNat + 1
          let value : UInt16 := Word.decode [valueHigh, valueLow]
          if length < done.size + count then
            .error (.corrupt (.overrun count done.size length)) rest
          else
            readShortRunsOnto length (done ++ Array.replicate count value) (escape.after value) rest
        | short => .error (.io .endOfInput) short
      else readShortRunsOnto length (done.push (Word.decode [high, low])) escape rest
    | short => .error (.io .endOfInput) short
termination_by structural input

/-- Reads `length` 16-bit values. -/
def readShortRuns (length : Nat) : Decoder (Array UInt16) := do
  return (← readShortRunsOnto length #[] .initial).1

/-- Reads `left` rows behind those in `done`; the escape carries over from one to the next. -/
def readShortRowsOnto (done : Array (Array UInt16)) (escape : Escape) :
    Nat → Decoder (Array (Array UInt16))
  | 0, input => .ok done input
  | left + 1, input =>
    match readRunRow (fun length => readShortRunsOnto length #[] escape) done.size input with
    | .ok (row, escape) rest => readShortRowsOnto (done.push row) escape left rest
    | .error cause rest => .error cause rest

def readShorts : Decoder (Option (Array UInt16)) := readMeasured readShortRuns

/-- Reads a run-length array of signed 16-bit values, or a null. -/
def readSignedShorts : Decoder (Option (Array Int16)) := do
  return (← readShorts).map (·.map UInt16.toInt16)

/-- Reads a two-dimensional run-length array of 16-bit values, or a null. -/
def readShorts2d : Decoder (Option (Array (Array UInt16))) :=
  readMeasured (readShortRowsOnto #[] .initial)

end TableDriven.Binary
