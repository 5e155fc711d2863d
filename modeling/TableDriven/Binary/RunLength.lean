import TableDriven.Binary.Array

/-! # Run-length arrays

Arrays with long runs of equal elements.  `runs` cuts an array into maximal runs of bounded
length and `expand` spells them out again.  Each kind of array has its own record for a run:

* truth values: one byte, the value in the top bit and the length less one below it;
* bytes: the length less one, then the value;
* 16-bit values: the value alone, or an escaped record (see `Escape`).
-/

namespace TableDriven.Binary

/-- An element and how often it stands in a row. -/
abbrev Stretch (α : Type) := α × Nat

/-- Adds an element behind the stretches read so far, newest first: the newest one grows if it
holds that element and is shorter than `limit`. -/
def extendRun [DecidableEq α] (limit : Nat) : List (Stretch α) → α → List (Stretch α)
  | (last, count) :: older, value =>
    if value = last ∧ count < limit then (last, count + 1) :: older
    else (value, 1) :: (last, count) :: older
  | [], value => [(value, 1)]

/-- The maximal runs of an array, each at most `limit` long. -/
def runs [DecidableEq α] (limit : Nat) (values : List α) : List (Stretch α) :=
  (values.foldl (extendRun limit) []).reverse

def expand (stretches : List (Stretch α)) : List α :=
  stretches.flatMap fun (value, count) => List.replicate count value

def boolRunMax : Nat := 128

def boolRecord : Stretch Bool → Bytes
  | (value, count) => [UInt8.ofNat (value.toNat * 128 + (count - 1))]

def writeBoolRuns (values : Array Bool) : Encoding :=
  ⟨(runs boolRunMax values.toList).flatMap boolRecord, none⟩

/-- Reads records of truth values behind those in `done` until there are `length`. -/
def readBoolRunsOnto (length : Nat) (done : Array Bool) (input : Bytes) :
    EStateM.Result CodecFault Bytes (Array Bool) :=
  if length ≤ done.size then .ok done input
  else
    match input with
    | [] => .error (.io .endOfInput) []
    | record :: rest =>
      let count := record.toNat % 128 + 1
      if length < done.size + count then
        .error (.corrupt (.overrun count done.size length)) rest
      else
        let value := decide (128 ≤ record.toNat)
        readBoolRunsOnto length (done ++ Array.replicate count value) rest
termination_by structural input

/-- Reads `length` truth values. -/
def readBoolRuns (length : Nat) : Decoder (Array Bool) := readBoolRunsOnto length #[]

def byteRunMax : Nat := 256

def byteRecord : Stretch Int8 → Bytes
  | (value, count) => [UInt8.ofNat (count - 1), value.toUInt8]

def writeByteRuns (values : Array Int8) : Encoding :=
  ⟨(runs byteRunMax values.toList).flatMap byteRecord, none⟩

/-- Reads records of bytes behind those in `done` until there are `length`. -/
def readByteRunsOnto (length : Nat) (done : Array Int8) (input : Bytes) :
    EStateM.Result CodecFault Bytes (Array Int8) :=
  if length ≤ done.size then .ok done input
  else
    match input with
    | size :: value :: rest =>
      let count := size.toNat + 1
      if length < done.size + count then
        .error (.corrupt (.overrun count done.size length)) rest
      else readByteRunsOnto length (done ++ Array.replicate count value.toInt8) rest
    | short => .error (.io .endOfInput) short
termination_by structural input

/-- Reads `length` bytes. -/
def readByteRuns (length : Nat) : Decoder (Array Int8) := readByteRunsOnto length #[]

def writeBools (values : Option (Array Bool)) : Encoding :=
  writeMeasured Array.size writeBoolRuns values

def writeSmalls (values : Option (Array Int8)) : Encoding :=
  writeMeasured Array.size writeByteRuns values

/-- Writes a two-dimensional run-length array of truth values, or a null. -/
def writeBools2d (rows : Option (Array (Array Bool))) : Encoding :=
  writeMeasured Array.size (writeRows fun row => writeBools (some row)) rows

/-- Writes a two-dimensional run-length array of bytes, or a null. -/
def writeSmalls2d (rows : Option (Array (Array Int8))) : Encoding :=
  writeMeasured Array.size (writeRows fun row => writeSmalls (some row)) rows

def readBools : Decoder (Option (Array Bool)) := readMeasured readBoolRuns

def readSmalls : Decoder (Option (Array Int8)) := readMeasured readByteRuns

/-- Reads the row of the given number: its length, which must not be null, and its runs. -/
def readRunRow (content : Nat → Decoder α) (row : Nat) : Decoder α := do
  content (← readRequiredLength s!"row {row}")

/-- Reads a two-dimensional run-length array of truth values, or a null. -/
def readBools2d : Decoder (Option (Array (Array Bool))) :=
  readMeasured (readRows (readRunRow readBoolRuns))

/-- Reads a two-dimensional run-length array of bytes, or a null. -/
def readSmalls2d : Decoder (Option (Array (Array Int8))) :=
  readMeasured (readRows (readRunRow readByteRuns))

end TableDriven.Binary
