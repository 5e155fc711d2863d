import TableDriven.Binary.Word

/-! # Lengths and counts

A length stands before every array and text: two bytes up to 0x7FFF, four bytes with the top bit
set above that, and two bytes 0xFFFF for a null.  A length that fits two bytes has no four-byte
form.  A count is a signed 32-bit number that must not be negative.
-/

namespace TableDriven.Binary

def shortLengthMax : Nat := 0x7FFF

/-- The largest length of four bytes: one more would read as a null. -/
def longLengthMax : Nat := 0x7FFEFFFF

def countMax : Nat := 0x7FFFFFFF

def writeLength : Option Nat → Encoding
  | none => Word.write (0xFFFF : UInt16)
  | some length =>
    if length ≤ shortLengthMax then Word.write (UInt16.ofNat length)
    else if length ≤ longLengthMax then Word.write (UInt32.ofNat (0x80000000 + length))
    else .refuse (.tooLong length)

def writeCount (count : Nat) : Encoding :=
  if count ≤ countMax then Word.write (Int32.ofNat count) else .refuse (.tooLong count)

def readLength : Decoder (Option Nat) := do
  let head ← Word.read UInt16
  if head = 0xFFFF then
    return none
  else if head < 0x8000 then
    return some head.toNat
  else
    let low ← Word.read UInt16
    let length := (head.toNat - 0x8000) * 0x10000 + low.toNat
    if length ≤ shortLengthMax then throw (.corrupt (.longForm length))
    return some length

def readRequiredLength (what : String) : Decoder Nat := readLength.required what

/-- Reads the count of `what`. -/
def readCount (what : String) : Decoder Nat := do
  let value := (← Word.read Int32).toInt
  if value < 0 then throw (.corrupt (.negative what value))
  return value.toNat

/-- Writes the length of an optional value and then its content. -/
def writeMeasured (length : α → Nat) (content : α → Encoding) (value : Option α) : Encoding :=
  writeLength (value.map length) ++
    match value with
    | none => .empty
    | some value => content value

/-- Reads a length and then that much content; a null has none. -/
def readMeasured (content : Nat → Decoder α) : Decoder (Option α) := do
  match ← readLength with
  | none => return none
  | some length => return some (← content length)

end TableDriven.Binary
