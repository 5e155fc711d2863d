import TableDriven.Binary.Array
import TableDriven.Text.Utf16

/-! # Texts in binary form

A text stands in one of three forms: UTF-8 behind a 16-bit length, one byte for each character up
to U+00FF behind a length, or UTF-16 units behind a length.  An array of texts is its length and
the texts in UTF-8.
-/

namespace TableDriven.Binary

open TableDriven.Text

def utfLengthMax : Nat := 0xFFFF

def writeUtf (text : String) : Encoding :=
  let bytes := Utf8.encode text
  if bytes.length ≤ utfLengthMax then ⟨Word.encode (UInt16.ofNat bytes.length) ++ bytes, none⟩
  else .refuse (.tooLong bytes.length)

def writeNarrow (text : List Char) : Encoding :=
  ⟨text.map fun char => UInt8.ofNat char.toNat, none⟩

def writeByteString (text : Option String) : Encoding :=
  match text.bind fun text => text.toList.find? fun char => 0xFF < char.toNat with
  | some char => .refuse (.unencodable char)
  | none => writeMeasured List.length writeNarrow (text.map String.toList)

def writeCharString (text : Option String) : Encoding :=
  writeArray (text.map fun text => (Utf16.encode text.toList).toArray)

def writeStrings (texts : Option (Array String)) : Encoding :=
  writeMeasured Array.size (writeRows writeUtf) texts

def readUtf : Decoder String := do
  let length ← Word.read UInt16
  match Utf8.decode (← Decoder.bytes length.toNat) with
  | .ok text => return text
  | .error fault => throw (.corrupt (.utf8 fault))

def readByteString : Decoder (Option String) :=
  readMeasured fun length => do
    let bytes ← Decoder.bytes length
    return String.ofList (bytes.map fun byte => Char.ofNat byte.toNat)

def readCharString : Decoder (Option String) := do
  match ← readArray UInt16 with
  | none => return none
  | some units =>
    match Utf16.decode units.toList with
    | some text => return some (String.ofList text)
    | none => throw (.corrupt .utf16)

def readStrings : Decoder (Option (Array String)) :=
  readMeasured fun length => Decoder.replicate length readUtf

end TableDriven.Binary
