/-! # UTF-8

Texts as bytes.  `decode` accepts exactly the valid sequences and otherwise says where the first
fault lies: how many bytes of a sequence were good before it went wrong, or that the bytes end
inside a sequence that was good so far.
-/

namespace TableDriven.Text.Utf8

/-- Where a byte sequence stops being UTF-8: from `start` on, `width` bytes begin a sequence that
nothing can complete, or the bytes end inside a sequence. -/
inductive Fault where
  | malformed (width start : Nat)
  | cut (start : Nat)
  deriving DecidableEq, Inhabited

def Fault.message : Fault → String
  | .malformed width start => s!"invalid utf-8 sequence of {width} bytes from index {start}"
  | .cut start => s!"incomplete utf-8 byte sequence from index {start}"

def isTail (byte : UInt8) : Bool := 0x80 ≤ byte && byte ≤ 0xBF

/-- Whether `second` may follow `first` at the head of a three-byte sequence: no overlong form
and no surrogate. -/
def isSecondOfThree (first second : UInt8) : Bool :=
  if first = 0xE0 then 0xA0 ≤ second && second ≤ 0xBF
  else if first = 0xED then 0x80 ≤ second && second ≤ 0x9F
  else isTail second

/-- Whether `second` may follow `first` at the head of a four-byte sequence: no overlong form
and nothing above U+10FFFF. -/
def isSecondOfFour (first second : UInt8) : Bool :=
  if first = 0xF0 then 0x90 ≤ second && second ≤ 0xBF
  else if first = 0xF4 then 0x80 ≤ second && second ≤ 0x8F
  else isTail second

/-- The first fault of `bytes`, which start at index `start` of the whole. -/
def firstFault (start : Nat) : List UInt8 → Option Fault
  | [] => none
  | first :: rest =>
    if first < 0x80 then firstFault (start + 1) rest
    else if 0xC2 ≤ first && first ≤ 0xDF then
      match rest with
      | [] => some (.cut start)
      | second :: rest =>
        if isTail second then firstFault (start + 2) rest else some (.malformed 1 start)
    else if 0xE0 ≤ first && first ≤ 0xEF then
      match rest with
      | [] => some (.cut start)
      | second :: rest =>
        if isSecondOfThree first second then
          match rest with
          | [] => some (.cut start)
          | third :: rest =>
            if isTail third then firstFault (start + 3) rest else some (.malformed 2 start)
        else some (.malformed 1 start)
    else if 0xF0 ≤ first && first ≤ 0xF4 then
      match rest with
      | [] => some (.cut start)
      | second :: rest =>
        if isSecondOfFour first second then
          match rest with
          | [] => some (.cut start)
          | third :: rest =>
            if isTail third then
              match rest with
              | [] => some (.cut start)
              | fourth :: rest =>
                if isTail fourth then firstFault (start + 4) rest else some (.malformed 3 start)
            else some (.malformed 2 start)
        else some (.malformed 1 start)
    else some (.malformed 1 start)

def encode (text : String) : List UInt8 := text.toUTF8.data.toList

/-- The text that `bytes` spell, or their first fault. -/
def decode (bytes : List UInt8) : Except Fault String :=
  match String.fromUTF8? ⟨bytes.toArray⟩ with
  | some text => .ok text
  | none => .error ((firstFault 0 bytes).getD (.cut bytes.length))

@[simp] theorem decode_encode (text : String) : decode (encode text) = .ok text := by
  have whole : (⟨(encode text).toArray⟩ : ByteArray) = text.toByteArray := by
    simp [encode]
  have valid : String.fromUTF8? text.toByteArray = some text := by
    simp [String.fromUTF8?, String.fromUTF8, text.isValidUTF8]
  rw [decode, whole, valid]

theorem eq_encode_of_decode {bytes : List UInt8} {text : String}
    (decoded : decode bytes = .ok text) : bytes = encode text := by
  unfold decode at decoded
  split at decoded
  · rename_i found valid
    cases decoded
    simp only [String.fromUTF8?] at valid
    split at valid
    · cases valid
      simp [encode, String.fromUTF8]
    · cases valid
  · cases decoded

end TableDriven.Text.Utf8
