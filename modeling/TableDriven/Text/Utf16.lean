/-! # UTF-16

Texts as 16-bit units.  A character above U+FFFF takes a pair of surrogates; a surrogate that is
not half of such a pair spells nothing.
-/

namespace TableDriven.Text.Utf16

def units (char : Char) : List UInt16 :=
  if char.toNat < 0x10000 then [UInt16.ofNat char.toNat]
  else
    let above := char.toNat - 0x10000
    [UInt16.ofNat (0xD800 + above / 0x400), UInt16.ofNat (0xDC00 + above % 0x400)]

def encode (text : List Char) : List UInt16 := text.flatMap units

def isHigh (unit : UInt16) : Bool := 0xD800 ≤ unit && unit < 0xDC00

def isLow (unit : UInt16) : Bool := 0xDC00 ≤ unit && unit < 0xE000

def paired (high low : UInt16) : Char :=
  Char.ofNat (0x10000 + (high.toNat - 0xD800) * 0x400 + (low.toNat - 0xDC00))

/-- The characters that `input` spells, after those already in `done` (newest first). -/
def decodeOnto (done : List Char) : List UInt16 → Option (List Char)
  | [] => some done.reverse
  | unit :: rest =>
    if isHigh unit then
      match rest with
      | [] => none
      | next :: rest => if isLow next then decodeOnto (paired unit next :: done) rest else none
    else if isLow unit then none
    else decodeOnto (Char.ofNat unit.toNat :: done) rest

/-- The text that `input` spells; `none` if a surrogate stands alone. -/
def decode (input : List UInt16) : Option (List Char) := decodeOnto [] input

end TableDriven.Text.Utf16
