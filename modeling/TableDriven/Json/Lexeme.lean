import TableDriven.Text.Utf8
import TableDriven.Text.Utf16

/-! # The lexemes of JSON

A JSON text is a sequence of lexemes.  `render` writes them without blanks; `Lexeme.ofBytes?`
reads them, one byte at a time, and refuses a text with anything else in it.  A quoted text is
kept as the pieces it is written in, because a value that nobody asks for may hold bytes and
surrogates that spell no text.
-/

namespace TableDriven.Json

open TableDriven.Text

/-- A piece of a quoted text: a byte, written as itself or by a short escape, or a UTF-16 unit,
written by its number. -/
inductive Piece where
  | byte (value : UInt8)
  | unit (value : UInt16)
  deriving DecidableEq, Inhabited

/-- A lexeme of JSON.  A number is inexact if it has a fraction or an exponent, or is minus zero. -/
inductive Lexeme where
  | openObject
  | closeObject
  | openArray
  | closeArray
  | comma
  | colon
  | null
  | bool (value : Bool)
  | integer (value : Int)
  | inexact
  | text (pieces : List Piece)
  deriving DecidableEq, Inhabited

/-- The pieces that a byte of a text is written in: a control character without a short escape
is written by its number. -/
def Piece.ofByte (byte : UInt8) : Piece :=
  if byte < 0x20 && !([0x08, 0x09, 0x0A, 0x0C, 0x0D].contains byte) then .unit byte.toUInt16
  else .byte byte

def pieces (text : String) : List Piece := (Utf8.encode text).map Piece.ofByte

/-- The bytes that pieces spell, after those in `done` (newest first). -/
def spellOnto (done : List UInt8) : List Piece → Option (List UInt8)
  | [] => some done.reverse
  | .byte value :: rest => spellOnto (value :: done) rest
  | .unit value :: rest =>
    if Utf16.isHigh value then
      match rest with
      | .unit next :: rest =>
        if Utf16.isLow next then
          spellOnto ((String.utf8EncodeChar (Utf16.paired value next)).reverse ++ done) rest
        else none
      | _ => none
    else if Utf16.isLow value then none
    else spellOnto ((String.utf8EncodeChar (Char.ofNat value.toNat)).reverse ++ done) rest

/-- The text that pieces spell; `none` if a surrogate stands alone or the bytes are no UTF-8. -/
def spelled? (pieces : List Piece) : Option String := do
  match Utf8.decode (← spellOnto [] pieces) with
  | .ok text => some text
  | .error _ => none

def ascii (text : String) : List UInt8 := text.toList.map fun char => UInt8.ofNat char.toNat

def Piece.render : Piece → List UInt8
  | .byte value =>
    if value = 0x22 then ascii "\\\""
    else if value = 0x5C then ascii "\\\\"
    else if value = 0x08 then ascii "\\b"
    else if value = 0x09 then ascii "\\t"
    else if value = 0x0A then ascii "\\n"
    else if value = 0x0C then ascii "\\f"
    else if value = 0x0D then ascii "\\r"
    else [value]
  | .unit value =>
    let digits := Nat.toDigits 16 value.toNat
    ascii "\\u" ++ ascii (String.ofList (List.replicate (4 - digits.length) '0' ++ digits))

def Lexeme.render : Lexeme → List UInt8
  | .openObject => [0x7B]
  | .closeObject => [0x7D]
  | .openArray => [0x5B]
  | .closeArray => [0x5D]
  | .comma => [0x2C]
  | .colon => [0x3A]
  | .null => ascii "null"
  | .bool true => ascii "true"
  | .bool false => ascii "false"
  | .integer value => ascii (toString value)
  | .inexact => ascii "-0"
  | .text pieces => 0x22 :: pieces.flatMap Piece.render ++ [0x22]

def render (lexemes : List Lexeme) : List UInt8 := lexemes.flatMap Lexeme.render

/-- How far a number has been read. -/
inductive NumberPhase where
  | minus
  | zero
  | digits
  | point
  | fraction
  | exponent
  | exponentSign
  | exponentDigits
  deriving DecidableEq, Inhabited

/-- Where reading stands between two bytes.  The pieces of a text are newest first; the number of a
unit still wants `left` digits, and a word the bytes `left`. -/
inductive Place where
  | outside
  | text (read : List Piece)
  | escape (read : List Piece)
  | unit (read : List Piece) (left value : Nat)
  | number (phase : NumberPhase) (negative : Bool) (value : Nat)
  | word (left : List UInt8) (lexeme : Lexeme)
  deriving DecidableEq, Inhabited

/-- A reader of lexemes: those read so far, newest first, and the place it stands at. -/
structure Lexer where
  done : List Lexeme
  place : Place
  deriving DecidableEq, Inhabited

def digit? (byte : UInt8) : Option Nat :=
  if 0x30 ≤ byte && byte ≤ 0x39 then some (byte.toNat - 0x30) else none

def hexDigit? (byte : UInt8) : Option Nat :=
  if 0x30 ≤ byte && byte ≤ 0x39 then some (byte.toNat - 0x30)
  else if 0x61 ≤ byte && byte ≤ 0x66 then some (byte.toNat - 0x57)
  else if 0x41 ≤ byte && byte ≤ 0x46 then some (byte.toNat - 0x37)
  else none

def escape? (byte : UInt8) : Option UInt8 :=
  if byte = 0x22 || byte = 0x5C || byte = 0x2F then some byte
  else if byte = 0x62 then some 0x08
  else if byte = 0x66 then some 0x0C
  else if byte = 0x6E then some 0x0A
  else if byte = 0x72 then some 0x0D
  else if byte = 0x74 then some 0x09
  else none

/-- Where a number stands after one more byte; `none` if the byte does not belong to it. -/
def NumberPhase.next? (phase : NumberPhase) (byte : UInt8) : Option NumberPhase :=
  let isDigit := (digit? byte).isSome
  let isMark := byte = 0x65 || byte = 0x45
  match phase with
  | .minus => if byte = 0x30 then some .zero else if isDigit then some .digits else none
  | .zero => if byte = 0x2E then some .point else if isMark then some .exponent else none
  | .digits =>
    if isDigit then some .digits
    else if byte = 0x2E then some .point
    else if isMark then some .exponent
    else none
  | .point => if isDigit then some .fraction else none
  | .fraction => if isDigit then some .fraction else if isMark then some .exponent else none
  | .exponent =>
    if isDigit then some .exponentDigits
    else if byte = 0x2B || byte = 0x2D then some .exponentSign
    else none
  | .exponentSign => if isDigit then some .exponentDigits else none
  | .exponentDigits => if isDigit then some .exponentDigits else none

def NumberPhase.lexeme? (phase : NumberPhase) (negative : Bool) (value : Nat) : Option Lexeme :=
  match phase with
  | .zero | .digits =>
    if negative then some (if value = 0 then .inexact else .integer (-(value : Int)))
    else some (.integer value)
  | .fraction | .exponentDigits => some .inexact
  | .minus | .point | .exponent | .exponentSign => none

def Lexer.start (done : List Lexeme) (byte : UInt8) : Option Lexer :=
  if byte = 0x20 || byte = 0x09 || byte = 0x0A || byte = 0x0D then some ⟨done, .outside⟩
  else if byte = 0x7B then some ⟨.openObject :: done, .outside⟩
  else if byte = 0x7D then some ⟨.closeObject :: done, .outside⟩
  else if byte = 0x5B then some ⟨.openArray :: done, .outside⟩
  else if byte = 0x5D then some ⟨.closeArray :: done, .outside⟩
  else if byte = 0x2C then some ⟨.comma :: done, .outside⟩
  else if byte = 0x3A then some ⟨.colon :: done, .outside⟩
  else if byte = 0x22 then some ⟨done, .text []⟩
  else if byte = 0x2D then some ⟨done, .number .minus true 0⟩
  else if byte = 0x74 then some ⟨done, .word (ascii "rue") (.bool true)⟩
  else if byte = 0x66 then some ⟨done, .word (ascii "alse") (.bool false)⟩
  else if byte = 0x6E then some ⟨done, .word (ascii "ull") .null⟩
  else
    match digit? byte with
    | some 0 => some ⟨done, .number .zero false 0⟩
    | some value => some ⟨done, .number .digits false value⟩
    | none => none

/-- Reads one byte. -/
def Lexer.step (lexer : Lexer) (byte : UInt8) : Option Lexer :=
  let done := lexer.done
  match lexer.place with
  | .outside => start done byte
  | .text read =>
    if byte = 0x22 then some ⟨.text read.reverse :: done, .outside⟩
    else if byte = 0x5C then some ⟨done, .escape read⟩
    else if byte < 0x20 then none
    else some ⟨done, .text (.byte byte :: read)⟩
  | .escape read =>
    if byte = 0x75 then some ⟨done, .unit read 4 0⟩
    else (escape? byte).map fun value => ⟨done, .text (.byte value :: read)⟩
  | .unit read left value => do
    let value := value * 16 + (← hexDigit? byte)
    if left ≤ 1 then return ⟨done, .text (.unit (UInt16.ofNat value) :: read)⟩
    else return ⟨done, .unit read (left - 1) value⟩
  | .number phase negative value =>
    match phase.next? byte with
    | some .digits => some ⟨done, .number .digits negative (value * 10 + (digit? byte).getD 0)⟩
    | some next => some ⟨done, .number next negative value⟩
    | none =>
      if phase = .zero && (digit? byte).isSome then none
      else do start ((← phase.lexeme? negative value) :: done) byte
  | .word left lexeme =>
    match left with
    | [] => none
    | wanted :: left =>
      if byte ≠ wanted then none
      else if left.isEmpty then some ⟨lexeme :: done, .outside⟩
      else some ⟨done, .word left lexeme⟩

def Lexer.finish (lexer : Lexer) : Option (List Lexeme) :=
  match lexer.place with
  | .outside => some lexer.done.reverse
  | .number phase negative value => do
    return ((← phase.lexeme? negative value) :: lexer.done).reverse
  | _ => none

/-- The lexemes of a text, or `none` if it holds anything else. -/
def Lexeme.ofBytes? (bytes : List UInt8) : Option (List Lexeme) := do
  (← bytes.foldlM Lexer.step ⟨[], .outside⟩).finish

end TableDriven.Json
