import TableDriven.Input.Basic
import TableDriven.Input.Reader
import TableDriven.Text.Utf8

/-! # Character input

Two sources of characters: a text in memory, and the lines of a UTF-8 reader.  A line is never
split: a buffer that does not hold all of it is refused.
-/

namespace TableDriven

/-- The characters of a text that are still to come. -/
structure TextSource where
  rest : List Char
  deriving Inhabited

namespace TextSource

def ofString (text : String) : TextSource := ⟨text.toList⟩

def fill (source : TextSource) (room : Nat) : Delivery TextSource Char ε :=
  match source.rest with
  | [] => .silent (.ok .eof) source
  | rest =>
    if room = 0 then .silent (.ok (.tooSmall 1)) source
    else .exactly (rest.take room) ⟨rest.drop room⟩

instance : UnitSource TextSource Char ε where
  fill _ source room := .ok (source.fill room)
  close _ := (⟨[]⟩, [])

end TextSource

/-- The lines of a reader.  `held` are bytes that were read behind the last line, and `line` is a
line that no buffer has taken yet. -/
structure LineSource (ρ : Type) where
  reader : Option ρ
  held : List UInt8
  line : List Char
  deriving Inhabited

namespace LineSource

def ofReader (reader : ρ) : LineSource ρ := ⟨some reader, [], []⟩

def readAhead : Nat := 8192

/-- The bytes of the first line of `bytes`, its line break included, and what stands behind it;
`none` if no line ends in them. -/
def cut (bytes : List UInt8) : Option (List UInt8 × List UInt8) :=
  match bytes.dropWhile (· ≠ 0x0A) with
  | [] => none
  | newline :: rest => some (bytes.takeWhile (· ≠ 0x0A) ++ [newline], rest)

/-- The bytes of the next line, what stands behind it, and the reader.  The line begins with
`before` (newest first), and `read` was read behind it.  At the end of input the line is what is
left; a failure loses it. -/
def readLine [Reader ρ] : Nat → ρ → List UInt8 → List UInt8 →
    Run (Except IoFault (List UInt8 × List UInt8) × ρ)
  | 0, _, _, _ => .error .fuel
  | fuel + 1, reader, before, read =>
    match cut read with
    | some (line, held) => .ok (.ok (before.reverse ++ line, held), reader)
    | none => do
      let before := read.reverse ++ before
      match ← Reader.insist fuel reader readAhead with
      | (.data [], reader) => return (.ok (before.reverse, []), reader)
      | (.data bytes, reader) => readLine fuel reader before bytes
      | (.failed cause, reader) => return (.error cause, reader)
      | (.interrupted, _) => throw .fuel

def hand (source : LineSource ρ) (room : Nat) : Delivery (LineSource ρ) Char ε :=
  if room < source.line.length then .silent (.ok (.tooSmall source.line.length)) source
  else .exactly source.line { source with line := [] }

def fill [Reader ρ] (fuel : Nat) (source : LineSource ρ) (room : Nat) :
    Run (Delivery (LineSource ρ) Char ε) :=
  match source.line, source.reader with
  | _ :: _, _ => .ok (source.hand room)
  | [], none => .ok (.silent (.ok .eof) source)
  | [], some reader => do
    match ← readLine fuel reader [] source.held with
    | (.error cause, reader) => return .silent (.error cause) ⟨some reader, [], []⟩
    | (.ok ([], held), reader) => return .silent (.ok .eof) ⟨some reader, held, []⟩
    | (.ok (bytes, held), reader) =>
      match Text.Utf8.decode bytes with
      | .ok line => return hand ⟨some reader, held, line.toList⟩ room
      | .error _ => return .silent (.error .invalidText) ⟨some reader, held, []⟩

instance [Reader ρ] : UnitSource (LineSource ρ) Char ε where
  fill := fill
  close source := ({ source with reader := none, held := [], line := [] }, [])

end LineSource

end TableDriven
