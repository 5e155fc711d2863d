import TableDriven.Input.Basic
import TableDriven.Input.Reader

/-! # Byte input

The bytes of a reader, as they come.
-/

namespace TableDriven

/-- Bytes straight from a reader, until it is closed. -/
structure ByteSource (ρ : Type) where
  reader : Option ρ
  deriving Inhabited

namespace ByteSource

def fill [Reader ρ] (fuel : Nat) (source : ByteSource ρ) (room : Nat) :
    Run (Delivery (ByteSource ρ) UInt8 ε) :=
  match source.reader with
  | none => .ok (.silent (.ok .eof) source)
  | some reader =>
    if room = 0 then .ok (.silent (.ok (.tooSmall 1)) source)
    else do
      match ← Reader.insist fuel reader room with
      | (.data [], reader) => return .silent (.ok .eof) ⟨some reader⟩
      | (.data bytes, reader) => return .exactly bytes ⟨some reader⟩
      | (.failed cause, reader) => return .silent (.error cause) ⟨some reader⟩
      | (.interrupted, _) => throw .fuel

instance [Reader ρ] : UnitSource (ByteSource ρ) UInt8 ε where
  fill := fill
  close _ := (⟨none⟩, [])

end ByteSource

end TableDriven
