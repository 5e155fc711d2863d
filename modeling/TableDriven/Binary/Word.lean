import TableDriven.Binary.Basic

/-! # Fixed-width values

Every number has a width and stands most significant byte first.  Floating-point numbers are
taken by their bits, so that no payload of a NaN is lost.
-/

namespace TableDriven.Binary

/-- The lowest `width` bytes of a number, most significant first. -/
def bigEndian : Nat → Nat → Bytes
  | 0, _ => []
  | width + 1, value => bigEndian width (value / 256) ++ [UInt8.ofNat value]

def ofBigEndian (bytes : Bytes) : Nat :=
  bytes.foldl (fun value byte => value * 256 + byte.toNat) 0

@[simp] theorem length_bigEndian (width value : Nat) : (bigEndian width value).length = width := by
  induction width generalizing value with
  | zero => rfl
  | succ width ih => simp [bigEndian, ih]

/-- A single-precision number, by its bits. -/
structure Single where
  bits : UInt32
  deriving DecidableEq, Inhabited

/-- A double-precision number, by its bits. -/
structure Double where
  bits : UInt64
  deriving DecidableEq, Inhabited

/-- A type whose values all take the same number of bytes, and the numbers that stand for them. -/
class Word (α : Type) where
  width : Nat
  toBits : α → Nat
  ofBits : Nat → α

instance : Word Bool := ⟨1, fun flag => flag.toNat, fun bits => bits != 0⟩
instance : Word UInt8 := ⟨1, UInt8.toNat, UInt8.ofNat⟩
instance : Word UInt16 := ⟨2, UInt16.toNat, UInt16.ofNat⟩
instance : Word UInt32 := ⟨4, UInt32.toNat, UInt32.ofNat⟩
instance : Word UInt64 := ⟨8, UInt64.toNat, UInt64.ofNat⟩
instance : Word Int8 := ⟨1, fun value => value.toUInt8.toNat, fun bits => (UInt8.ofNat bits).toInt8⟩
instance : Word Int16 :=
  ⟨2, fun value => value.toUInt16.toNat, fun bits => (UInt16.ofNat bits).toInt16⟩
instance : Word Int32 :=
  ⟨4, fun value => value.toUInt32.toNat, fun bits => (UInt32.ofNat bits).toInt32⟩
instance : Word Int64 :=
  ⟨8, fun value => value.toUInt64.toNat, fun bits => (UInt64.ofNat bits).toInt64⟩
instance : Word Single := ⟨4, fun value => value.bits.toNat, fun bits => ⟨UInt32.ofNat bits⟩⟩
instance : Word Double := ⟨8, fun value => value.bits.toNat, fun bits => ⟨UInt64.ofNat bits⟩⟩

namespace Word

def encode [Word α] (value : α) : Bytes := bigEndian (width α) (toBits value)

/-- The value that bytes of its width spell. -/
def decode [Word α] (bytes : Bytes) : α := ofBits (ofBigEndian bytes)

def write [Word α] (value : α) : Encoding := ⟨encode value, none⟩

def read (α : Type) [Word α] : Decoder α := do
  return decode (← Decoder.bytes (width α))

end Word

end TableDriven.Binary
