import TableDriven.Binary.Word
import TableDriven.Proofs.Binary.Reading

/-! # Values of fixed width

A number that fits its width is the number that its bytes spell, and bytes are those of the number
that they spell, so every type of fixed width agrees with its bytes (`agrees_word`).  Its bytes are
the only ones if every number of the width stands for a value of its own: of the types here, truth
values alone are spelled in several ways.
-/

namespace TableDriven.Binary

/-- How many numbers have that many bytes. -/
def places : Nat → Nat
  | 0 => 1
  | width + 1 => places width * 256

theorem ofBigEndian_concat (bytes : Bytes) (byte : UInt8) :
    ofBigEndian (bytes ++ [byte]) = ofBigEndian bytes * 256 + byte.toNat := by
  simp [ofBigEndian]

theorem ofBigEndian_bigEndian {width value : Nat} (fits : value < places width) :
    ofBigEndian (bigEndian width value) = value := by
  induction width generalizing value with
  | zero =>
    rw [places] at fits
    simp [bigEndian, ofBigEndian]
    omega
  | succ width ih =>
    have high : value / 256 < places width :=
      Nat.div_lt_of_lt_mul (by rwa [Nat.mul_comm])
    rw [bigEndian, ofBigEndian_concat, ih high, UInt8.toNat_ofNat']
    omega

theorem bigEndian_ofBigEndian {width : Nat} {bytes : Bytes} (length : bytes.length = width) :
    bigEndian width (ofBigEndian bytes) = bytes ∧ ofBigEndian bytes < places width := by
  induction width generalizing bytes with
  | zero =>
    obtain rfl := List.length_eq_zero_iff.mp length
    exact ⟨rfl, Nat.one_pos⟩
  | succ width ih =>
    obtain ⟨front, last, rfl⟩ : ∃ front last, bytes = front ++ [last] :=
      ⟨_, _, (List.dropLast_concat_getLast (List.ne_nil_of_length_eq_add_one length)).symm⟩
    have shorter : front.length = width := by simpa using length
    obtain ⟨same, fits⟩ := ih shorter
    have byte := last.toNat_lt
    have quotient : (ofBigEndian front * 256 + last.toNat) / 256 = ofBigEndian front := by omega
    have low : UInt8.ofNat (ofBigEndian front * 256 + last.toNat) = last := by
      apply UInt8.toNat_inj.mp
      rw [UInt8.toNat_ofNat']
      omega
    rw [ofBigEndian_concat, bigEndian, quotient, same, low, places]
    exact ⟨rfl, by omega⟩

theorem bytes_eq_ok_iff {count : Nat} {input front rest : Bytes} :
    Decoder.bytes count input = .ok front rest ↔ input = front ++ rest ∧ front.length = count := by
  simp only [Decoder.bytes]
  constructor
  · intro taken
    split at taken
    next whole =>
      cases taken
      exact ⟨(List.take_append_drop count input).symm, whole⟩
    next => cases taken
  · rintro ⟨rfl, rfl⟩
    simp

theorem takes_bytes (bytes : Bytes) :
    Takes (Decoder.bytes bytes.length) ⟨bytes, none⟩ (pure bytes) := by
  constructor
  · intro _ written behind
    rw [Encoding.toExcept_mk] at written
    cases written
    exact bytes_eq_ok_iff.mpr ⟨rfl, rfl⟩
  · intro _ written count short
    rw [Encoding.toExcept_mk] at written
    cases written
    refine ⟨bytes.take count, ?_⟩
    have cut : (bytes.take count).length ≠ bytes.length := by
      rw [List.length_take]
      omega
    rw [Decoder.bytes, List.take_take, Nat.min_eq_right (by omega)]
    exact if_neg cut

/-- Every value of the type is the one that its number stands for. -/
class LawfulWord (α : Type) [Word α] : Prop where
  toBits_lt : ∀ value : α, Word.toBits value < places (Word.width α)
  ofBits_toBits : ∀ value : α, Word.ofBits (Word.toBits value) = value

namespace Word

/-- Every number of the type's width stands for a value of its own. -/
def IsFull (α : Type) [Word α] : Prop :=
  ∀ bits, bits < places (width α) → toBits (ofBits bits : α) = bits

variable {α : Type} [Word α]

@[simp] theorem length_encode (value : α) : (encode value).length = width α :=
  length_bigEndian _ _

theorem decode_encode [LawfulWord α] (value : α) : decode (encode value) = value := by
  rw [decode, encode, ofBigEndian_bigEndian (LawfulWord.toBits_lt value)]
  exact LawfulWord.ofBits_toBits value

theorem encode_decode (full : IsFull α) {bytes : Bytes} (length : bytes.length = width α) :
    encode (decode bytes : α) = bytes := by
  obtain ⟨same, fits⟩ := bigEndian_ofBigEndian length
  rw [encode, decode, full _ fits, same]

end Word

theorem agrees_word (α : Type) [Word α] [LawfulWord α] :
    Agrees (Word.IsFull α) (Word.write : α → Encoding) (Word.read α) := by
  constructor
  · intro value
    have taken := takes_bytes (Word.encode value)
    rw [Word.length_encode] at taken
    exact taken.bind_next (congrArg pure (Word.decode_encode value))
  · intro input value rest accepted
    obtain ⟨bytes, middle, took, answered⟩ := bind_apply_eq_ok_iff.mp accepted
    obtain ⟨rfl, length⟩ := bytes_eq_ok_iff.mp took
    cases answered
    refine ⟨bytes, Word.encode (Word.decode bytes : α), rfl, rfl, ?_, fun full => ?_⟩
    · rw [Word.length_encode]
      exact Nat.le_of_eq length.symm
    · exact Word.encode_decode full length

instance : LawfulWord Bool := ⟨by decide, by decide⟩
instance : LawfulWord UInt8 := ⟨UInt8.toNat_lt, fun _ => UInt8.ofNat_toNat⟩
instance : LawfulWord UInt16 := ⟨UInt16.toNat_lt, fun _ => UInt16.ofNat_toNat⟩
instance : LawfulWord UInt32 := ⟨UInt32.toNat_lt, fun _ => UInt32.ofNat_toNat⟩
instance : LawfulWord UInt64 := ⟨UInt64.toNat_lt, fun _ => UInt64.ofNat_toNat⟩

instance : LawfulWord Int8 where
  toBits_lt value := value.toUInt8.toNat_lt
  ofBits_toBits value := by
    change (UInt8.ofNat value.toUInt8.toNat).toInt8 = value
    rw [UInt8.ofNat_toNat, Int8.toInt8_toUInt8]

instance : LawfulWord Int16 where
  toBits_lt value := value.toUInt16.toNat_lt
  ofBits_toBits value := by
    change (UInt16.ofNat value.toUInt16.toNat).toInt16 = value
    rw [UInt16.ofNat_toNat, Int16.toInt16_toUInt16]

instance : LawfulWord Int32 where
  toBits_lt value := value.toUInt32.toNat_lt
  ofBits_toBits value := by
    change (UInt32.ofNat value.toUInt32.toNat).toInt32 = value
    rw [UInt32.ofNat_toNat, Int32.toInt32_toUInt32]

instance : LawfulWord Int64 where
  toBits_lt value := value.toUInt64.toNat_lt
  ofBits_toBits value := by
    change (UInt64.ofNat value.toUInt64.toNat).toInt64 = value
    rw [UInt64.ofNat_toNat, Int64.toInt64_toUInt64]

instance : LawfulWord Single where
  toBits_lt value := value.bits.toNat_lt
  ofBits_toBits value := congrArg Single.mk (UInt32.ofNat_toNat (x := value.bits))

instance : LawfulWord Double where
  toBits_lt value := value.bits.toNat_lt
  ofBits_toBits value := congrArg Double.mk (UInt64.ofNat_toNat (x := value.bits))

namespace Word

theorem isFull_u8 : IsFull UInt8 := fun _ fits => UInt8.toNat_ofNat_of_lt' fits
theorem isFull_u16 : IsFull UInt16 := fun _ fits => UInt16.toNat_ofNat_of_lt' fits
theorem isFull_u32 : IsFull UInt32 := fun _ fits => UInt32.toNat_ofNat_of_lt' fits
theorem isFull_u64 : IsFull UInt64 := fun _ fits => UInt64.toNat_ofNat_of_lt' fits

theorem isFull_i8 : IsFull Int8 := fun bits fits => by
  change (UInt8.ofNat bits).toInt8.toUInt8.toNat = bits
  rw [UInt8.toUInt8_toInt8, UInt8.toNat_ofNat_of_lt' fits]

theorem isFull_i16 : IsFull Int16 := fun bits fits => by
  change (UInt16.ofNat bits).toInt16.toUInt16.toNat = bits
  rw [UInt16.toUInt16_toInt16, UInt16.toNat_ofNat_of_lt' fits]

theorem isFull_i32 : IsFull Int32 := fun bits fits => by
  change (UInt32.ofNat bits).toInt32.toUInt32.toNat = bits
  rw [UInt32.toUInt32_toInt32, UInt32.toNat_ofNat_of_lt' fits]

theorem isFull_i64 : IsFull Int64 := fun bits fits => by
  change (UInt64.ofNat bits).toInt64.toUInt64.toNat = bits
  rw [UInt64.toUInt64_toInt64, UInt64.toNat_ofNat_of_lt' fits]

theorem isFull_single : IsFull Single := fun _ fits => UInt32.toNat_ofNat_of_lt' fits
theorem isFull_double : IsFull Double := fun _ fits => UInt64.toNat_ofNat_of_lt' fits

end Word

end TableDriven.Binary
