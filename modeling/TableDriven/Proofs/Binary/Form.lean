import TableDriven.Proofs.Binary.Escape
import TableDriven.Proofs.Binary.RunLength
import TableDriven.Proofs.Binary.Text

/-! # Forms

Every form that a value may take in bytes, with its values, its writer and its reader.  They all
agree (`Form.agrees`), so what was stored, value by value, is read back by the readers in the same
order (`read_of_stores`), and no bytes that a reader accepts are fewer than those that are written
of its answer (`write_of_read`).
-/

namespace TableDriven.Binary

/-- The types of fixed width. -/
inductive WordType where
  | bool
  | u8
  | u16
  | u32
  | u64
  | i8
  | i16
  | i32
  | i64
  | single
  | double
  deriving DecidableEq, Inhabited

namespace WordType

def Carrier : WordType → Type
  | bool => Bool
  | u8 => UInt8
  | u16 => UInt16
  | u32 => UInt32
  | u64 => UInt64
  | i8 => Int8
  | i16 => Int16
  | i32 => Int32
  | i64 => Int64
  | single => Single
  | double => Double

instance : (type : WordType) → Word type.Carrier
  | bool => inferInstanceAs (Word Bool)
  | u8 => inferInstanceAs (Word UInt8)
  | u16 => inferInstanceAs (Word UInt16)
  | u32 => inferInstanceAs (Word UInt32)
  | u64 => inferInstanceAs (Word UInt64)
  | i8 => inferInstanceAs (Word Int8)
  | i16 => inferInstanceAs (Word Int16)
  | i32 => inferInstanceAs (Word Int32)
  | i64 => inferInstanceAs (Word Int64)
  | single => inferInstanceAs (Word Single)
  | double => inferInstanceAs (Word Double)

instance : (type : WordType) → LawfulWord type.Carrier
  | bool => inferInstanceAs (LawfulWord Bool)
  | u8 => inferInstanceAs (LawfulWord UInt8)
  | u16 => inferInstanceAs (LawfulWord UInt16)
  | u32 => inferInstanceAs (LawfulWord UInt32)
  | u64 => inferInstanceAs (LawfulWord UInt64)
  | i8 => inferInstanceAs (LawfulWord Int8)
  | i16 => inferInstanceAs (LawfulWord Int16)
  | i32 => inferInstanceAs (LawfulWord Int32)
  | i64 => inferInstanceAs (LawfulWord Int64)
  | single => inferInstanceAs (LawfulWord Single)
  | double => inferInstanceAs (LawfulWord Double)

/-- Truth values alone are spelled in several ways. -/
theorem isFull {type : WordType} (number : type ≠ bool) : Word.IsFull type.Carrier := by
  cases type with
  | bool => exact absurd rfl number
  | u8 => exact Word.isFull_u8
  | u16 => exact Word.isFull_u16
  | u32 => exact Word.isFull_u32
  | u64 => exact Word.isFull_u64
  | i8 => exact Word.isFull_i8
  | i16 => exact Word.isFull_i16
  | i32 => exact Word.isFull_i32
  | i64 => exact Word.isFull_i64
  | single => exact Word.isFull_single
  | double => exact Word.isFull_double

end WordType

/-! ## The forms -/

/-- The forms that a value may take in bytes. -/
inductive Form where
  | word (type : WordType)
  | bytes (size : Nat)
  | count (what : String)
  | length
  | requiredLength (what : String)
  | array (type : WordType)
  | array2d (type : WordType)
  | utf
  | byteString
  | charString
  | strings
  | bools
  | smalls
  | shorts
  | signedShorts
  | bools2d
  | smalls2d
  | shorts2d
  deriving DecidableEq, Inhabited

namespace Form

/-- The values of a form. -/
def Value : Form → Type
  | word type => type.Carrier
  | bytes size => { bytes : Bytes // bytes.length = size }
  | count _ => Nat
  | length => Option Nat
  | requiredLength _ => Nat
  | array type => Option (Array type.Carrier)
  | array2d type => Option (Array (Array type.Carrier))
  | utf => String
  | byteString => Option String
  | charString => Option String
  | strings => Option (Array String)
  | bools => Option (Array Bool)
  | smalls => Option (Array Int8)
  | shorts => Option (Array UInt16)
  | signedShorts => Option (Array Int16)
  | bools2d => Option (Array (Array Bool))
  | smalls2d => Option (Array (Array Int8))
  | shorts2d => Option (Array (Array UInt16))

def write : (form : Form) → form.Value → Encoding
  | word type => (Word.write : type.Carrier → Encoding)
  | bytes _ => fun bytes => ⟨bytes.val, none⟩
  | count _ => writeCount
  | length => writeLength
  | requiredLength _ => fun length => writeLength (some length)
  | array _ => writeArray
  | array2d _ => writeArray2d
  | utf => writeUtf
  | byteString => writeByteString
  | charString => writeCharString
  | strings => writeStrings
  | bools => writeBools
  | smalls => writeSmalls
  | shorts => writeShorts
  | signedShorts => writeSignedShorts
  | bools2d => writeBools2d
  | smalls2d => writeSmalls2d
  | shorts2d => writeShorts2d

def readBytes (size : Nat) : Decoder { bytes : Bytes // bytes.length = size } := fun input =>
  match taken : Decoder.bytes size input with
  | .ok front rest => .ok ⟨front, (bytes_eq_ok_iff.mp taken).2⟩ rest
  | .error cause rest => .error cause rest

def read : (form : Form) → Decoder form.Value
  | word type => Word.read type.Carrier
  | bytes size => readBytes size
  | count what => readCount what
  | length => readLength
  | requiredLength what => readRequiredLength what
  | array type => readArray type.Carrier
  | array2d type => readArray2d type.Carrier
  | utf => readUtf
  | byteString => readByteString
  | charString => readCharString
  | strings => readStrings
  | bools => readBools
  | smalls => readSmalls
  | shorts => readShorts
  | signedShorts => readSignedShorts
  | bools2d => readBools2d
  | smalls2d => readSmalls2d
  | shorts2d => readShorts2d

/-- Whether no value of the form is spelled in several ways: any byte but zero reads as true, and an
array may be cut into runs as one likes. -/
def isExact : Form → Bool
  | word type | array type | array2d type => type != .bool
  | bytes _ | count _ | length | requiredLength _ => true
  | utf | byteString | charString | strings => true
  | bools | smalls | shorts | signedShorts | bools2d | smalls2d | shorts2d => false

theorem readBytes_of_ok {size : Nat} {input front rest : Bytes}
    (taken : Decoder.bytes size input = .ok front rest) :
    readBytes size input = .ok ⟨front, (bytes_eq_ok_iff.mp taken).2⟩ rest := by
  rw [readBytes]
  split
  next found behind same =>
    cases taken.symm.trans same
    rfl
  next cause behind failed => cases taken.symm.trans failed

theorem readBytes_of_error {size : Nat} {input rest : Bytes} {cause : CodecFault}
    (failed : Decoder.bytes size input = .error cause rest) :
    readBytes size input = .error cause rest := by
  rw [readBytes]
  split
  next front behind taken => cases failed.symm.trans taken
  next other behind same =>
    cases failed.symm.trans same
    rfl

theorem agrees_bytes (size : Nat) :
    Agrees True (fun raw : { bytes : Bytes // bytes.length = size } => ⟨raw.val, none⟩)
      (readBytes size) := by
  constructor
  · rintro ⟨raw, rfl⟩
    have taken := takes_bytes raw
    constructor
    · intro written same behind
      cases same
      exact readBytes_of_ok (taken.whole raw rfl behind)
    · intro written same cut short
      obtain ⟨rest, failed⟩ := taken.cut written same cut short
      exact ⟨rest, readBytes_of_error failed⟩
  · intro input value rest accepted
    cases taken : Decoder.bytes size input with
    | ok front behind =>
      rw [readBytes_of_ok taken] at accepted
      cases accepted
      exact .of_eq (bytes_eq_ok_iff.mp taken).1
    | error cause behind =>
      rw [readBytes_of_error taken] at accepted
      cases accepted

theorem isFull_of_isExact {type : WordType} (exact : (type != .bool) = true) :
    Word.IsFull type.Carrier := WordType.isFull (bne_iff_ne.mp exact)

theorem agrees (form : Form) : Agrees (form.isExact = true) form.write form.read := by
  cases form with
  | word type => exact (agrees_word type.Carrier).mono isFull_of_isExact
  | bytes size => exact (agrees_bytes size).mono fun _ => trivial
  | count what => exact (agrees_count what).mono fun _ => trivial
  | length => exact agrees_length.mono fun _ => trivial
  | requiredLength what => exact (agrees_requiredLength what).mono fun _ => trivial
  | array type => exact (agrees_array type.Carrier).mono isFull_of_isExact
  | array2d type => exact (agrees_array2d type.Carrier).mono isFull_of_isExact
  | utf => exact agrees_utf.mono fun _ => trivial
  | byteString => exact agrees_byteString.mono fun _ => trivial
  | charString => exact agrees_charString.mono fun _ => trivial
  | strings => exact agrees_strings.mono fun _ => trivial
  | bools => exact agrees_bools.mono Bool.false_ne_true
  | smalls => exact agrees_smalls.mono Bool.false_ne_true
  | shorts => exact agrees_shorts.mono Bool.false_ne_true
  | signedShorts => exact agrees_signedShorts.mono Bool.false_ne_true
  | bools2d => exact agrees_bools2d.mono Bool.false_ne_true
  | smalls2d => exact agrees_smalls2d.mono Bool.false_ne_true
  | shorts2d => exact agrees_shorts2d.mono Bool.false_ne_true

end Form

/-- Of whatever a reader answers, its form writes no more bytes than the reader consumed, the same
bytes unless the form is one of runs or of truth values, and they are read as that answer again. -/
theorem write_of_read {form : Form} {value : form.Value} {input rest : Bytes}
    (accepted : form.read input = .ok value rest) :
    ∃ used written, input = used ++ rest ∧ (form.write value).toExcept = .ok written ∧
      written.length ≤ used.length ∧ (form.isExact = true → written = used) ∧
      ∀ behind, form.read (written ++ behind) = .ok value behind := by
  obtain ⟨used, written, split, same, length, exact⟩ :=
    form.agrees.spelled input value rest accepted
  exact ⟨used, written, split, same, length, exact,
    (form.agrees.takes value).whole written same⟩

/-- A length of three and three times one value: an escaped record that need not be one, and two
bare values that would have fitted into it. -/
def loose : Bytes := [0, 3, 0x81, 0x00, 0x12, 0x34, 0x12, 0x34, 0x12, 0x34]

theorem write_of_read_loose :
    Form.shorts.read (loose ++ [0xFF]) = .ok (some #[0x1234, 0x1234, 0x1234]) [0xFF] ∧
      ∃ used written, loose ++ [0xFF] = used ++ [0xFF] ∧
        (writeShorts (some #[0x1234, 0x1234, 0x1234])).toExcept = .ok written ∧
        written.length ≤ used.length ∧
        ∀ behind, readShorts (written ++ behind) =
          .ok (some #[0x1234, 0x1234, 0x1234]) behind := by
  have accepted : Form.shorts.read (loose ++ [0xFF]) =
    .ok (some #[0x1234, 0x1234, 0x1234]) [0xFF] := rfl
  obtain ⟨used, written, split, same, length, -, again⟩ := write_of_read accepted
  exact ⟨accepted, used, written, split, same, length, again⟩

/-- A value and its form. -/
structure Item where
  form : Form
  value : form.Value

/-- The sink took the items one behind the other, each of them in full. -/
inductive Stores : Sink → List Item → Sink → Prop where
  | done (sink : Sink) : Stores sink [] sink
  | step {sink middle after : Sink} {item : Item} {items : List Item} :
    sink.absorb (item.form.write item.value) = (none, middle) → Stores middle items after →
      Stores sink (item :: items) after

/-- Reads values of the given forms one behind the other. -/
def readItems : List Form → Decoder (List Item)
  | [] => pure []
  | form :: forms => do
    let value ← form.read
    let items ← readItems forms
    return ⟨form, value⟩ :: items

theorem takes_items (items : List Item) :
    Takes (readItems (items.map Item.form))
      (.concat (items.map fun item => item.form.write item.value)) (pure items) := by
  induction items with
  | nil => exact .nothing
  | cons item items ih => exact (item.form.agrees.takes item.value).bind (ih.bind_next rfl)

theorem absorb_eq_none {sink after : Sink} {encoding : Encoding}
    (absorbed : sink.absorb encoding = (none, after)) :
    ∃ bytes, encoding.toExcept = .ok bytes ∧ after.stored = sink.stored ++ bytes := by
  rw [Sink.absorb] at absorbed
  split at absorbed
  next =>
    obtain ⟨bytes, refusal⟩ := encoding
    cases absorbed
    exact ⟨bytes, rfl, rfl⟩
  next => cases absorbed

theorem Stores.written {sink after : Sink} {items : List Item} (stores : Stores sink items after) :
    ∃ bytes, (Encoding.concat (items.map fun item => item.form.write item.value)).toExcept =
      .ok bytes ∧ after.stored = sink.stored ++ bytes := by
  induction stores with
  | done sink => exact ⟨[], rfl, (List.append_nil _).symm⟩
  | step absorbed _ ih =>
    obtain ⟨front, same, stored⟩ := absorb_eq_none absorbed
    obtain ⟨back, follows, more⟩ := ih
    refine ⟨front ++ back, Encoding.toExcept_append_eq_ok_iff.mpr ⟨_, _, same, follows, rfl⟩, ?_⟩
    rw [more, stored, List.append_assoc]

/-- Items that were stored one behind the other are what the readers of their forms answer, and
these consume exactly the bytes that were stored. -/
theorem read_of_stores {sink after : Sink} {items : List Item} (stores : Stores sink items after) :
    ∃ bytes, after.stored = sink.stored ++ bytes ∧
      ∀ behind, readItems (items.map Item.form) (bytes ++ behind) = .ok items behind := by
  obtain ⟨bytes, written, stored⟩ := stores.written
  exact ⟨bytes, stored, (takes_items items).whole bytes written⟩

/-- Values of several forms, a null and an empty text among them, and runs that collide with the
escape. -/
def various : List Item :=
  [⟨.shorts, some #[0x8100, 0x8100, 0x1234, 0x8101]⟩, ⟨.byteString, none⟩, ⟨.byteString, some ""⟩,
    ⟨.charString, some "𝄞"⟩, ⟨.bools2d, some #[#[true, true], #[]]⟩, ⟨.length, some 0x8000⟩]

theorem read_of_stores_various :
    ∃ after, Stores (.empty none) various after ∧ ∃ bytes, after.stored = bytes ∧
      ∀ behind, readItems (various.map Item.form) (bytes ++ behind) = .ok various behind := by
  have stores : Stores (.empty none) various
      ⟨various.flatMap fun item => (item.form.write item.value).bytes, none⟩ :=
    .step rfl (.step rfl (.step rfl (.step rfl (.step rfl (.step rfl (.done _))))))
  obtain ⟨bytes, stored, reads⟩ := read_of_stores stores
  exact ⟨_, stores, bytes, stored, reads⟩

end TableDriven.Binary
