import TableDriven.Binary.Length
import TableDriven.Proofs.Binary.Word

/-! # Lengths, counts and what stands behind a length

A length has one spelling: the long form is refused where the short one will do, and no long form
reads as a null.  So has a count.  A value behind its length agrees with its reader if its content
does, given the length (`Contents`).
-/

namespace TableDriven.Binary

/-- The length that two numbers spell, the first of them with the top bit set. -/
def longLength (head low : UInt16) : Nat := (head.toNat - 0x8000) * 0x10000 + low.toNat

theorem exists_longLength {length : Nat} (fits : length ≤ longLengthMax) :
    ∃ head low : UInt16, 0x8000 ≤ head.toNat ∧ head ≠ 0xFFFF ∧ length = longLength head low := by
  rw [longLengthMax] at fits
  have high : (UInt16.ofNat (0x8000 + length / 0x10000)).toNat = 0x8000 + length / 0x10000 :=
    UInt16.toNat_ofNat_of_lt' (by change _ < 65536; omega)
  have low : (UInt16.ofNat (length % 0x10000)).toNat = length % 0x10000 :=
    UInt16.toNat_ofNat_of_lt' (by change _ < 65536; omega)
  refine ⟨UInt16.ofNat (0x8000 + length / 0x10000), UInt16.ofNat (length % 0x10000),
    by rw [high]; omega, fun null => ?_, by rw [longLength, high, low]; omega⟩
  have equal : _ = 65535 := congrArg UInt16.toNat null
  omega

theorem longLength_le {head low : UInt16} (notNull : head ≠ 0xFFFF) :
    longLength head low ≤ longLengthMax := by
  have top : head.toNat ≠ 65535 := fun null => notNull (UInt16.toNat_inj.mp null)
  have high := head.toNat_lt
  have rest := low.toNat_lt
  rw [longLength, longLengthMax]
  omega

theorem write_longLength {head low : UInt16} (long : 0x8000 ≤ head.toNat) :
    Word.write (UInt32.ofNat (0x80000000 + longLength head low)) =
      Word.write head ++ Word.write low := by
  have above := head.toNat_lt
  have below := low.toNat_lt
  have number : (UInt32.ofNat (0x80000000 + longLength head low)).toNat =
      head.toNat * 0x10000 + low.toNat := by
    rw [longLength, UInt32.toNat_ofNat_of_lt' (by change _ < 4294967296; omega)]
    omega
  have same {left right : Nat} (equal : left % 256 = right % 256) :
      UInt8.ofNat left = UInt8.ofNat right := by
    apply UInt8.toNat_inj.mp
    rwa [UInt8.toNat_ofNat', UInt8.toNat_ofNat']
  simp only [Word.write, ← Encoding.mk_append]
  refine congrArg (Encoding.mk · none) ?_
  change bigEndian 4 (UInt32.ofNat _).toNat = bigEndian 2 head.toNat ++ bigEndian 2 low.toNat
  rw [number]
  simp only [bigEndian, List.nil_append, List.cons_append, List.cons.injEq, and_true]
  refine ⟨same ?_, same ?_, same ?_, same ?_⟩ <;> omega

/-- What reading goes on with behind the first number of a length. -/
def lengthFrom (head : UInt16) : Decoder (Option Nat) :=
  if head = 0xFFFF then return none
  else if head < 0x8000 then return some head.toNat
  else do
    let low ← Word.read UInt16
    if longLength head low ≤ shortLengthMax then
      throw (.corrupt (.longForm (longLength head low)))
    return some (longLength head low)

theorem lengthFrom_short {head : UInt16} (short : head.toNat ≤ shortLengthMax) :
    lengthFrom head = pure (some head.toNat) := by
  rw [shortLengthMax] at short
  have notNull : head ≠ 0xFFFF := by
    rintro rfl
    exact absurd short (by decide)
  have below : head < 0x8000 := UInt16.lt_iff_toNat_lt.mpr (Nat.lt_succ_of_le short)
  rw [lengthFrom, if_neg notNull, if_pos below]

theorem lengthFrom_long {head : UInt16} (notNull : head ≠ 0xFFFF) (long : 0x8000 ≤ head.toNat) :
    lengthFrom head = Word.read UInt16 >>= fun low =>
      if longLength head low ≤ shortLengthMax then
        throw (.corrupt (.longForm (longLength head low)))
      else pure (some (longLength head low)) := by
  have above : ¬head < 0x8000 := by
    rw [UInt16.lt_iff_toNat_lt]
    exact Nat.not_lt_of_le long
  rw [lengthFrom, if_neg notNull, if_neg above]
  refine congrArg (Word.read UInt16 >>= ·) (funext fun low => ?_)
  split <;> rfl

theorem takes_length (length : Option Nat) :
    Takes readLength (writeLength length) (pure length) := by
  have words := (agrees_word UInt16).takes
  cases length with
  | none => exact (words 0xFFFF).bind_next rfl
  | some length =>
    rw [writeLength]
    split
    next short =>
      have number : (UInt16.ofNat length).toNat = length :=
        UInt16.toNat_ofNat_of_lt' (Nat.lt_of_le_of_lt short (by decide))
      refine (words (UInt16.ofNat length)).bind_next ?_
      change lengthFrom _ = _
      rw [lengthFrom_short (by rwa [number]), number]
    next long =>
      split
      next fits =>
        obtain ⟨head, low, above, notNull, rfl⟩ := exists_longLength fits
        rw [write_longLength above]
        exact ((words head).bind_next (lengthFrom_long notNull above)).trans
          ((words low).bind_next (if_neg long))
      next => exact .refused

theorem spelled_length {input rest : Bytes} {length : Option Nat}
    (read : readLength input = .ok length rest) : Spelled True input (writeLength length) rest := by
  have words := ((agrees_word UInt16).mono fun _ : True => Word.isFull_u16).spelled
  obtain ⟨head, middle, first, answered⟩ := bind_apply_eq_ok_iff.mp read
  have front := words _ _ _ first
  change lengthFrom head middle = _ at answered
  by_cases null : head = 0xFFFF
  · subst null
    cases answered
    exact front
  by_cases short : head.toNat ≤ shortLengthMax
  · rw [lengthFrom_short short] at answered
    cases answered
    rw [writeLength, if_pos short, UInt16.ofNat_toNat]
    exact front
  · have long : 0x8000 ≤ head.toNat := Nat.lt_of_not_le short
    rw [lengthFrom_long null long] at answered
    obtain ⟨low, behind, second, answered⟩ := bind_apply_eq_ok_iff.mp answered
    split at answered
    next => cases answered
    next exceeds =>
      cases answered
      rw [writeLength, if_neg exceeds, if_pos (longLength_le null), write_longLength long]
      exact front.append (words _ _ _ second)

theorem agrees_length : Agrees True writeLength readLength :=
  ⟨takes_length, fun _ _ _ => spelled_length⟩

theorem agrees_requiredLength (what : String) :
    Agrees True (fun length => writeLength (some length)) (readRequiredLength what) :=
  agrees_length.unwrap (fun _ => rfl) rfl

theorem writeCount_eq_ok {count : Nat} {bytes : Bytes}
    (written : (writeCount count).toExcept = .ok bytes) : count ≤ countMax := by
  rw [writeCount] at written
  split at written
  · assumption
  · cases written

theorem agrees_count (what : String) : Agrees True writeCount (readCount what) := by
  have words := (agrees_word Int32).mono fun _ : True => Word.isFull_i32
  constructor
  · intro count
    rw [writeCount]
    split
    next fits =>
      have number : (Int32.ofNat count).toInt = count :=
        Int32.toInt_ofNat_of_lt (Nat.lt_succ_of_le fits)
      refine (words.takes (Int32.ofNat count)).bind_next ?_
      change (if (Int32.ofNat count).toInt < 0 then _ else _) = _
      rw [number, if_neg (by omega)]
      rfl
    next => exact .refused
  · intro input count rest accepted
    obtain ⟨value, middle, read, answered⟩ := bind_apply_eq_ok_iff.mp accepted
    have front := words.spelled _ _ _ read
    change (if value.toInt < 0 then _ else _ : Decoder Nat) middle = _ at answered
    split at answered
    next => cases answered
    next notNegative =>
      cases answered
      have same : Int32.ofNat value.toInt.toNat = value := by
        rw [← Int32.ofInt_eq_ofNat, Int.toNat_of_nonneg (by omega), Int32.ofInt_toInt]
      have fits : value.toInt.toNat ≤ countMax := by
        have below := value.toInt_lt
        rw [countMax]
        omega
      rw [writeCount, if_pos fits, same]
      exact front

section
variable {α β : Type} {size : α → Nat} {content : α → Encoding} {read : Nat → Decoder β}
  {input rest : Bytes}

theorem takes_null (size : α → Nat) (content : α → Encoding) (read : Nat → Decoder β) :
    Takes (readMeasured read) (writeMeasured size content none) (pure none) :=
  ((takes_length none).bind_next rfl).trans .nothing

theorem takes_measured {value : α} {result : β}
    (taken : Takes (read (size value)) (content value) (pure result)) :
    Takes (readMeasured read) (writeMeasured size content (some value)) (pure (some result)) :=
  ((takes_length (some (size value))).bind_next rfl).trans (taken.bind_next rfl)

/-- What is read behind a length is a null, or content of that length. -/
theorem measured_cases {result : Option β} (accepted : readMeasured read input = .ok result rest) :
    (result = none ∧ Spelled True input (writeLength none) rest) ∨
      ∃ length middle value, result = some value ∧
        Spelled True input (writeLength (some length)) middle ∧
        read length middle = .ok value rest := by
  obtain ⟨length, middle, took, answered⟩ := bind_apply_eq_ok_iff.mp accepted
  have front := spelled_length took
  cases length with
  | none =>
    cases answered
    exact .inl ⟨rfl, front⟩
  | some length =>
    obtain ⟨value, behind, found, answered⟩ := bind_apply_eq_ok_iff.mp answered
    cases answered
    exact .inr ⟨length, middle, value, rfl, front, found⟩

end

section
variable {α : Type} {sole : Prop} {size : α → Nat} {write : α → Encoding} {read : Nat → Decoder α}

/-- Content agrees with a reader that is told its length, and has that length. -/
structure Contents (sole : Prop) (size : α → Nat) (write : α → Encoding)
    (read : Nat → Decoder α) : Prop where
  takes : ∀ value, Takes (read (size value)) (write value) (pure value)
  spelled : ∀ length input value rest, read length input = .ok value rest →
    size value = length ∧ Spelled sole input (write value) rest

theorem Contents.measured (contents : Contents sole size write read) :
    Agrees sole (writeMeasured size write) (readMeasured read) := by
  constructor
  · intro value
    cases value with
    | none => exact takes_null size write read
    | some value => exact takes_measured (contents.takes value)
  · intro input result rest accepted
    obtain ⟨rfl, null⟩ | ⟨length, middle, value, rfl, front, found⟩ := measured_cases accepted
    · exact (null.mono fun _ => trivial).append .nothing
    · obtain ⟨rfl, back⟩ := contents.spelled length middle value rest found
      exact (front.mono fun _ => trivial).append back

/-- Content behind a length that must not be null. -/
theorem Contents.required (contents : Contents sole size write read) (what : String) :
    Agrees sole (fun value => writeMeasured size write (some value))
      (readRequiredLength what >>= read) := by
  have lengths := agrees_requiredLength what
  constructor
  · intro value
    exact (lengths.takes (size value)).bind (contents.takes value)
  · intro input value rest accepted
    obtain ⟨length, middle, took, found⟩ := bind_apply_eq_ok_iff.mp accepted
    obtain ⟨rfl, back⟩ := contents.spelled length middle value rest found
    exact ((lengths.spelled _ _ _ took).mono fun _ => trivial).append back

end

end TableDriven.Binary
