import TableDriven.Text.Utf16

/-! # UTF-16 spells a text in one way

A character is one unit that is no surrogate, or a pair of a high and a low one, and it is the only
character of those units.  So a text is read back from its units, and units that spell a text are
those of that text.
-/

namespace TableDriven.Text.Utf16

theorem toNat_ofNat {number : Nat} (valid : number.isValidChar) :
    (Char.ofNat number).toNat = number := by
  rw [Char.ofNat, dif_pos valid]
  rfl

theorem isHigh_iff {unit : UInt16} :
    isHigh unit = true ↔ 0xD800 ≤ unit.toNat ∧ unit.toNat < 0xDC00 := by
  simp [isHigh, UInt16.le_iff_toNat_le, UInt16.lt_iff_toNat_lt]

theorem isLow_iff {unit : UInt16} :
    isLow unit = true ↔ 0xDC00 ≤ unit.toNat ∧ unit.toNat < 0xE000 := by
  simp [isLow, UInt16.le_iff_toNat_le, UInt16.lt_iff_toNat_lt]

/-- A unit that is no surrogate spells the character of its number. -/
theorem units_single {unit : UInt16} (notHigh : isHigh unit = false) (notLow : isLow unit = false) :
    units (Char.ofNat unit.toNat) = [unit] := by
  have high := mt isHigh_iff.mpr (Bool.eq_false_iff.mp notHigh)
  have low := mt isLow_iff.mpr (Bool.eq_false_iff.mp notLow)
  have below := unit.toNat_lt
  have number : (Char.ofNat unit.toNat).toNat = unit.toNat :=
    toNat_ofNat (by change _ < 0xD800 ∨ 0xDFFF < _ ∧ _ < 0x110000; omega)
  rw [units, number, if_pos (by omega), UInt16.ofNat_toNat]

theorem toNat_paired {high low : UInt16} (isHigh : isHigh high = true) (isLow : isLow low = true) :
    (paired high low).toNat =
      0x10000 + (high.toNat - 0xD800) * 0x400 + (low.toNat - 0xDC00) := by
  have highs := isHigh_iff.mp isHigh
  have lows := isLow_iff.mp isLow
  exact toNat_ofNat (by change _ < 0xD800 ∨ 0xDFFF < _ ∧ _ < 0x110000; omega)

/-- A high surrogate and a low one spell the character that they pair to. -/
theorem units_paired {high low : UInt16} (isHigh : isHigh high = true) (isLow : isLow low = true) :
    units (paired high low) = [high, low] := by
  have highs := isHigh_iff.mp isHigh
  have lows := isLow_iff.mp isLow
  have one : 0xD800 + ((paired high low).toNat - 0x10000) / 0x400 = high.toNat := by
    rw [toNat_paired isHigh isLow]
    omega
  have two : 0xDC00 + ((paired high low).toNat - 0x10000) % 0x400 = low.toNat := by
    rw [toNat_paired isHigh isLow]
    omega
  have above : ¬(paired high low).toNat < 0x10000 := by
    rw [toNat_paired isHigh isLow]
    omega
  rw [units, if_neg above]
  change [UInt16.ofNat (0xD800 + _), UInt16.ofNat (0xDC00 + _)] = _
  rw [one, two, UInt16.ofNat_toNat, UInt16.ofNat_toNat]

/-- The units of a character are one that is no surrogate, or a pair. -/
theorem units_cases (char : Char) :
    (∃ unit, isHigh unit = false ∧ isLow unit = false ∧ Char.ofNat unit.toNat = char) ∨
      ∃ high low, isHigh high = true ∧ isLow low = true ∧ paired high low = char := by
  have valid : char.toNat < 0xD800 ∨ 0xDFFF < char.toNat ∧ char.toNat < 0x110000 := char.valid
  by_cases basic : char.toNat < 0x10000
  · have number : (UInt16.ofNat char.toNat).toNat = char.toNat := UInt16.toNat_ofNat_of_lt' basic
    refine .inl ⟨UInt16.ofNat char.toNat, ?_, ?_, by rw [number, Char.ofNat_toNat]⟩
    · rw [Bool.eq_false_iff, ne_eq, isHigh_iff, number]
      omega
    · rw [Bool.eq_false_iff, ne_eq, isLow_iff, number]
      omega
  · have one : (UInt16.ofNat (0xD800 + (char.toNat - 0x10000) / 0x400)).toNat =
        0xD800 + (char.toNat - 0x10000) / 0x400 :=
      UInt16.toNat_ofNat_of_lt' (by change _ < 65536; omega)
    have two : (UInt16.ofNat (0xDC00 + (char.toNat - 0x10000) % 0x400)).toNat =
        0xDC00 + (char.toNat - 0x10000) % 0x400 :=
      UInt16.toNat_ofNat_of_lt' (by change _ < 65536; omega)
    have isHigh : isHigh (UInt16.ofNat (0xD800 + (char.toNat - 0x10000) / 0x400)) = true := by
      rw [isHigh_iff, one]
      omega
    have isLow : isLow (UInt16.ofNat (0xDC00 + (char.toNat - 0x10000) % 0x400)) = true := by
      rw [isLow_iff, two]
      omega
    refine .inr ⟨_, _, isHigh, isLow, Char.toNat_inj.mp ?_⟩
    rw [toNat_paired isHigh isLow, one, two]
    omega

theorem encode_cons (char : Char) (text : List Char) :
    encode (char :: text) = units char ++ encode text :=
  List.flatMap_cons

theorem decodeOnto_single {done : List Char} {unit : UInt16} {rest : List UInt16}
    (notHigh : isHigh unit = false) (notLow : isLow unit = false) :
    decodeOnto done (unit :: rest) = decodeOnto (Char.ofNat unit.toNat :: done) rest := by
  rw [decodeOnto.eq_def]
  change (if isHigh unit then _ else _) = _
  rw [if_neg (Bool.eq_false_iff.mp notHigh), if_neg (Bool.eq_false_iff.mp notLow)]

theorem decodeOnto_paired {done : List Char} {high low : UInt16} {rest : List UInt16}
    (isHigh : isHigh high = true) (isLow : isLow low = true) :
    decodeOnto done (high :: low :: rest) = decodeOnto (paired high low :: done) rest := by
  rw [decodeOnto, if_pos isHigh]
  exact if_pos isLow

theorem decodeOnto_encode (done text : List Char) :
    decodeOnto done (encode text) = some (done.reverse ++ text) := by
  induction text generalizing done with
  | nil => simp [encode, decodeOnto]
  | cons char text ih =>
    rw [encode_cons]
    have behind := ih (char :: done)
    rw [List.reverse_cons, List.append_assoc] at behind
    obtain ⟨unit, notHigh, notLow, rfl⟩ | ⟨high, low, isHigh, isLow, rfl⟩ := units_cases char
    · rw [units_single notHigh notLow, List.singleton_append, decodeOnto_single notHigh notLow]
      exact behind
    · rw [units_paired isHigh isLow, List.cons_append, List.singleton_append,
        decodeOnto_paired isHigh isLow]
      exact behind

theorem exists_encode_of_decodeOnto {done text : List Char} {input : List UInt16}
    (decoded : decodeOnto done input = some text) :
    ∃ more, text = done.reverse ++ more ∧ input = encode more := by
  fun_induction decodeOnto done input with
  | case1 done =>
    cases decoded
    exact ⟨[], (List.append_nil _).symm, rfl⟩
  | case2 => cases decoded
  | case3 done unit isHigh next rest isLow ih =>
    obtain ⟨more, rfl, rfl⟩ := ih decoded
    refine ⟨paired unit next :: more, by simp, ?_⟩
    rw [encode_cons, units_paired isHigh isLow]
    rfl
  | case4 => cases decoded
  | case5 => cases decoded
  | case6 done unit rest notHigh notLow ih =>
    obtain ⟨more, rfl, rfl⟩ := ih decoded
    refine ⟨Char.ofNat unit.toNat :: more, by simp, ?_⟩
    rw [encode_cons, units_single (Bool.eq_false_iff.mpr notHigh) (Bool.eq_false_iff.mpr notLow)]
    rfl

theorem decode_encode (text : List Char) : decode (encode text) = some text :=
  decodeOnto_encode [] text

theorem eq_encode_of_decode {input : List UInt16} {text : List Char}
    (decoded : decode input = some text) : input = encode text := by
  obtain ⟨more, rfl, same⟩ := exists_encode_of_decodeOnto decoded
  exact same

end TableDriven.Text.Utf16
