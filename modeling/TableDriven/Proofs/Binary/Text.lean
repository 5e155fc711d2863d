import TableDriven.Binary.Text
import TableDriven.Proofs.Binary.Array
import TableDriven.Proofs.Text.Utf16

/-! # Texts

Each of the three forms of a text agrees with its reader, and none of them has a second spelling:
UTF-8 because it has none itself, single bytes because the characters that fit one are the first
256, UTF-16 because a surrogate spells nothing but with its other half.
-/

namespace TableDriven.Binary

open TableDriven.Text

theorem agrees_utf : Agrees True writeUtf readUtf := by
  have words := (agrees_word UInt16).mono fun _ : True => Word.isFull_u16
  constructor
  · intro text
    rw [writeUtf]
    split
    next fits =>
      have number : (UInt16.ofNat (Utf8.encode text).length).toNat = (Utf8.encode text).length :=
        UInt16.toNat_ofNat_of_lt' (Nat.lt_succ_of_le fits)
      rw [Encoding.mk_append]
      refine (words.takes _).bind ?_
      rw [number]
      refine (takes_bytes _).bind_next ?_
      rw [Utf8.decode_encode]
    next => exact .refused
  · intro input text rest accepted
    obtain ⟨length, middle, first, followed⟩ := bind_apply_eq_ok_iff.mp accepted
    obtain ⟨bytes, behind, second, answered⟩ := bind_apply_eq_ok_iff.mp followed
    obtain ⟨rfl, size⟩ := bytes_eq_ok_iff.mp second
    cases decoded : Utf8.decode bytes with
    | error fault =>
      rw [decoded] at answered
      cases answered
    | ok found =>
      rw [decoded] at answered
      cases answered
      obtain rfl := Utf8.eq_encode_of_decode decoded
      have fits : (Utf8.encode text).length ≤ utfLengthMax :=
        size ▸ Nat.le_of_lt_succ length.toNat_lt
      rw [writeUtf, if_pos fits, size, UInt16.ofNat_toNat, Encoding.mk_append]
      exact (words.spelled _ _ _ first).append (.of_eq rfl)

theorem agrees_strings : Agrees True writeStrings readStrings := by
  have contents := Contents.rows fun _ => agrees_utf
  rw [← replicate_eq] at contents
  exact contents.measured

/-- Every character of the text fits one byte. -/
def IsNarrow (text : List Char) : Prop := ∀ char ∈ text, char.toNat ≤ 0xFF

theorem writeByteString_of_narrow {text : String} (narrow : IsNarrow text.toList) :
    writeByteString (some text) = writeMeasured List.length writeNarrow (some text.toList) := by
  have none : text.toList.find? (fun char => 0xFF < char.toNat) = none := by
    rw [List.find?_eq_none]
    intro char member
    simpa using narrow char member
  simp only [writeByteString, Option.bind_some, none, Option.map_some]

theorem narrow_or_refused (text : String) :
    IsNarrow text.toList ∨ ∃ char, writeByteString (some text) = .refuse (.unencodable char) := by
  cases found : text.toList.find? (fun char => 0xFF < char.toNat) with
  | none =>
    left
    intro char member
    simpa using List.find?_eq_none.mp found char member
  | some char =>
    right
    refine ⟨char, ?_⟩
    simp only [writeByteString, Option.bind_some, found]

theorem takes_narrow {text : List Char} (narrow : IsNarrow text) :
    Takes (do
        let bytes ← Decoder.bytes text.length
        return String.ofList (bytes.map fun byte => Char.ofNat byte.toNat))
      (writeNarrow text) (pure (String.ofList text)) := by
  have taken := takes_bytes (text.map fun char => UInt8.ofNat char.toNat)
  rw [List.length_map] at taken
  refine taken.bind_next ?_
  have back : (text.map fun char => UInt8.ofNat char.toNat).map
      (fun byte => Char.ofNat byte.toNat) = text := by
    rw [List.map_map, List.map_congr_left fun char member => ?_, List.map_id]
    change Char.ofNat (UInt8.ofNat char.toNat).toNat = char
    rw [UInt8.toNat_ofNat_of_lt' (Nat.lt_succ_of_le (narrow char member)), Char.ofNat_toNat]
  rw [back]

theorem agrees_byteString : Agrees True writeByteString readByteString := by
  constructor
  · intro text
    cases text with
    | none => exact takes_null List.length writeNarrow _
    | some text =>
      obtain narrow | ⟨char, refused⟩ := narrow_or_refused text
      · rw [writeByteString_of_narrow narrow]
        have taken := takes_narrow narrow
        rw [String.ofList_toList] at taken
        exact takes_measured taken
      · rw [refused]
        exact .refused
  · intro input text rest accepted
    obtain ⟨rfl, null⟩ | ⟨length, middle, value, rfl, front, found⟩ := measured_cases accepted
    · exact null.append .nothing
    · obtain ⟨bytes, behind, took, answered⟩ := bind_apply_eq_ok_iff.mp found
      obtain ⟨rfl, rfl⟩ := bytes_eq_ok_iff.mp took
      cases answered
      have number (byte : UInt8) : (Char.ofNat byte.toNat).toNat = byte.toNat :=
        Utf16.toNat_ofNat (.inl (Nat.lt_trans byte.toNat_lt (by decide)))
      have narrow : IsNarrow (bytes.map fun byte => Char.ofNat byte.toNat) := by
        intro char member
        obtain ⟨byte, -, rfl⟩ := List.mem_map.mp member
        rw [number]
        exact Nat.le_of_lt_succ byte.toNat_lt
      have same : (bytes.map fun byte => Char.ofNat byte.toNat).map
          (fun char => UInt8.ofNat char.toNat) = bytes := by
        rw [List.map_map, List.map_congr_left fun byte _ => ?_, List.map_id]
        change UInt8.ofNat (Char.ofNat byte.toNat).toNat = byte
        rw [number, UInt8.ofNat_toNat]
      have content : Spelled True (bytes ++ rest)
          (writeNarrow (bytes.map fun byte => Char.ofNat byte.toNat)) rest :=
        .of_eq (by rw [same])
      rw [← List.length_map (f := fun byte : UInt8 => Char.ofNat byte.toNat)] at front
      rw [← String.toList_ofList (l := bytes.map fun byte => Char.ofNat byte.toNat)] at narrow
      rw [writeByteString_of_narrow narrow, String.toList_ofList]
      exact front.append content

/-- The units of a text. -/
def utf16Of (text : String) : Array UInt16 := (Utf16.encode text.toList).toArray

theorem agrees_charString : Agrees True writeCharString readCharString := by
  have units := (agrees_array UInt16).mono fun _ : True => Word.isFull_u16
  change Agrees True (fun text => writeArray (Option.map utf16Of text)) readCharString
  refine Agrees.refine units (fun text => ?_)
    fun units input text rest answered => ?_
  · cases text with
    | none => rfl
    | some text =>
      simp only [Option.map_some, utf16Of, Utf16.decode_encode, String.ofList_toList]
  · cases units with
    | none =>
      cases answered
      exact ⟨rfl, rfl⟩
    | some units =>
      cases decoded : Utf16.decode units.toList with
      | none =>
        simp only [decoded] at answered
        cases answered
      | some found =>
        simp only [decoded] at answered
        cases answered
        rw [Option.map_some, utf16Of, String.toList_ofList, ← Utf16.eq_encode_of_decode decoded]
        exact ⟨rfl, rfl⟩

end TableDriven.Binary
