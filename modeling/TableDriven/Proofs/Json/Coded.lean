import TableDriven.Json.Value
import TableDriven.Proofs.Json.Value

/-! # Types with a lawful JSON form

A type has a lawful JSON form (`LawfulCoded`) if what is written of an item is read back as this
item.  Integers, truth values, texts and arrays of lawful types have one.  A record whose fields
have distinct names gives their values back in the order of the names.
-/

namespace TableDriven.Json

open TableDriven.Text

/-- A control character that is written by its number spells itself. -/
theorem spellOnto_control {number : Nat} (small : number < 32) (done : List UInt8)
    (rest : List Piece) :
    spellOnto done (.unit (UInt8.ofNat number).toUInt16 :: rest) =
      spellOnto (UInt8.ofNat number :: done) rest := by
  have plain : ∀ number, number < 32 →
      Utf16.isHigh (UInt8.ofNat number).toUInt16 = false ∧
        Utf16.isLow (UInt8.ofNat number).toUInt16 = false ∧
        String.utf8EncodeChar (Char.ofNat (UInt8.ofNat number).toUInt16.toNat) =
          [UInt8.ofNat number] := by
    decide
  obtain ⟨notHigh, notLow, encoded⟩ := plain number small
  rw [spellOnto.eq_def]
  dsimp only
  rw [notHigh, notLow, encoded]
  rfl

theorem spellOnto_ofByte (byte : UInt8) (done : List UInt8) (rest : List Piece) :
    spellOnto done (Piece.ofByte byte :: rest) = spellOnto (byte :: done) rest := by
  rw [Piece.ofByte]
  split
  case isTrue control =>
    have small : byte < 0x20 := of_decide_eq_true (Bool.and_eq_true_iff.mp control).1
    exact control_cases small fun number small => spellOnto_control small done rest
  case isFalse => rw [spellOnto]

theorem spellOnto_map_ofByte (bytes done : List UInt8) :
    spellOnto done (bytes.map Piece.ofByte) = some (done.reverse ++ bytes) := by
  induction bytes generalizing done with
  | nil => simp [spellOnto]
  | cons byte bytes ih =>
    rw [List.map_cons, spellOnto_ofByte, ih]
    simp

/-- The pieces of a text spell it. -/
@[simp] theorem spelled?_pieces (text : String) : spelled? (pieces text) = some text := by
  have spelt : spellOnto [] (pieces text) = some (Utf8.encode text) :=
    spellOnto_map_ofByte (Utf8.encode text) []
  rw [spelled?, spelt, Option.bind_eq_bind, Option.bind_some, Utf8.decode_encode]

/-- A type whose items are read back from what was written of them. -/
class LawfulCoded (α : Type) [Coded α] : Prop where
  written : ∀ item : α, (Coded.toValue item).Written
  ofValue?_toValue : ∀ item : α, Coded.ofValue? (Coded.toValue item) = some item

/-- Reading goes on with the item that was written. -/
theorem ofValue?_toValue_bind {α β : Type} [Coded α] [LawfulCoded α] (item : α)
    (next : α → Option β) : (Coded.ofValue? (Coded.toValue item) >>= next) = next item := by
  rw [LawfulCoded.ofValue?_toValue]
  rfl

theorem integerIn?_of_mem {number low high : Int} (least : low ≤ number) (below : number < high) :
    (Value.integer number).integerIn? low high = some number :=
  if_pos ⟨least, below⟩

theorem integerIn?_natCast {number bound : Nat} (below : number < bound) :
    (Value.integer number).integerIn? 0 bound = some (number : Int) :=
  integerIn?_of_mem (Int.natCast_nonneg number) (Int.ofNat_lt.mpr below)

instance : LawfulCoded UInt16 where
  written _ := .integer _
  ofValue?_toValue number := by
    have inside : (Value.integer number.toNat).integerIn? 0 0x10000 = some (number.toNat : Int) :=
      integerIn?_natCast number.toNat_lt
    simp [Coded.toValue, Coded.ofValue?, inside]

instance : LawfulCoded UInt32 where
  written _ := .integer _
  ofValue?_toValue number := by
    have inside : (Value.integer number.toNat).integerIn? 0 0x100000000 =
        some (number.toNat : Int) := integerIn?_natCast number.toNat_lt
    simp [Coded.toValue, Coded.ofValue?, inside]

instance : LawfulCoded UInt64 where
  written _ := .integer _
  ofValue?_toValue number := by
    have inside : (Value.integer number.toNat).integerIn? 0 0x10000000000000000 =
        some (number.toNat : Int) := integerIn?_natCast number.toNat_lt
    simp [Coded.toValue, Coded.ofValue?, inside]

instance : LawfulCoded Int32 where
  written _ := .integer _
  ofValue?_toValue number := by
    have inside : (Value.integer number.toInt).integerIn? (-0x80000000) 0x80000000 =
        some number.toInt := integerIn?_of_mem number.le_toInt number.toInt_lt
    simp [Coded.toValue, Coded.ofValue?, inside]

instance : LawfulCoded Bool where
  written flag := .bool flag
  ofValue?_toValue _ := rfl

instance : LawfulCoded String where
  written text := .text text
  ofValue?_toValue text := spelled?_pieces text

/-- What every item gives is what all items give. -/
theorem mapM_eq_some {α β : Type} {items : List α} {read : α → Option β} {result : α → β}
    (each : ∀ item ∈ items, read item = some (result item)) :
    items.mapM read = some (items.map result) := by
  induction items with
  | nil => rfl
  | cons item items ih =>
    rw [List.mapM_cons, each item (by simp), ih fun item inside => each item (by simp [inside])]
    rfl

instance {α : Type} [Coded α] [LawfulCoded α] : LawfulCoded (Array α) where
  written items := .array fun value inside => by
    obtain ⟨item, -, rfl⟩ := List.mem_map.mp inside
    exact LawfulCoded.written item
  ofValue?_toValue items := by
    have read : (items.toList.map Coded.toValue).mapM (Coded.ofValue? (α := α)) =
        some (items.toList.map id) := by
      rw [List.mapM_map]
      exact mapM_eq_some fun item _ => LawfulCoded.ofValue?_toValue item
    simp [Coded.toValue, Coded.ofValue?, read]

variable {names : List String} {values : List Value}

theorem record_written (written : ∀ value ∈ values, value.Written) :
    (Value.record (names.zip values)).Written := by
  refine .object ?_ ?_ <;> intro member inside <;>
    obtain ⟨⟨name, value⟩, among, rfl⟩ := List.mem_map.mp inside
  · exact ⟨name, rfl⟩
  · exact written value (List.of_mem_zip among).2

/-- Where names are distinct, a member is found by its name. -/
theorem member?_eq_some {members : List (String × Value)}
    (distinct : (members.map Prod.fst).Nodup) {member : String × Value}
    (inside : member ∈ members) : member? members member.1 = some member.2 := by
  have found : members.filter (fun other => other.1 = member.1) = [member] := by
    induction members with
    | nil => cases inside
    | cons first members ih =>
      rw [List.map_cons, List.nodup_cons] at distinct
      obtain ⟨fresh, distinct⟩ := distinct
      obtain rfl | inside := List.mem_cons.mp inside
      · have others : members.filter (fun other => other.1 = member.1) = [] := by
          refine List.filter_eq_nil_iff.mpr fun other among same => fresh ?_
          exact List.mem_map.mpr ⟨other, among, of_decide_eq_true same⟩
        rw [List.filter_cons_of_pos (by simp), others]
      · have other : first.1 ≠ member.1 := fun same =>
          fresh (same ▸ List.mem_map_of_mem inside)
        rw [List.filter_cons_of_neg (by simpa using other), ih distinct inside]
  rw [member?, found]

/-- A record gives the values of its fields back. -/
theorem fields?_record (distinct : names.Nodup) (same : names.length = values.length) :
    (Value.record (names.zip values)).fields? names = some values := by
  have namesZip : (names.zip values).map Prod.fst = names := List.map_fst_zip same.le
  have valuesZip : (names.zip values).map Prod.snd = values := List.map_snd_zip same.ge
  have found : (names.zip values).mapM (fun member => member? (names.zip values) member.1) =
      some ((names.zip values).map Prod.snd) :=
    mapM_eq_some fun member inside => member?_eq_some (by rwa [namesZip]) inside
  -- The names are spelled out of their pieces before a field is looked up.
  rw [Value.record, Value.fields?, List.mapM_map, @mapM_eq_some _ _ _ _ id ?spelt, List.map_id,
    Option.bind_eq_bind, Option.bind_some]
  case spelt => exact fun member _ => by simp
  calc names.mapM (member? (names.zip values))
      = ((names.zip values).map Prod.fst).mapM (member? (names.zip values)) := by rw [namesZip]
    _ = (names.zip values).mapM fun member => member? (names.zip values) member.1 := List.mapM_map
    _ = some values := by rw [found, valuesZip]

end TableDriven.Json
