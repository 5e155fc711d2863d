import TableDriven.Binary.Array
import TableDriven.Proofs.Binary.Length

/-! # Arrays

Values that agree with their reader one by one agree with it in a row (`Contents.rows`), so an array
agrees with its reader if its elements do, and a two-dimensional array if its rows do.
-/

namespace TableDriven.Binary

variable {α : Type} {sole : Prop} {write : α → Encoding} {read : Nat → Decoder α}

theorem readRowsOnto_succ (done : Array α) (left : Nat) :
    readRowsOnto read done (left + 1) =
      read done.size >>= fun value => readRowsOnto read (done.push value) left := by
  funext input
  rw [readRowsOnto]
  cases found : read done.size input with
  | ok value rest => rw [bind_apply_of_ok found]
  | error cause rest => rw [bind_apply_of_error found]

theorem takes_rowsOnto (takes : ∀ index value, Takes (read index) (write value) (pure value))
    (rows : List α) (done : Array α) :
    Takes (readRowsOnto read done rows.length) (.concat (rows.map write))
      (pure (done ++ rows.toArray)) := by
  induction rows generalizing done with
  | nil =>
    rw [Array.append_empty]
    exact .nothing
  | cons row rows ih =>
    rw [List.length_cons, readRowsOnto_succ, List.map_cons, Encoding.concat_cons]
    have behind := ih (done.push row)
    rw [List.push_append_toArray] at behind
    exact (takes _ row).bind behind

theorem spelled_rowsOnto
    (spelled : ∀ index input value rest, read index input = .ok value rest →
      Spelled sole input (write value) rest)
    {done rows : Array α} {left : Nat} {input rest : Bytes}
    (accepted : readRowsOnto read done left input = .ok rows rest) :
    ∃ items : List α, rows = done ++ items.toArray ∧ items.length = left ∧
      Spelled sole input (.concat (items.map write)) rest := by
  induction left generalizing done input with
  | zero =>
    cases accepted
    exact ⟨[], (Array.append_empty).symm, rfl, .nothing⟩
  | succ left ih =>
    rw [readRowsOnto_succ] at accepted
    obtain ⟨row, middle, found, accepted⟩ := bind_apply_eq_ok_iff.mp accepted
    obtain ⟨items, rfl, length, back⟩ := ih accepted
    refine ⟨row :: items, ?_, congrArg (· + 1) length, ?_⟩
    · exact List.push_append_toArray
    · exact (spelled _ _ _ _ found).append back

theorem Contents.rows (agrees : ∀ index, Agrees sole write (read index)) :
    Contents sole Array.size (writeRows write) (readRows read) := by
  constructor
  · intro rows
    have taken := takes_rowsOnto (fun index => (agrees index).takes) rows.toList #[]
    rwa [Array.empty_append] at taken
  · intro length input rows rest accepted
    obtain ⟨items, rfl, rfl, spelled⟩ :=
      spelled_rowsOnto (fun index => (agrees index).spelled) accepted
    rw [Array.empty_append]
    exact ⟨rfl, spelled⟩

theorem repeatOnto_eq (decoder : Decoder α) (done : Array α) (count : Nat) :
    decoder.repeatOnto done count = readRowsOnto (fun _ => decoder) done count := by
  induction count generalizing done with
  | zero => rfl
  | succ count ih =>
    funext input
    rw [Decoder.repeatOnto, readRowsOnto]
    cases decoder input with
    | ok value rest => exact congrFun (ih _) rest
    | error cause rest => rfl

theorem replicate_eq (decoder : Decoder α) :
    (Decoder.replicate · decoder) = readRows fun _ => decoder :=
  funext fun count => repeatOnto_eq decoder #[] count

theorem writeWords_eq [Word α] : (writeWords : Array α → Encoding) = writeRows Word.write := by
  funext values
  rw [writeWords, writeRows]
  induction values.toList with
  | nil => rfl
  | cons value values ih =>
    rw [List.map_cons, Encoding.concat_cons, ← ih, List.flatMap_cons]
    rfl

section
variable (α) [Word α] [LawfulWord α]

theorem agrees_array : Agrees (Word.IsFull α) writeArray (readArray α) := by
  have contents := Contents.rows fun _ => agrees_word α
  rw [← writeWords_eq, ← replicate_eq] at contents
  exact contents.measured

theorem agrees_row (index : Nat) :
    Agrees (Word.IsFull α) (fun row => writeArray (some row)) (readRow α index) :=
  (agrees_array α).unwrap (fun _ => rfl) rfl

theorem agrees_array2d : Agrees (Word.IsFull α) writeArray2d (readArray2d α) :=
  (Contents.rows (agrees_row α)).measured

end

end TableDriven.Binary
