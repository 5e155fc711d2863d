import TableDriven.Proofs.Requirements
import TableDriven.Proofs.Binary.Length

/-! # Loading tables

A table is read field by field and judged behind the last of them.  What is read of a value agrees
with its writer as a field of a table too, and a signature agrees with its bytes.  A reader
`Spells` a relation if it accepts nothing but spellings of encodings in that relation to its answer;
that is shown field by field.  A kind of table that `Loads` makes the round trip and notices bytes
that are cut off.
-/

namespace TableDriven

open TableDriven.Binary

variable {α β δ : Type} {sole : Prop}

namespace TableDecoder

theorem part_of_ok {decoder : Decoder α} {input rest : Bytes} {value : α}
    (read : decoder input = .ok value rest) :
    (part decoder : TableDecoder δ α) input = .ok value rest := by
  rw [part, EStateM.adaptExcept, read]

theorem part_of_error {decoder : Decoder α} {input rest : Bytes} {cause : CodecFault}
    (failed : decoder input = .error cause rest) :
    (part decoder : TableDecoder δ α) input = .error (.codec cause) rest := by
  rw [part, EStateM.adaptExcept, failed]

theorem takes_part {decoder : Decoder α} {encoding : Encoding} {value : α}
    (takes : Takes decoder encoding (pure value)) :
    Takes (part decoder : TableDecoder δ α) encoding (pure value) := by
  constructor
  · intro bytes written behind
    exact part_of_ok (takes.whole bytes written behind)
  · intro bytes written count short
    obtain ⟨rest, failed⟩ := takes.cut bytes written count short
    exact ⟨rest, part_of_error failed⟩

theorem agrees_part {write : α → Encoding} {read : Decoder α} (agrees : Agrees sole write read) :
    Agrees sole write (part read : TableDecoder δ α) := by
  constructor
  · intro value
    exact takes_part (agrees.takes value)
  · intro input value rest accepted
    cases found : read input with
    | ok answer middle =>
      rw [part_of_ok found] at accepted
      cases accepted
      exact agrees.spelled input value rest found
    | error cause middle =>
      rw [part_of_error found] at accepted
      cases accepted

/-- A field that counts. -/
theorem agrees_counted (what : String) :
    Agrees True writeCount (part (readCount what) : TableDecoder δ Nat) :=
  agrees_part (agrees_count what)

/-- A field that must not be null. -/
theorem agrees_required {write : Option α → Encoding} {read : Decoder (Option α)}
    (agrees : Agrees sole write read) (what : String) :
    Agrees sole (fun value => write (some value))
      (TableDecoder.required what read : TableDecoder δ α) :=
  agrees_part (agrees.unwrap (fun _ => rfl) rfl)

theorem agrees_signature (expected : Bytes) :
    Agrees True (fun _ : Unit => ⟨expected, none⟩)
      (signature expected : TableDecoder δ Unit) := by
  constructor
  · intro _
    exact (takes_part (takes_bytes expected)).bind_next (if_neg fun other => other rfl)
  · intro input _ rest accepted
    obtain ⟨found, middle, took, answered⟩ := bind_apply_eq_ok_iff.mp accepted
    by_cases same : found = expected
    · subst same
      rw [if_neg fun other => other rfl] at answered
      cases answered
      cases read : Decoder.bytes found.length input with
      | ok front behind =>
        rw [part_of_ok read] at took
        cases took
        exact .of_eq (bytes_eq_ok_iff.mp read).1
      | error cause behind =>
        rw [part_of_error read] at took
        cases took
    · rw [if_pos same] at answered
      cases answered

theorem require_bind_eq_ok_iff {requirement : Except δ Unit} {next : Unit → TableDecoder δ α}
    {input rest : Bytes} {value : α} :
    (require requirement >>= next) input = .ok value rest ↔
      requirement = .ok () ∧ next () input = .ok value rest := by
  cases requirement with
  | ok accepted => exact ⟨fun answered => ⟨rfl, answered⟩, And.right⟩
  | error defect => exact ⟨nofun, fun answered => nomatch answered.1⟩

/-- Answers a table if it passes its check. -/
def judge (check : Except δ Unit) (table : α) : TableDecoder δ α :=
  require check >>= fun _ => pure table

theorem require_bind_of_ok {requirement : Except δ Unit} {next : Unit → TableDecoder δ α}
    (holds : requirement = .ok ()) : require requirement >>= next = next () := by
  subst holds
  rfl

theorem load_of_ok {read : TableDecoder δ α} {bytes rest : Bytes} {table : α}
    (answered : read bytes = .ok table rest) : read.load bytes = .ok table := by
  rw [load, answered]

theorem load_of_error {read : TableDecoder δ α} {bytes rest : Bytes} {fault : TableFault δ}
    (failed : read bytes = .error fault rest) : read.load bytes = .error fault := by
  rw [load, failed]

theorem exists_of_load {read : TableDecoder δ α} {bytes : Bytes} {table : α}
    (loaded : read.load bytes = .ok table) : ∃ rest, read bytes = .ok table rest := by
  cases answered : read bytes with
  | ok result rest =>
    rw [load_of_ok answered] at loaded
    cases loaded
    exact ⟨rest, rfl⟩
  | error fault rest =>
    rw [load_of_error answered] at loaded
    cases loaded

end TableDecoder

/-- Whatever the reader accepts is a spelling of an encoding that stands in `relation` to the
answer. -/
def Spells (read : TableDecoder δ α) (relation : α → Encoding → Prop) : Prop :=
  ∀ input value rest, read input = .ok value rest →
    ∃ encoding, relation value encoding ∧ Spelled False input encoding rest

/-- The field that is read first is written first. -/
theorem Spells.bind {write : α → Encoding} {read : TableDecoder δ α} {next : α → TableDecoder δ β}
    {relation : β → Encoding → Prop} (agrees : Agrees sole write read)
    (follows : ∀ value bytes, (write value).toExcept = .ok bytes →
      Spells (next value) fun result encoding => relation result (write value ++ encoding)) :
    Spells (read >>= next) relation := by
  intro input result rest accepted
  obtain ⟨value, middle, took, answered⟩ := bind_apply_eq_ok_iff.mp accepted
  have front := (agrees.spelled input value middle took).mono False.elim
  obtain ⟨bytes, written⟩ := front.written
  obtain ⟨encoding, related, back⟩ := follows value bytes written middle result rest answered
  exact ⟨write value ++ encoding, related, front.append back⟩

theorem exists_u64_of_written {count : Nat} {bytes : Bytes}
    (written : (writeCount count).toExcept = .ok bytes) : ∃ word : UInt64, word.toNat = count :=
  ⟨UInt64.ofNat count, UInt64.toNat_ofNat_of_lt'
    (Nat.lt_of_le_of_lt (writeCount_eq_ok written) (by decide))⟩

theorem exists_u32_of_written {count : Nat} {bytes : Bytes}
    (written : (writeCount count).toExcept = .ok bytes) : ∃ word : UInt32, word.toNat = count :=
  ⟨UInt32.ofNat count, UInt32.toNat_ofNat_of_lt'
    (Nat.lt_of_le_of_lt (writeCount_eq_ok written) (by decide))⟩

section
variable {read : TableDecoder δ α} {write : α → Encoding} {check : α → Except δ Unit}

/-- Tables of a kind are taken off their bytes and then judged, and bytes that are accepted spell
a table that passes. -/
structure Loads (read : TableDecoder δ α) (write : α → Encoding) (check : α → Except δ Unit) :
    Prop where
  takes : ∀ table, Takes read (write table) (TableDecoder.judge (check table) table)
  spells : Spells read fun table encoding => check table = .ok () ∧ encoding = write table

variable {table : α} {bytes : Bytes}

theorem Loads.of_passes (loads : Loads read write check)
    (written : (write table).toExcept = .ok bytes) (behind : Bytes)
    (passes : check table = .ok ()) : read.load (bytes ++ behind) = .ok table := by
  have judged := (loads.takes table).whole bytes written behind
  rw [passes] at judged
  exact TableDecoder.load_of_ok judged

theorem Loads.of_fails (loads : Loads read write check)
    (written : (write table).toExcept = .ok bytes) (behind : Bytes) {defect : δ}
    (fails : check table = .error defect) :
    read.load (bytes ++ behind) = .error (.inconsistent defect) := by
  have judged := (loads.takes table).whole bytes written behind
  rw [fails] at judged
  exact TableDecoder.load_of_error judged

theorem Loads.rewrites (loads : Loads read write check) (loaded : read.load bytes = .ok table) :
    check table = .ok () ∧ ∃ again, (write table).toExcept = .ok again ∧
      again.length ≤ bytes.length ∧ read.load again = .ok table := by
  obtain ⟨rest, accepted⟩ := TableDecoder.exists_of_load loaded
  obtain ⟨encoding, ⟨passes, rfl⟩, used, again, rfl, written, length, -⟩ :=
    loads.spells bytes table rest accepted
  refine ⟨passes, again, written, ?_, ?_⟩
  · rw [List.length_append]
    omega
  · have reloaded := loads.of_passes written [] passes
    rwa [List.append_nil] at reloaded

theorem Loads.of_cut (loads : Loads read write check)
    (written : (write table).toExcept = .ok bytes) {count : Nat} (short : count < bytes.length) :
    read.load (bytes.take count) = .error EndOfBytes.ended := by
  obtain ⟨rest, failed⟩ := (loads.takes table).cut bytes written count short
  exact TableDecoder.load_of_error failed

end

end TableDriven
