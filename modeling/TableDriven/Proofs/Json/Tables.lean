import TableDriven.Lexicon.Json
import TableDriven.LrTable.Json
import TableDriven.Proofs.Binary.Tables
import TableDriven.Proofs.Json.Coded

/-! # Tables in JSON

Both kinds of table make the round trip through JSON (`json_round_trip`), whatever numbers and names
they hold.  The binary form holds fewer tables; those that it holds are loaded alike from either.
-/

namespace TableDriven

open TableDriven.Binary TableDriven.Json

namespace LrTable

theorem toValue_written (table : LrTable) : table.toValue.Written := by
  refine record_written ?_
  simp [fieldValues, LawfulCoded.written]

theorem ofValue?_toValue (table : LrTable) : ofValue? table.toValue = some table := by
  have fields : table.toValue.fields? fieldNames = some table.fieldValues :=
    fields?_record (by decide) rfl
  rw [ofValue?, fields, Option.bind_eq_bind, Option.bind_some, fieldValues]
  simp only [↓ofValue?_toValue_bind]
  rfl

theorem ofJson_toJson (table : LrTable) :
    ofJson table.toJson = (table.check.mapError .inconsistent).map fun _ => table := by
  have read : (Value.ofBytes? table.toJson >>= ofValue?) = some table :=
    table.toValue_written.ofBytes?_bind table.ofValue?_toValue
  simp only [ofJson, read]
  cases table.check <;> rfl

theorem check_of_ofJson {text : List UInt8} {table : LrTable} (loaded : ofJson text = .ok table) :
    table.check = .ok () := by
  unfold ofJson at loaded
  split at loaded
  next => cases loaded
  next found read =>
    obtain ⟨_, passed, same⟩ := bind_eq_ok_iff.mp loaded
    cases same
    exact mapError_eq_ok_iff.mp passed

end LrTable

instance : LawfulCoded Automaton where
  written automaton := by
    refine record_written ?_
    simp [Automaton.fieldValues, LawfulCoded.written]
  ofValue?_toValue automaton := by
    have fields : (Coded.toValue automaton).fields? Automaton.fieldNames =
        some automaton.fieldValues := fields?_record (by decide) rfl
    show Automaton.ofValue? (Coded.toValue automaton) = some automaton
    rw [Automaton.ofValue?, fields, Option.bind_eq_bind, Option.bind_some, Automaton.fieldValues]
    simp only [↓ofValue?_toValue_bind]
    rfl

namespace Lexicon

theorem toValue_written (lexicon : Lexicon) : lexicon.toValue.Written := by
  refine record_written ?_
  simp [fieldValues, LawfulCoded.written]

theorem ofValue?_toValue (lexicon : Lexicon) : ofValue? lexicon.toValue = some lexicon := by
  have fields : lexicon.toValue.fields? fieldNames = some lexicon.fieldValues :=
    fields?_record (by decide) rfl
  rw [ofValue?, fields, Option.bind_eq_bind, Option.bind_some, fieldValues]
  simp only [↓ofValue?_toValue_bind]
  rfl

theorem ofJson_toJson (lexicon : Lexicon) :
    ofJson lexicon.toJson = (lexicon.check.mapError .inconsistent).map fun _ => lexicon := by
  have read : (Value.ofBytes? lexicon.toJson >>= ofValue?) = some lexicon :=
    lexicon.toValue_written.ofBytes?_bind lexicon.ofValue?_toValue
  simp only [ofJson, read]
  cases lexicon.check <;> rfl

theorem check_of_ofJson {text : List UInt8} {lexicon : Lexicon}
    (loaded : ofJson text = .ok lexicon) : lexicon.check = .ok () := by
  unfold ofJson at loaded
  split at loaded
  next => cases loaded
  next found read =>
    obtain ⟨_, passed, same⟩ := bind_eq_ok_iff.mp loaded
    cases same
    exact mapError_eq_ok_iff.mp passed

end Lexicon

variable {α δ : Type}

/-- A kind of table makes the round trip through JSON: what was written of a table, of every table,
is loaded as that table if it passes its check and refused for the same defect if it does not; what
is loaded of any text passes and is loaded again from what is written of it; and what was written of
a table in binary, if it can be, is answered as its JSON is. -/
structure JsonRoundTrips (check : α → Except δ Unit) (toJson : α → List UInt8)
    (ofJson : List UInt8 → Except (TableFault δ) α) (toBytes : α → Except (TableFault δ) Bytes)
    (ofBytes : Bytes → Except (TableFault δ) α) : Prop where
  passes : ∀ table, check table = .ok () → ofJson (toJson table) = .ok table
  fails : ∀ table defect, check table = .error defect →
    ofJson (toJson table) = .error (.inconsistent defect)
  rewrites : ∀ text table, ofJson text = .ok table →
    check table = .ok () ∧ ofJson (toJson table) = .ok table
  agrees : ∀ table bytes, toBytes table = .ok bytes → ofBytes bytes = ofJson (toJson table)

theorem RoundTrips.withJson {check : α → Except δ Unit} {toJson : α → List UInt8}
    {ofJson : List UInt8 → Except (TableFault δ) α} {toBytes : α → Except (TableFault δ) Bytes}
    {ofBytes : Bytes → Except (TableFault δ) α} (binary : RoundTrips check toBytes ofBytes)
    (loaded : ∀ table,
      ofJson (toJson table) = ((check table).mapError .inconsistent).map fun _ => table)
    (checked : ∀ {text table}, ofJson text = .ok table → check table = .ok ()) :
    JsonRoundTrips check toJson ofJson toBytes ofBytes where
  passes table passed := by
    rw [loaded, passed]
    rfl
  fails table defect failed := by
    rw [loaded, failed]
    rfl
  rewrites text table answered := by
    have passed := checked answered
    refine ⟨passed, ?_⟩
    rw [loaded, passed]
    rfl
  agrees table bytes written := by
    rw [loaded, ← List.append_nil bytes]
    cases passed : check table with
    | ok => exact binary.passes table bytes written [] passed
    | error defect => exact binary.fails table bytes written [] defect passed

theorem json_round_trip :
    JsonRoundTrips LrTable.check LrTable.toJson LrTable.ofJson LrTable.toBytes LrTable.ofBytes ∧
      JsonRoundTrips Lexicon.check Lexicon.toJson Lexicon.ofJson Lexicon.toBytes Lexicon.ofBytes :=
  ⟨LrTable.loads.roundTrips.withJson LrTable.ofJson_toJson LrTable.check_of_ofJson,
    Lexicon.loads.roundTrips.withJson Lexicon.ofJson_toJson Lexicon.check_of_ofJson⟩

/-- The calculator's parser table with numbers that the binary form does not hold, and with names
that JSON must escape. -/
def immoderate : LrTable :=
  { Calculator.table with
    maxInsertion := 0xFFFFFFFFFFFFFFFF
    productionParam := #[-0x80000000, 0, 0x7FFFFFFF]
    symbolNames := #["∑\t\"", "", "\x00", "\\", "𝄞"] }

theorem json_round_trip_calculator :
    LrTable.ofJson immoderate.toJson = .ok immoderate ∧
      LrTable.ofJson endless.toJson = .error (.inconsistent (.eofOutOfRange 9)) ∧
      (∃ bytes, LrTable.toBytes endless = .ok bytes ∧
        LrTable.ofBytes bytes = LrTable.ofJson endless.toJson) ∧
      Lexicon.ofJson Calculator.lexicon.toJson = .ok Calculator.lexicon := by
  obtain ⟨tables, lexicons⟩ := json_round_trip
  exact ⟨tables.passes immoderate rfl, tables.fails endless _ rfl,
    ⟨_, endless_written, tables.agrees endless _ endless_written⟩,
    lexicons.passes _ calculator_lexicon_passes⟩

end TableDriven
