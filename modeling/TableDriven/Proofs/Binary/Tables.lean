import TableDriven.Calculator.Tables
import TableDriven.Proofs.Binary.Form
import TableDriven.Proofs.Lexicon.Binary
import TableDriven.Proofs.LrTable.Binary

/-! # Tables in binary form

Both kinds of table make the round trip through their binary form (`tables_round_trip`), and bytes
that are cut off anywhere are reported as such, never as anything else (`cut_reported`).
-/

namespace TableDriven

open TableDriven.Binary

variable {α δ : Type}

/-- A kind of table makes the round trip: what was written of a table, whatever stands behind it, is
loaded as that table if it passes its check and refused for the same defect if it does not; and
what is loaded passes and is written again in no more bytes. -/
structure RoundTrips (check : α → Except δ Unit) (toBytes : α → Except (TableFault δ) Bytes)
    (ofBytes : Bytes → Except (TableFault δ) α) : Prop where
  passes : ∀ table bytes, toBytes table = .ok bytes → ∀ behind, check table = .ok () →
    ofBytes (bytes ++ behind) = .ok table
  fails : ∀ table bytes, toBytes table = .ok bytes → ∀ behind defect,
    check table = .error defect → ofBytes (bytes ++ behind) = .error (.inconsistent defect)
  rewrites : ∀ bytes table, ofBytes bytes = .ok table → check table = .ok () ∧
    ∃ again, toBytes table = .ok again ∧ again.length ≤ bytes.length ∧ ofBytes again = .ok table

/-- Every proper beginning of what was written of a table is found to end too soon. -/
def ReportsCuts (toBytes : α → Except (TableFault δ) Bytes)
    (ofBytes : Bytes → Except (TableFault δ) α) : Prop :=
  ∀ table bytes, toBytes table = .ok bytes → ∀ count, count < bytes.length →
    ofBytes (bytes.take count) = .error (.codec (.io .endOfInput))

section
variable {read : TableDecoder δ α} {write : α → Encoding} {check : α → Except δ Unit}
  {toBytes : α → Except (TableFault δ) Bytes} {ofBytes : Bytes → Except (TableFault δ) α}

theorem Loads.roundTrips (loads : Loads read write check) :
    RoundTrips check (fun table => (write table).toExcept.mapError .codec) read.load where
  passes _ _ written := loads.of_passes (mapError_eq_ok_iff.mp written)
  fails _ _ written behind _ := loads.of_fails (mapError_eq_ok_iff.mp written) behind
  rewrites bytes table loaded := by
    obtain ⟨passes, again, written, length, reloaded⟩ := loads.rewrites loaded
    exact ⟨passes, again, mapError_eq_ok_iff.mpr written, length, reloaded⟩

theorem Loads.reportsCuts (loads : Loads read write check) :
    ReportsCuts (fun table => (write table).toExcept.mapError .codec) read.load :=
  fun _ _ written _ short => loads.of_cut (mapError_eq_ok_iff.mp written) short

end

theorem tables_round_trip :
    RoundTrips LrTable.check LrTable.toBytes LrTable.ofBytes ∧
      RoundTrips Lexicon.check Lexicon.toBytes Lexicon.ofBytes :=
  ⟨LrTable.loads.roundTrips, Lexicon.loads.roundTrips⟩

theorem calculator_table_written :
    LrTable.toBytes Calculator.table = .ok Calculator.table.write.bytes :=
  mapError_eq_ok_iff.mpr (Encoding.toExcept_of_unrefused (by decide +kernel))

theorem calculator_lexicon_written :
    Lexicon.toBytes Calculator.lexicon = .ok Calculator.lexicon.write.bytes :=
  mapError_eq_ok_iff.mpr (Encoding.toExcept_of_unrefused (by decide +kernel))

theorem calculator_lexicon_passes : Calculator.lexicon.check = .ok () := by
  have passes : Calculator.lexicon.check.toOption = some () := by decide +kernel
  cases checked : Calculator.lexicon.check with
  | ok => rfl
  | error defect =>
    rw [checked] at passes
    cases passes

/-- The calculator's parser table, but the end of its input is no symbol. -/
def endless : LrTable := { Calculator.table with eofSymbol := 9 }

theorem endless_written : LrTable.toBytes endless = .ok endless.write.bytes :=
  mapError_eq_ok_iff.mpr (Encoding.toExcept_of_unrefused (by decide +kernel))

theorem tables_round_trip_calculator :
    (∃ bytes, LrTable.toBytes Calculator.table = .ok bytes ∧
      LrTable.ofBytes (bytes ++ [0]) = .ok Calculator.table ∧
      ∃ again, LrTable.toBytes Calculator.table = .ok again ∧
        again.length ≤ (bytes ++ [0]).length ∧ LrTable.ofBytes again = .ok Calculator.table) ∧
    (∃ bytes, LrTable.toBytes endless = .ok bytes ∧
      LrTable.ofBytes (bytes ++ [0]) = .error (.inconsistent (.eofOutOfRange 9))) ∧
    ∃ bytes, Lexicon.toBytes Calculator.lexicon = .ok bytes ∧
      Lexicon.ofBytes (bytes ++ [0]) = .ok Calculator.lexicon := by
  obtain ⟨tables, lexicons⟩ := tables_round_trip
  have loaded := tables.passes _ _ calculator_table_written [0] rfl
  obtain ⟨-, again⟩ := tables.rewrites _ _ loaded
  exact ⟨⟨_, calculator_table_written, loaded, again⟩,
    ⟨_, endless_written, tables.fails _ _ endless_written [0] _ rfl⟩,
    ⟨_, calculator_lexicon_written,
      lexicons.passes _ _ calculator_lexicon_written [0] calculator_lexicon_passes⟩⟩

/-- A table or a value that is cut off anywhere is reported as cut off. -/
theorem cut_reported :
    ReportsCuts LrTable.toBytes LrTable.ofBytes ∧ ReportsCuts Lexicon.toBytes Lexicon.ofBytes ∧
      ∀ (form : Form) (value : form.Value) (bytes : Bytes),
        (form.write value).toExcept = .ok bytes → ∀ count, count < bytes.length →
          ∃ rest, form.read (bytes.take count) = .error (.io .endOfInput) rest :=
  ⟨LrTable.loads.reportsCuts, Lexicon.loads.reportsCuts,
    fun form value => (form.agrees.takes value).cut⟩

theorem cut_reported_calculator :
    (∃ bytes, LrTable.toBytes Calculator.table = .ok bytes ∧
      LrTable.ofBytes (bytes.take 100) = .error (.codec (.io .endOfInput))) ∧
    (∃ bytes, Lexicon.toBytes Calculator.lexicon = .ok bytes ∧
      Lexicon.ofBytes (bytes.take 100) = .error (.codec (.io .endOfInput))) ∧
    ∃ rest, readShorts [0, 2, 0x81, 0x01, 0x12] = .error (.io .endOfInput) rest := by
  obtain ⟨tables, lexicons, values⟩ := cut_reported
  exact ⟨⟨_, calculator_table_written, tables _ _ calculator_table_written 100 (by decide +kernel)⟩,
    ⟨_, calculator_lexicon_written,
      lexicons _ _ calculator_lexicon_written 100 (by decide +kernel)⟩,
    values .shorts (some #[0x1234, 0x1234]) _ rfl 5 (by decide +kernel)⟩

end TableDriven
