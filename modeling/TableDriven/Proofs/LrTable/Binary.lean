import TableDriven.LrTable.Binary
import TableDriven.Proofs.Binary.Escape
import TableDriven.Proofs.Binary.Loading
import TableDriven.Proofs.Binary.Text

/-! # The binary form of a parser table

What is written of a parser table is read back field by field, and its own check is the only thing
that may refuse it then.  Whatever bytes are accepted spell the table that they yield.
-/

namespace TableDriven.LrTable

open TableDriven.Binary TableDriven.TableDecoder

/-- Compares a table with the counts that its header repeats, and judges it. -/
def compare (productions singlePoints states : Nat) (table : LrTable) :
    TableDecoder Defect LrTable := do
  require (checkHeader productions "productions" table.productionCount)
  require (checkHeader singlePoints "single-point insertions" table.singlePointInsertions.size)
  require (checkHeader states "states" table.stateCount)
  judge table.check table

theorem compare_own (table : LrTable) :
    table.compare table.productionCount table.singlePointInsertions.size table.stateCount =
      judge table.check table := by
  have agree (announced : Nat) (what : String) : checkHeader announced what announced = .ok () :=
    if_pos rfl
  rw [compare, require_bind_of_ok (agree _ _), require_bind_of_ok (agree _ _),
    require_bind_of_ok (agree _ _)]

theorem compare_eq_ok {productions singlePoints states : Nat} {table result : LrTable}
    {input rest : Bytes}
    (accepted : table.compare productions singlePoints states input = .ok result rest) :
    table.productionCount = productions ∧ table.singlePointInsertions.size = singlePoints ∧
      table.stateCount = states ∧ table.check = .ok () ∧ table = result ∧ input = rest := by
  obtain ⟨productions, accepted⟩ := require_bind_eq_ok_iff.mp accepted
  obtain ⟨singlePoints, accepted⟩ := require_bind_eq_ok_iff.mp accepted
  obtain ⟨states, accepted⟩ := require_bind_eq_ok_iff.mp accepted
  obtain ⟨passes, accepted⟩ := require_bind_eq_ok_iff.mp accepted
  rw [checkHeader, ensure_eq_ok_iff] at productions singlePoints states
  cases accepted
  exact ⟨productions.symm, singlePoints.symm, states.symm, passes, rfl, rfl⟩

/-- The table with its numbers made from the counts that stand for them. -/
def recounted (table : LrTable) : LrTable :=
  { table with
    symbolCount := UInt64.ofNat table.symbols
    maxInsertion := UInt64.ofNat table.maxInsertion.toNat
    maxDeletion := UInt64.ofNat table.maxDeletion.toNat
    validationLength := UInt64.ofNat table.validationLength.toNat
    goalProduction := UInt64.ofNat table.goal
    eofSymbol := UInt32.ofNat table.eof }

theorem recounted_eq (table : LrTable) : table.recounted = table := by
  simp only [recounted, symbols, goal, eof, UInt64.ofNat_toNat, UInt32.ofNat_toNat]

theorem takes_read (table : LrTable) : Takes read table.write (judge table.check table) := by
  refine ((agrees_signature signature).takes ()).bind ?_
  refine ((agrees_counted _).takes table.symbols).bind ?_
  refine ((agrees_counted _).takes table.productionCount).bind ?_
  refine ((agrees_counted _).takes table.maxInsertion.toNat).bind ?_
  refine ((agrees_counted _).takes table.maxDeletion.toNat).bind ?_
  refine ((agrees_counted _).takes table.validationLength.toNat).bind ?_
  refine ((agrees_counted _).takes table.singlePointInsertions.size).bind ?_
  refine ((agrees_counted _).takes table.goal).bind ?_
  refine ((agrees_counted _).takes table.eof).bind ?_
  refine ((agrees_counted _).takes table.stateCount).bind ?_
  refine ((agrees_required (agrees_array UInt32) _).takes table.productionLhs).bind ?_
  refine ((agrees_required (agrees_array UInt32) _).takes table.productionRhsLength).bind ?_
  refine ((agrees_required (agrees_array Int32) _).takes table.productionParam).bind ?_
  refine ((agrees_required (agrees_array UInt32) _).takes table.singlePointInsertions).bind ?_
  refine ((agrees_required (agrees_array UInt32) _).takes table.insertionCosts).bind ?_
  refine ((agrees_required (agrees_array UInt32) _).takes table.deletionCosts).bind ?_
  refine ((agrees_required agrees_shorts2d _).takes table.actions).bind ?_
  refine ((agrees_required agrees_shorts _).takes table.unwinding).bind ?_
  refine ((agrees_required agrees_strings _).takes table.symbolNames).bind ?_
  refine ((agrees_required agrees_strings _).takes table.linkNames).bind ?_
  change Takes (compare table.productionCount table.singlePointInsertions.size table.stateCount
    table.recounted) .empty (judge table.check table)
  rw [recounted_eq, compare_own]
  exact .nothing

theorem spells_read : Spells read fun table encoding =>
    table.check = .ok () ∧ encoding = table.write := by
  refine .bind (agrees_signature signature) fun _ _ _ => ?_
  refine .bind (agrees_counted _) fun symbols _ symbolsWritten => ?_
  refine .bind (agrees_counted _) fun productions _ _ => ?_
  refine .bind (agrees_counted _) fun maxInsertion _ insertionWritten => ?_
  refine .bind (agrees_counted _) fun maxDeletion _ deletionWritten => ?_
  refine .bind (agrees_counted _) fun validationLength _ validationWritten => ?_
  refine .bind (agrees_counted _) fun singlePoints _ _ => ?_
  refine .bind (agrees_counted _) fun goal _ goalWritten => ?_
  refine .bind (agrees_counted _) fun eof _ eofWritten => ?_
  refine .bind (agrees_counted _) fun states _ _ => ?_
  obtain ⟨symbols, rfl⟩ := exists_u64_of_written symbolsWritten
  obtain ⟨maxInsertion, rfl⟩ := exists_u64_of_written insertionWritten
  obtain ⟨maxDeletion, rfl⟩ := exists_u64_of_written deletionWritten
  obtain ⟨validationLength, rfl⟩ := exists_u64_of_written validationWritten
  obtain ⟨goal, rfl⟩ := exists_u64_of_written goalWritten
  obtain ⟨eof, rfl⟩ := exists_u32_of_written eofWritten
  simp only [UInt64.ofNat_toNat, UInt32.ofNat_toNat]
  refine .bind (agrees_required (agrees_array UInt32) _) fun productionLhs _ _ => ?_
  refine .bind (agrees_required (agrees_array UInt32) _) fun productionRhsLength _ _ => ?_
  refine .bind (agrees_required (agrees_array Int32) _) fun productionParam _ _ => ?_
  refine .bind (agrees_required (agrees_array UInt32) _) fun singlePointInsertions _ _ => ?_
  refine .bind (agrees_required (agrees_array UInt32) _) fun insertionCosts _ _ => ?_
  refine .bind (agrees_required (agrees_array UInt32) _) fun deletionCosts _ _ => ?_
  refine .bind (agrees_required agrees_shorts2d _) fun actions _ _ => ?_
  refine .bind (agrees_required agrees_shorts _) fun unwinding _ _ => ?_
  refine .bind (agrees_required agrees_strings _) fun symbolNames _ _ => ?_
  refine .bind (agrees_required agrees_strings _) fun linkNames _ _ => ?_
  intro input table rest accepted
  obtain ⟨rfl, rfl, rfl, passes, rfl, rfl⟩ := compare_eq_ok accepted
  exact ⟨.empty, ⟨passes, rfl⟩, .nothing⟩

theorem loads : Loads read write check := ⟨takes_read, spells_read⟩

end TableDriven.LrTable
