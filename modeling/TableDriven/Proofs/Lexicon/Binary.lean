import TableDriven.Lexicon.Binary
import TableDriven.Proofs.Binary.Escape
import TableDriven.Proofs.Binary.Loading
import TableDriven.Proofs.Binary.RunLength
import TableDriven.Proofs.Binary.Text

/-! # The binary form of a scanner table

An automaton agrees with its reader, which compares it with the number of states in front of it, and
a lexicon is read around its two automata and then judged by its own check.
-/

namespace TableDriven

open TableDriven.Binary TableDriven.TableDecoder

namespace Automaton

variable {misannounced : Nat → Nat → Lexicon.Defect}

theorem takes_read (automaton : Automaton) :
    Takes (read misannounced) automaton.write (pure automaton) := by
  refine ((agrees_counted _).takes automaton.stateCount).bind ?_
  refine ((agrees_required (agrees_array UInt16) _).takes automaton.initialStates).bind ?_
  refine ((agrees_required agrees_shorts2d _).takes automaton.transitions).bind ?_
  refine ((agrees_required agrees_shorts _).takes automaton.codes).bind ?_
  refine ((agrees_required (agrees_array2d UInt16) _).takes automaton.tokenLists).bind ?_
  refine ((agrees_required agrees_bools2d _).takes automaton.contextSplits).bind ?_
  have announced : ensure (automaton.stateCount = automaton.stateCount)
    (misannounced automaton.stateCount automaton.stateCount) = .ok () := if_pos rfl
  change Takes (require _ >>= fun _ => pure automaton) .empty (pure automaton)
  rw [require_bind_of_ok announced]
  exact .nothing

theorem spells_read :
    Spells (read misannounced) fun automaton encoding => encoding = automaton.write := by
  refine .bind (agrees_counted _) fun states _ _ => ?_
  refine .bind (agrees_required (agrees_array UInt16) _) fun initialStates _ _ => ?_
  refine .bind (agrees_required agrees_shorts2d _) fun transitions _ _ => ?_
  refine .bind (agrees_required agrees_shorts _) fun codes _ _ => ?_
  refine .bind (agrees_required (agrees_array2d UInt16) _) fun tokenLists _ _ => ?_
  refine .bind (agrees_required agrees_bools2d _) fun contextSplits _ _ => ?_
  intro input automaton rest accepted
  obtain ⟨announced, accepted⟩ := require_bind_eq_ok_iff.mp accepted
  rw [ensure_eq_ok_iff] at announced
  cases accepted
  subst announced
  exact ⟨.empty, rfl, .nothing⟩

theorem agrees_read (misannounced : Nat → Nat → Lexicon.Defect) :
    Agrees False write (read misannounced) := by
  refine ⟨takes_read, fun input automaton rest accepted => ?_⟩
  obtain ⟨encoding, rfl, spelled⟩ := spells_read input automaton rest accepted
  exact spelled

end Automaton

namespace Lexicon

/-- Compares a lexicon with the number of tokens in front of it, and judges it. -/
def compare (tokens : Nat) (lexicon : Lexicon) : TableDecoder Defect Lexicon := do
  require (ensure (lexicon.tokenCount = tokens) (.tokenHeader tokens lexicon.tokenCount))
  judge lexicon.check lexicon

theorem compare_own (lexicon : Lexicon) :
    lexicon.compare lexicon.tokenCount = judge lexicon.check lexicon :=
  require_bind_of_ok (if_pos rfl)

theorem compare_eq_ok {tokens : Nat} {lexicon result : Lexicon} {input rest : Bytes}
    (accepted : lexicon.compare tokens input = .ok result rest) :
    lexicon.tokenCount = tokens ∧ lexicon.check = .ok () ∧ lexicon = result ∧ input = rest := by
  obtain ⟨tokens, accepted⟩ := require_bind_eq_ok_iff.mp accepted
  obtain ⟨passes, accepted⟩ := require_bind_eq_ok_iff.mp accepted
  rw [ensure_eq_ok_iff] at tokens
  cases accepted
  exact ⟨tokens, passes, rfl, rfl⟩

/-- The lexicon with its numbers made from the counts that stand for them. -/
def recounted (lexicon : Lexicon) : Lexicon :=
  { lexicon with
    categoryCount := UInt64.ofNat lexicon.categoryCount.toNat
    conditionCount := UInt64.ofNat lexicon.conditions
    contextCount := UInt64.ofNat lexicon.contexts }

theorem recounted_eq (lexicon : Lexicon) : lexicon.recounted = lexicon := by
  simp only [recounted, conditions, contexts, UInt64.ofNat_toNat]

theorem takes_read (lexicon : Lexicon) :
    Takes read lexicon.write (judge lexicon.check lexicon) := by
  refine ((agrees_signature signature).takes ()).bind ?_
  refine ((agrees_counted _).takes lexicon.categoryCount.toNat).bind ?_
  refine ((agrees_counted _).takes lexicon.tokenCount).bind ?_
  refine ((agrees_counted _).takes lexicon.conditions).bind ?_
  refine ((agrees_counted _).takes lexicon.contexts).bind ?_
  refine ((agrees_required agrees_shorts _).takes lexicon.categories).bind ?_
  refine ((agrees_required (agrees_array Int32) _).takes lexicon.tokenParams).bind ?_
  refine ((agrees_required (agrees_array Int32) _).takes lexicon.tokenContexts).bind ?_
  refine ((agrees_required agrees_strings _).takes lexicon.tokenNames).bind ?_
  refine ((Automaton.agrees_read _).takes lexicon.forward).bind ?_
  refine ((Automaton.agrees_read _).takes lexicon.reverse).bind ?_
  change Takes (compare lexicon.tokenCount lexicon.recounted) .empty (judge lexicon.check lexicon)
  rw [recounted_eq, compare_own]
  exact .nothing

theorem spells_read : Spells read fun lexicon encoding =>
    lexicon.check = .ok () ∧ encoding = lexicon.write := by
  refine .bind (agrees_signature signature) fun _ _ _ => ?_
  refine .bind (agrees_counted _) fun categoryCount _ categoriesWritten => ?_
  refine .bind (agrees_counted _) fun tokens _ _ => ?_
  refine .bind (agrees_counted _) fun conditionCount _ conditionsWritten => ?_
  refine .bind (agrees_counted _) fun contextCount _ contextsWritten => ?_
  obtain ⟨categoryCount, rfl⟩ := exists_u64_of_written categoriesWritten
  obtain ⟨conditionCount, rfl⟩ := exists_u64_of_written conditionsWritten
  obtain ⟨contextCount, rfl⟩ := exists_u64_of_written contextsWritten
  simp only [UInt64.ofNat_toNat]
  refine .bind (agrees_required agrees_shorts _) fun categories _ _ => ?_
  refine .bind (agrees_required (agrees_array Int32) _) fun tokenParams _ _ => ?_
  refine .bind (agrees_required (agrees_array Int32) _) fun tokenContexts _ _ => ?_
  refine .bind (agrees_required agrees_strings _) fun tokenNames _ _ => ?_
  refine .bind (Automaton.agrees_read _) fun forward _ _ => ?_
  refine .bind (Automaton.agrees_read _) fun reverse _ _ => ?_
  intro input lexicon rest accepted
  obtain ⟨rfl, passes, rfl, rfl⟩ := compare_eq_ok accepted
  exact ⟨.empty, ⟨passes, rfl⟩, .nothing⟩

theorem loads : Loads read write check := ⟨takes_read, spells_read⟩

end Lexicon

end TableDriven
