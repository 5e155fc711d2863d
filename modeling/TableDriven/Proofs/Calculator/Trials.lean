import TableDriven.Calculator.Tables
import TableDriven.Proofs.Repair.Ends

/-! # Repairs of sums

Between two tokens of a sum the parser is in one of four phases.  They decide what becomes of the
next token (`Phase.advances`), so every search for a repair ends (`Phase.ends`).  The least repair
inserts one symbol at most, which the phase takes, and never a continuation: an integer alone costs
the same and comes first (`Phase.repaired`).
-/

namespace TableDriven.Calculator

open TableDriven.Repair (Ends Follows Inserts LeastOf Passes Precedes Tries Unambiguous Valid)
open LrTable (Expectation Outcome)

/-- Where the parser is in a sum, between two tokens: in front of it, behind some summands that have
been added, behind a plus sign, or behind an integer that is still to be added. -/
inductive Phase where
  | start
  | sum
  | operator
  | operand
  deriving DecidableEq

namespace Phase

def states : Phase → StateStack
  | start => [some 0]
  | sum => [some 1, some 0]
  | operator => [some 2, some 1, some 0]
  | operand => [some 3, some 2, some 1, some 0]

/-- The phase behind a terminal that is shifted. -/
def next : Phase → Nat → Option Phase
  | start, 0 => some sum
  | operator, 0 => some operand
  | sum, 1 | operand, 1 => some operator
  | _, _ => none

/-- Whether the end of the input is accepted. -/
def isComplete : Phase → Bool
  | sum | operand => true
  | start | operator => false

/-- Whether a terminal is no error. -/
def takes (phase : Phase) (symbol : Nat) : Bool :=
  (phase.next symbol).isSome || (symbol = endOfInput && phase.isComplete)

/-- What becomes of a terminal. -/
def outcome (phase : Phase) (symbol : Nat) : Outcome :=
  match phase.next symbol with
  | some behind => .shifted symbol behind.states
  | none => if phase.takes symbol then .accepted else .error

/-- What the grammar expects. -/
def expectation : Phase → Expectation
  | start => .terminal integer start.states
  | operator => .terminal integer operator.states
  | sum | operand => .terminal endOfInput sum.states

variable {phase behind : Phase} {symbol terminal : Nat} {symbols : List Nat} {stack : StateStack}

theorem advances (phase : Phase) (known : symbol < 3) :
    table.Advances phase.states symbol (phase.outcome symbol) := by
  obtain rfl | rfl | rfl : symbol = 0 ∨ symbol = 1 ∨ symbol = 2 := by omega
  all_goals cases phase <;> exact ⟨4, rfl⟩

theorem expects (phase : Phase) : table.Expects phase.states phase.expectation := by
  cases phase <;> exact ⟨4, rfl⟩

theorem outcome_of_not_takes (error : phase.takes symbol = false) :
    phase.outcome symbol = .error := by
  unfold outcome
  cases goes : phase.next symbol with
  | none => simp [error]
  | some behind => simp [takes, goes] at error

/-- A terminal that is shifted leads to its phase. -/
theorem of_advances (known : symbol < 3)
    (advances : table.Advances phase.states symbol (.shifted terminal stack)) :
    ∃ behind, phase.next symbol = some behind ∧ stack = behind.states := by
  have decided := advances.unique (phase.advances known)
  unfold outcome at decided
  split at decided
  next behind goes =>
    cases decided
    exact ⟨behind, goes, rfl⟩
  next => split at decided <;> cases decided

/-- Behind a sum only the end is expected. -/
theorem of_follows_complete (complete : phase.isComplete = true)
    (follows : Follows table phase.states symbols stack) :
    symbols = [] ∧ stack = phase.states := by
  cases follows with
  | nil => exact ⟨rfl, rfl⟩
  | cons expects other =>
    have expected := expects.unique phase.expects
    cases phase <;> cases complete <;> cases expected <;> contradiction

/-- One integer is all that is ever expected before the end. -/
theorem of_follows (follows : Follows table phase.states symbols stack) :
    symbols = [] ∧ stack = phase.states ∨
      symbols = [integer] ∧ ∃ behind, phase.next integer = some behind ∧ stack = behind.states := by
  by_cases complete : phase.isComplete = true
  · exact .inl (of_follows_complete complete follows)
  cases follows with
  | nil => exact .inl ⟨rfl, rfl⟩
  | @cons _ waiting next _ symbol _ symbols expects other advances rest =>
    have expected : Expectation.terminal symbol waiting = .terminal integer phase.states := by
      have expected := expects.unique phase.expects
      cases phase <;> first | exact expected | contradiction
    obtain ⟨rfl, rfl⟩ := Expectation.terminal.inj expected
    obtain ⟨behind, goes, rfl⟩ := of_advances (by decide) advances
    have last : behind.isComplete = true := by
      cases phase <;> cases goes <;> rfl
    obtain ⟨rfl, rfl⟩ := of_follows_complete last rest
    exact .inr ⟨rfl, behind, goes, rfl⟩

variable {ahead : Nat → Nat → Prop} {distance : Nat}

theorem lt_of_mem_singles (listed : symbol ∈ Repair.singles table) : symbol = 0 ∨ symbol = 1 := by
  revert listed
  simp [Repair.singles, table]

section
variable (known : ∀ distance symbol, ahead distance symbol → symbol < 3)
include known

theorem of_tries (tries : Tries table ahead phase.states stack distance) :
    ∃ behind : Phase, stack = behind.states := by
  induction tries with
  | inserted inserts =>
    cases inserts with
    | nothing => exact ⟨phase, rfl⟩
    | single listed advances =>
      have small := lt_of_mem_singles listed
      obtain ⟨behind, -, rfl⟩ := of_advances (by omega) advances
      exact ⟨behind, rfl⟩
    | continuation _ _ follows =>
      obtain ⟨-, rfl⟩ | ⟨-, behind, -, rfl⟩ := of_follows follows
      · exact ⟨phase, rfl⟩
      · exact ⟨behind, rfl⟩
  | shifted _ shown advances ih =>
    obtain ⟨middle, rfl⟩ := ih
    obtain ⟨behind, -, rfl⟩ := of_advances (known _ _ shown) advances
    exact ⟨behind, rfl⟩

/-- Every search for a repair of a sum ends. -/
theorem ends (phase : Phase) : Ends table ahead phase.states where
  ahead := by
    intro stack distance symbol tries shown
    obtain ⟨behind, rfl⟩ := of_tries known tries
    exact ⟨_, behind.advances (known _ _ shown)⟩
  single := by
    intro symbol listed
    have small := lt_of_mem_singles listed
    exact ⟨_, phase.advances (by omega)⟩
  expects := by
    intro symbols stack follows
    obtain ⟨-, rfl⟩ | ⟨-, behind, -, rfl⟩ := of_follows follows
    · exact ⟨_, phase.expects⟩
    · exact ⟨_, behind.expects⟩
  continued := by
    intro symbols stack symbol waiting follows expects
    obtain ⟨behind, rfl⟩ : ∃ behind : Phase, stack = behind.states := by
      obtain ⟨-, rfl⟩ | ⟨-, behind, -, rfl⟩ := of_follows follows
      · exact ⟨phase, rfl⟩
      · exact ⟨behind, rfl⟩
    have expected := expects.unique behind.expects
    cases behind <;> cases expected <;> exact ⟨_, Phase.advances _ (by decide)⟩

/-- The tokens behind a repair parse, so the first of them is no error. -/
theorem takes_of_passes (unique : Unambiguous ahead) {count : Nat}
    (passes : Passes table ahead (count + 1) phase.states distance)
    (shown : ahead distance symbol) : phase.takes symbol = true := by
  apply Decidable.byContradiction
  intro error
  have advances := phase.advances (known _ _ shown)
  rw [outcome_of_not_takes (by simpa using error)] at advances
  exact (Repair.passes_succ_iff unique shown advances).mp passes

/-- What the least repair of an error in a phase does: the next token behind it is no error, and an
integer is not inserted as a continuation. -/
theorem repaired (unique : Unambiguous ahead) {repair : Repair}
    (least : LeastOf table (Valid table ahead phase.states) (some repair)) :
    (∀ distance < repair.deletions, ∃ symbol, ahead distance symbol ∧ symbol ≠ endOfInput) ∧
      ((repair.insertion = .nothing ∧ 0 < repair.deletions ∧
        ∀ symbol, ahead repair.deletions symbol → phase.takes symbol = true) ∨
      ∃ inserted behind, repair.insertion = .single inserted ∧
        phase.next inserted = some behind ∧
        ∀ symbol, ahead repair.deletions symbol → behind.takes symbol = true) := by
  obtain ⟨valid, preferred⟩ := least
  obtain ⟨deletions, insertion, cost⟩ := repair
  obtain ⟨spent, deletes, paid⟩ := valid.costs
  obtain ⟨stack, inserts, passes⟩ := valid.parses
  dsimp only at *
  refine ⟨fun distance fewer => ?_, ?_⟩
  · obtain ⟨symbol, shown, other, -⟩ := deletes.exists_symbol fewer
    exact ⟨symbol, shown, other⟩
  cases inserts with
  | nothing =>
    exact .inl ⟨rfl, valid.changes rfl,
      fun symbol shown => takes_of_passes known unique passes shown⟩
  | single listed advances =>
    have small := lt_of_mem_singles listed
    obtain ⟨behind, goes, rfl⟩ := of_advances (by omega) advances
    exact .inr ⟨_, behind, rfl, goes, fun symbol shown => takes_of_passes known unique passes shown⟩
  | continuation some short follows =>
    obtain ⟨rfl, -⟩ | ⟨rfl, behind, goes, rfl⟩ := of_follows follows
    · contradiction
    -- The integer alone is preferred.
    have alone : Valid table ahead phase.states ⟨deletions, .single integer, cost⟩ := by
      have shifts := phase.advances (by decide : integer < 3)
      rw [outcome, goes] at shifts
      exact {
        allowed := valid.allowed
        changes := by simp
        costs := ⟨spent, deletes, paid⟩
        parses := ⟨behind.states, .single (by decide) shifts, passes⟩ }
    obtain same | before := preferred _ alone
    · cases same
    · have places : Repair.place table (.single integer) = 1 ∧
          Repair.place table (.continuation [integer]) = 3 := by decide
      simp only [Precedes, places] at before
      omega

end

end Phase

end TableDriven.Calculator
