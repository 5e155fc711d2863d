import TableDriven.LrTable.Check
import TableDriven.Proofs.Requirements

/-! # What the check of a parser table guarantees

`LrTable.Checked` says in one structure what every requirement of the check comes to, and
`check_eq_ok_iff` that the check accepts exactly such tables.  From it follow the facts that the
engine and the trials rest on: no look-up with a state or production of the table breaks down, a
shift leads to a state of the table, and a shift-reduce entry reduces what it shifted.
-/

namespace TableDriven

namespace LrTable

variable {table : LrTable}

/-- An action that leads somewhere. -/
def Leads (table : LrTable) : Action → Prop
  | .shift next => next < table.stateCount
  | .shiftReduce production => table.productionRhsLength[production]? ≠ some 0
  | .reduce _ | .error => True

/-- A table that holds together. -/
structure Checked (table : LrTable) : Prop where
  symbols_pos : 0 < table.symbols
  productions_pos : 0 < table.productionCount
  states_pos : initialState < table.stateCount
  rhsLength_size : table.productionRhsLength.size = table.productionCount
  param_size : table.productionParam.size = table.productionCount
  lhs_lt : ∀ (production : Nat) (lhs : UInt32),
    table.productionLhs[production]? = some lhs → lhs.toNat < table.symbols
  goal_lt : table.goal < table.productionCount
  eof_lt : table.eof < table.symbols
  insertionCosts_size : table.insertionCosts.size = table.symbols
  deletionCosts_size : table.deletionCosts.size = table.symbols
  single_lt : ∀ (index : Nat) (symbol : UInt32),
    table.singlePointInsertions[index]? = some symbol → symbol.toNat < table.symbols
  fits : 2 * table.productionCount + table.stateCount ≤ 0x10000
  row : ∀ (state : Nat) (row : Array UInt16), table.actions[state]? = some row →
    row.size = table.symbols + 1 ∧ ∀ (symbol : Nat) (number : UInt16),
      row[symbol]? = some number → table.Leads (table.decode number.toNat)
  unwinding_size : table.unwinding.size = table.stateCount
  unwinding_lt : ∀ (state : Nat) (number : UInt16), table.unwinding[state]? = some number →
    number.toNat < table.productionCount + table.symbols
  symbolNames_size : table.symbolNames.size = 0 ∨ table.symbolNames.size = table.symbols
  linkNames_size : table.linkNames.size = 0 ∨ table.linkNames.size = table.productionCount

theorem checkAction_eq_ok_iff {state symbol : Nat} {number : UInt16} :
    table.checkAction state symbol number = .ok () ↔ table.Leads (table.decode number.toNat) := by
  rw [checkAction]
  cases table.decode number.toNat <;> simp [Leads]

theorem checkRow_eq_ok_iff {state : Nat} {row : Array UInt16} :
    table.checkRow state row = .ok () ↔
      row.size = table.symbols + 1 ∧ ∀ (symbol : Nat) (number : UInt16),
        row[symbol]? = some number → table.Leads (table.decode number.toNat) := by
  simp only [checkRow, and_then_eq_ok_iff, ensure_eq_ok_iff, ensureAll_eq_ok_iff,
    checkAction_eq_ok_iff]

/-- The check accepts exactly the tables that hold together. -/
theorem check_eq_ok_iff : table.check = .ok () ↔ table.Checked := by
  simp only [check, and_then_eq_ok_iff, ensure_eq_ok_iff, ensureAll_eq_ok_iff,
    checkRow_eq_ok_iff]
  constructor
  · rintro ⟨h₁, h₂, h₃, h₄, h₅, h₆, h₇, h₈, h₉, h₁₀, h₁₁, h₁₂, h₁₃, h₁₄, h₁₅, h₁₆, h₁₇⟩
    exact ⟨h₁, h₂, h₃, h₄, h₅, h₆, h₇, h₈, h₉, h₁₀, h₁₁, h₁₂, h₁₃, h₁₄, h₁₅, h₁₆, h₁₇⟩
  · rintro ⟨h₁, h₂, h₃, h₄, h₅, h₆, h₇, h₈, h₉, h₁₀, h₁₁, h₁₂, h₁₃, h₁₄, h₁₅, h₁₆, h₁₇⟩
    exact ⟨h₁, h₂, h₃, h₄, h₅, h₆, h₇, h₈, h₉, h₁₀, h₁₁, h₁₂, h₁₃, h₁₄, h₁₅, h₁₆, h₁₇⟩

/-- An action that the table can take further: to a state that it has, or by a production that it
has, and if the production reduces what was just shifted it reduces at least that. -/
def Admits (table : LrTable) : Action → Prop
  | .shift next => next < table.stateCount
  | .shiftReduce production =>
    production < table.productionCount ∧ ∃ behind, table.rhsLength production = .ok (behind + 1)
  | .reduce production => production < table.productionCount
  | .error => True

/-- An unwinding entry that names a production or a symbol of the table. -/
def AdmitsUnwinding (table : LrTable) : Unwinding → Prop
  | .reduce production => production < table.productionCount
  | .shift symbol => symbol < table.symbols

namespace Checked

variable (checked : table.Checked)
include checked

theorem rhsLength_ok {production : Nat} (known : production < table.productionCount) :
    table.rhsLength production = .ok table.productionRhsLength[production]!.toNat := by
  have inside : production < table.productionRhsLength.size := checked.rhsLength_size ▸ known
  simp [rhsLength, inside]

theorem param_ok {production : Nat} (known : production < table.productionCount) :
    ∃ param, table.param production = .ok param := by
  have inside : production < table.productionParam.size := checked.param_size ▸ known
  simp [param, inside]

omit checked in
theorem lhs_ok {production : Nat} (known : production < table.productionCount) :
    ∃ lhs, table.lhs production = .ok lhs := by
  have inside : production < table.productionLhs.size := known
  simp [lhs, inside]

omit checked in
theorem decode_reduce_lt {number production : Nat}
    (decoded : table.decode number = .reduce production) :
    production < table.productionCount := by
  rw [decode] at decoded
  grind

omit checked in
theorem decode_shiftReduce_lt {number production : Nat}
    (decoded : table.decode number = .shiftReduce production) :
    production < table.productionCount := by
  rw [decode] at decoded
  grind

theorem action_ok {state : Nat} (known : state < table.stateCount) (symbol : Nat) :
    ∃ action, table.action state symbol = .ok action ∧ table.Admits action := by
  have inside : state < table.actions.size := known
  have row := (checked.row state table.actions[state] (by simp)).2
  simp only [action, Run.lookup_of_lt inside, ok_bind]
  split
  next number found =>
    by_cases listed : symbol < table.symbols
    · simp only [if_pos listed]
      refine ⟨_, rfl, ?_⟩
      have leads := row symbol number found
      cases decoded : table.decode number.toNat with
      | shift next =>
        rw [decoded] at leads
        exact leads
      | reduce production => exact decode_reduce_lt decoded
      | error => trivial
      | shiftReduce production =>
        have below := decode_shiftReduce_lt decoded
        refine ⟨below, table.productionRhsLength[production]!.toNat - 1, ?_⟩
        have size : production < table.productionRhsLength.size := checked.rhsLength_size ▸ below
        have nonzero : table.productionRhsLength[production] ≠ 0 := by
          simpa [Leads, decoded, size] using leads
        have positive : table.productionRhsLength[production].toNat ≠ 0 := by
          intro zero
          exact nonzero (UInt32.toNat.inj zero)
        rw [checked.rhsLength_ok below]
        simp only [getElem!_pos, size]
        congr 1
        omega
    · simp only [if_neg listed]
      exact ⟨_, rfl, trivial⟩
  next => exact ⟨_, rfl, trivial⟩

theorem unwind_ok {state : Nat} (known : state < table.stateCount) :
    ∃ unwinding, table.unwind state = .ok unwinding ∧ table.AdmitsUnwinding unwinding := by
  have inside : state < table.unwinding.size := checked.unwinding_size ▸ known
  have bound := checked.unwinding_lt state table.unwinding[state] (by simp)
  simp only [unwind, Run.lookup_of_lt inside, ok_bind]
  refine ⟨_, rfl, ?_⟩
  split
  next below => exact below
  next above =>
    simp only [AdmitsUnwinding]
    omega

end Checked

/-- Lists of `a`: the grammar `S → L $`, `L → L a`, `L → a`, with symbols `a`, `b`, `$`, `L`, `S`.
No list has a `b` in it. -/
def lists : LrTable where
  symbolCount := 5
  productionLhs := #[4, 3, 3]
  productionRhsLength := #[2, 2, 1]
  productionParam := #[0, 1, 2]
  maxInsertion := 2
  maxDeletion := 2
  validationLength := 2
  singlePointInsertions := #[0]
  insertionCosts := #[0, 1, 1, 1, 1]
  deletionCosts := #[1, 1, 1, 1, 1]
  goalProduction := 0
  eofSymbol := 2
  actions := #[#[5, 6, 6, 7, 6, 6], #[4, 6, 3, 6, 6, 6]]
  unwinding := #[3, 5]
  symbolNames := #[]
  linkNames := #[]

theorem check_lists : lists.check = .ok () := rfl

end LrTable

end TableDriven
