import TableDriven.Proofs.LrTable.Checked
import TableDriven.Proofs.Trial.Fuel

/-! # Stacks of table states

The stacks that a parser has between its steps: every cell holds a state of the table and the
bottom one the initial state.  A cell without state exists only between a shift-reduce entry and
the reduction that it asks for.  That reduction takes the cell off, so what it uncovers is a stack
of table states again: `Reducible` says so, and `land_isStack` carries it through a chain of
shift-reduce gotos.
-/

namespace TableDriven.LrTable

variable {table : LrTable} {stack : StateStack} {production fuel : Nat}

/-- A stack of states of the table, the initial one at the bottom. -/
structure IsStack (table : LrTable) (stack : StateStack) : Prop where
  states : ∀ cell ∈ stack, ∃ state < table.stateCount, cell = some state
  bottom : stack.getLast? = some (some initialState)

theorem isStack_initial (known : initialState < table.stateCount) :
    table.IsStack [some initialState] where
  states := by
    intro cell member
    exact ⟨initialState, known, List.mem_singleton.mp member⟩
  bottom := rfl

theorem IsStack.exists_top (valid : table.IsStack stack) :
    ∃ state below, stack = some state :: below ∧ state < table.stateCount := by
  cases stack with
  | nil => simpa using valid.bottom
  | cons cell below =>
    obtain ⟨state, known, rfl⟩ := valid.states cell List.mem_cons_self
    exact ⟨state, below, rfl, known⟩

theorem IsStack.push (valid : table.IsStack stack) {state : Nat}
    (known : state < table.stateCount) :
    table.IsStack (some state :: stack) where
  states := by
    intro cell member
    cases member with
    | head => exact ⟨state, known, rfl⟩
    | tail _ member => exact valid.states cell member
  bottom := by rw [List.getLast?_cons, valid.bottom]; rfl

theorem IsStack.drop (valid : table.IsStack stack) {count : Nat} (left : stack.drop count ≠ []) :
    table.IsStack (stack.drop count) where
  states := fun cell member => valid.states cell (List.mem_of_mem_drop member)
  bottom := by
    have short : count < stack.length := by simpa using left
    rw [List.getLast?_drop, if_neg (by omega), valid.bottom]

/-- What a production of the table leaves of a stack, if anything, is a stack of table states. -/
structure Reducible (table : LrTable) (stack : StateStack) (production : Nat) : Prop where
  known : production < table.productionCount
  uncovers : ∀ length, table.rhsLength production = .ok length →
    stack.drop length ≠ [] → table.IsStack (stack.drop length)

theorem IsStack.reducible (valid : table.IsStack stack)
    (known : production < table.productionCount) :
    table.Reducible stack production :=
  ⟨known, fun _ _ left => valid.drop left⟩

/-- A production that reduces at least the cell on top may find any cell there. -/
theorem IsStack.reducible_covered (valid : table.IsStack stack)
    (admits : table.Admits (.shiftReduce production)) (cell : Option Nat) :
    table.Reducible (cell :: stack) production := by
  obtain ⟨known, behind, length⟩ := admits
  refine ⟨known, fun other found left => ?_⟩
  cases length.symm.trans found
  exact valid.drop left

/-- A reduction that goes on uncovers a state of the table and takes an action that it admits. -/
theorem Reducible.goto_ok (checked : table.Checked) (reducible : table.Reducible stack production)
    {length : Nat} (found : table.rhsLength production = .ok length) {cell : Option Nat}
    {below : StateStack} (uncovered : stack.drop length = cell :: below) :
    ∃ action, table.goto cell production = .ok action ∧ table.Admits action := by
  have valid : table.IsStack (cell :: below) := by
    rw [← uncovered]
    exact reducible.uncovers length found (by simp [uncovered])
  obtain ⟨state, known, rfl⟩ := valid.states cell List.mem_cons_self
  obtain ⟨lhs, named⟩ := Checked.lhs_ok reducible.known
  obtain ⟨action, went, admits⟩ := checked.action_ok known lhs
  exact ⟨action, by simp [goto, named, went], admits⟩

theorem land_isStack (checked : table.Checked) (reducible : table.Reducible stack production)
    {next : StateStack} (landed : table.land fuel stack production = .ok (.landed next)) :
    table.IsStack next := by
  induction fuel generalizing stack production with
  | zero => contradiction
  | succ fuel ih =>
    simp only [land, bind_eq_ok_iff] at landed
    obtain ⟨length, found, landed⟩ := landed
    split at landed
    next => simp at landed
    next cell below uncovered =>
      have valid : table.IsStack (cell :: below) := by
        rw [← uncovered]
        exact reducible.uncovers length found (by simp [uncovered])
      split at landed
      next => simp at landed
      next =>
        obtain ⟨action, went, admits⟩ := reducible.goto_ok checked found uncovered
        simp only [went, ok_bind] at landed
        cases action with
        | shift state =>
          simp only [pure_eq_ok, Except.ok.injEq, Landing.landed.injEq] at landed
          rw [← landed]
          exact valid.push admits
        | shiftReduce production => exact ih (valid.reducible_covered admits none) landed
        | reduce | error => simp at landed

theorem IsStack.topRow?_eq (valid : table.IsStack stack) :
    ∃ state below, stack = some state :: below ∧ state < table.stateCount ∧
      table.topRow? stack = some state := by
  obtain ⟨state, below, rfl, known⟩ := valid.exists_top
  exact ⟨state, below, rfl, known, by simp [topRow?, known]⟩

theorem resolve_ok (checked : table.Checked) {state : Nat} (known : state < table.stateCount)
    (symbol : Nat) :
    ∃ unwinding, table.resolve state symbol = .ok unwinding ∧
      ∀ production, unwinding = .reduce production → production < table.productionCount := by
  rw [resolve]
  split
  next =>
    obtain ⟨unwinding, found, admits⟩ := checked.unwind_ok known
    refine ⟨unwinding, found, ?_⟩
    rintro production rfl
    exact admits
  next => exact ⟨_, rfl, by simp⟩

/-- Shifting a symbol leaves a stack of table states. -/
theorem advance_isStack (checked : table.Checked) (valid : table.IsStack stack)
    {symbol terminal : Nat} {next : StateStack}
    (advanced : table.advance fuel stack symbol = .ok (.shifted terminal next)) :
    table.IsStack next := by
  induction fuel generalizing stack with
  | zero => contradiction
  | succ fuel ih =>
    obtain ⟨state, below, rfl, known, row⟩ := valid.topRow?_eq
    obtain ⟨unwinding, resolved, bounded⟩ := resolve_ok checked known symbol
    simp only [advance, row, resolved, ok_bind] at advanced
    cases unwinding with
    | reduce production =>
      simp only [bind_eq_ok_iff] at advanced
      obtain ⟨landing, landed, rest⟩ := advanced
      cases landing with
      | landed stack =>
        exact ih (land_isStack checked (valid.reducible (bounded _ rfl)) landed) rest
      | failed | accepted => simp at rest
    | shift named =>
      obtain ⟨action, found, admits⟩ := checked.action_ok known named
      simp only [found, ok_bind] at advanced
      cases action with
      | shift state =>
        simp only [pure_eq_ok, Except.ok.injEq, Outcome.shifted.injEq] at advanced
        rw [← advanced.2]
        exact valid.push admits
      | error => simp at advanced
      | reduce production =>
        simp only [bind_eq_ok_iff] at advanced
        obtain ⟨landing, landed, rest⟩ := advanced
        cases landing with
        | landed stack => exact ih (land_isStack checked (valid.reducible admits) landed) rest
        | failed | accepted => simp at rest
      | shiftReduce production =>
        simp only [bind_eq_ok_iff] at advanced
        obtain ⟨landing, landed, rest⟩ := advanced
        cases landing with
        | landed stack =>
          simp only [pure_eq_ok, Except.ok.injEq, Outcome.shifted.injEq] at rest
          rw [← rest.2]
          exact land_isStack checked (valid.reducible_covered admits none) landed
        | failed | accepted => simp at rest

/-- Only the marker is shifted as another symbol. -/
theorem advance_terminal_eq {symbol terminal : Nat} {next : StateStack}
    (unmarked : table.isMarker symbol = false)
    (advanced : table.advance fuel stack symbol = .ok (.shifted terminal next)) :
    terminal = symbol := by
  induction fuel generalizing stack with
  | zero => contradiction
  | succ fuel ih =>
    simp only [advance, resolve, unmarked, Bool.false_eq_true, if_false, pure_eq_ok, ok_bind]
      at advanced
    split at advanced
    next => cases advanced
    next state row =>
      obtain ⟨action, -, advanced⟩ := bind_eq_ok_iff.mp advanced
      cases action with
      | shift next =>
        cases advanced
        rfl
      | error => cases advanced
      | shiftReduce production =>
        obtain ⟨landing, -, advanced⟩ := bind_eq_ok_iff.mp advanced
        cases landing <;> cases advanced
        rfl
      | reduce production =>
        obtain ⟨landing, -, advanced⟩ := bind_eq_ok_iff.mp advanced
        cases landing with
        | failed | accepted => cases advanced
        | landed stack => exact ih advanced

theorem Advances.isStack (checked : table.Checked) (valid : table.IsStack stack)
    {symbol terminal : Nat} {next : StateStack}
    (advances : table.Advances stack symbol (.shifted terminal next)) : table.IsStack next := by
  obtain ⟨fuel, advanced⟩ := advances
  exact advance_isStack checked valid advanced

theorem Advances.terminal_eq {symbol terminal : Nat} {next : StateStack}
    (advances : table.Advances stack symbol (.shifted terminal next))
    (unmarked : table.isMarker symbol = false) : terminal = symbol := by
  obtain ⟨fuel, advanced⟩ := advances
  exact advance_terminal_eq unmarked advanced

theorem Checked.isMarker_single (checked : table.Checked) {symbol : Nat}
    (listed : symbol ∈ table.singlePointInsertions.toList.map UInt32.toNat) :
    table.isMarker symbol = false := by
  obtain ⟨number, member, rfl⟩ := List.mem_map.mp listed
  obtain ⟨index, found⟩ := List.getElem?_of_mem member
  have below := checked.single_lt index number (by simpa using found)
  simp [isMarker, marker]
  omega

end TableDriven.LrTable
