import TableDriven.Proofs.Trial.Stack

/-! # Unwinding without a limit

The unwinding table asks for one reduction after the other until it names a terminal, if it ever
does.  `Unwinds` follows it through any number of reductions and `Unwound` says what comes of the
stack behind them.  A trial follows it through a limited number only: `expects_iff` says what it
finds out, and `expects_of_shrinks` that the limit is never met if every reduction that the table
asks for takes two symbols or more.
-/

namespace TableDriven.LrTable

variable {table : LrTable} {stack next last : StateStack} {expectation : Expectation}
  {production fuel count limit : Nat}

/-- Where a reduction leads, whatever fuel it takes. -/
def Lands (table : LrTable) (stack : StateStack) (production : Nat) (landing : Landing) : Prop :=
  ∃ fuel, table.land fuel stack production = .ok landing

/-- Following the unwinding table through `count` reductions. -/
inductive Unwinds (table : LrTable) : Nat → StateStack → StateStack → Prop where
  | done (stack : StateStack) : Unwinds table 0 stack stack
  | reduced {count state production : Nat} {stack next last : StateStack}
      (row : table.topRow? stack = some state)
      (asks : table.unwind state = .ok (.reduce production))
      (lands : table.Lands stack production (.landed next))
      (rest : Unwinds table count next last) : Unwinds table (count + 1) stack last

/-- Where the unwinding table leads without a further reduction. -/
inductive Unwound (table : LrTable) : StateStack → Expectation → Prop where
  | terminal {stack : StateStack} {state symbol : Nat} (row : table.topRow? stack = some state)
      (names : table.unwind state = .ok (.shift symbol)) :
      Unwound table stack (.terminal symbol stack)
  | astray {stack : StateStack} (row : table.topRow? stack = none) : Unwound table stack .nothing
  | stopped {stack : StateStack} {state production : Nat} {landing : Landing}
      (row : table.topRow? stack = some state)
      (asks : table.unwind state = .ok (.reduce production))
      (lands : table.Lands stack production landing)
      (nowhere : ∀ next, landing ≠ .landed next) : Unwound table stack .nothing

/-- A trial that runs out of entries has made as many reductions, and one that does not has come
to the end. -/
theorem unwinds_of_unwindWithin
    (unwound : table.unwindWithin fuel limit stack = .ok expectation) :
    (∃ count last, count < limit ∧ table.Unwinds count stack last ∧
        table.Unwound last expectation) ∨
      expectation = .lost ∧ ∃ last, table.Unwinds limit stack last := by
  induction limit generalizing stack with
  | zero =>
    cases unwound
    exact .inr ⟨rfl, stack, .done stack⟩
  | succ limit ih =>
    simp only [unwindWithin] at unwound
    split at unwound
    next row =>
      cases unwound
      exact .inl ⟨0, stack, Nat.succ_pos limit, .done stack, .astray row⟩
    next state row =>
      obtain ⟨unwinding, found, unwound⟩ := bind_eq_ok_iff.mp unwound
      cases unwinding with
      | shift symbol =>
        cases unwound
        exact .inl ⟨0, stack, Nat.succ_pos limit, .done stack, .terminal row found⟩
      | reduce production =>
        obtain ⟨landing, landed, unwound⟩ := bind_eq_ok_iff.mp unwound
        cases landing with
        | failed | accepted =>
          cases unwound
          have stops : table.Unwound stack .nothing := .stopped row found ⟨fuel, landed⟩ (by simp)
          exact .inl ⟨0, stack, Nat.succ_pos limit, .done stack, stops⟩
        | landed next =>
          obtain ⟨count, last, few, rest, ends⟩ | ⟨rfl, last, rest⟩ := ih unwound
          · have longer := Unwinds.reduced row found ⟨fuel, landed⟩ rest
            exact .inl ⟨count + 1, last, Nat.succ_lt_succ few, longer, ends⟩
          · exact .inr ⟨rfl, last, .reduced row found ⟨fuel, landed⟩ rest⟩

/-- In front of a reduction a trial takes one entry more. -/
theorem unwindWithin_succ_of_lands {state : Nat} (row : table.topRow? stack = some state)
    (asks : table.unwind state = .ok (.reduce production))
    (lands : table.Lands stack production (.landed next))
    (later : ∃ fuel, table.unwindWithin fuel limit next = .ok expectation) :
    ∃ fuel, table.unwindWithin fuel (limit + 1) stack = .ok expectation := by
  obtain ⟨fuel, landed⟩ := lands
  obtain ⟨enough, unwound⟩ := later
  refine ⟨max fuel enough, ?_⟩
  simp only [unwindWithin, row, asks, ok_bind, land_mono landed (Nat.le_max_left fuel enough)]
  exact unwindWithin_mono unwound (Nat.le_max_right fuel enough)

theorem unwindWithin_of_unwound (some : 0 < limit) (ends : table.Unwound stack expectation) :
    ∃ fuel, table.unwindWithin fuel limit stack = .ok expectation := by
  obtain ⟨limit, rfl⟩ : ∃ less, limit = less + 1 := ⟨limit - 1, by omega⟩
  cases ends with
  | terminal row names => exact ⟨0, by simp [unwindWithin, row, names]⟩
  | astray row => exact ⟨0, by simp [unwindWithin, row]⟩
  | @stopped _ _ landing row asks lands nowhere =>
    obtain ⟨fuel, landed⟩ := lands
    refine ⟨fuel, ?_⟩
    simp only [unwindWithin, row, asks, landed, ok_bind]
    cases landing with
    | failed | accepted => rfl
    | landed next => exact absurd rfl (nowhere next)

theorem unwindWithin_of_unwinds (unwinds : table.Unwinds count stack last) (few : count < limit)
    (ends : table.Unwound last expectation) :
    ∃ fuel, table.unwindWithin fuel limit stack = .ok expectation := by
  induction unwinds generalizing limit with
  | done stack => exact unwindWithin_of_unwound few ends
  | reduced row asks lands _ ih =>
    obtain ⟨limit, rfl⟩ : ∃ less, limit = less + 1 := ⟨limit - 1, by omega⟩
    exact unwindWithin_succ_of_lands row asks lands (ih (by omega) ends)

theorem unwindWithin_lost_of_unwinds (unwinds : table.Unwinds limit stack last) :
    ∃ fuel, table.unwindWithin fuel limit stack = .ok .lost := by
  induction unwinds with
  | done stack => exact ⟨0, rfl⟩
  | reduced row asks lands _ ih => exact unwindWithin_succ_of_lands row asks lands ih

/-- **What a trial finds out by unwinding.**  It comes to where the table leads if that takes no
more reductions than the stack is long and the table has states, and it is lost otherwise. -/
theorem expects_iff : table.Expects stack expectation ↔
    (∃ count last, count ≤ stack.length + table.stateCount ∧ table.Unwinds count stack last ∧
        table.Unwound last expectation) ∨
      expectation = .lost ∧
        ∃ last, table.Unwinds (stack.length + table.stateCount + 1) stack last := by
  constructor
  · rintro ⟨fuel, found⟩
    obtain ⟨count, last, few, unwinds, ends⟩ | lost := unwinds_of_unwindWithin found
    · exact .inl ⟨count, last, Nat.le_of_lt_succ few, unwinds, ends⟩
    · exact .inr lost
  · rintro (⟨count, last, few, unwinds, ends⟩ | ⟨rfl, last, unwinds⟩)
    · exact unwindWithin_of_unwinds unwinds (Nat.lt_succ_of_le few) ends
    · exact unwindWithin_lost_of_unwinds unwinds

/-- A reduction leaves a stack shorter by all but one of the symbols that it takes. -/
theorem length_of_land (checked : table.Checked) (reducible : table.Reducible stack production)
    {behind : Nat} (length : table.rhsLength production = .ok (behind + 1))
    (landed : table.land fuel stack production = .ok (.landed next)) :
    next.length + behind ≤ stack.length := by
  induction fuel generalizing stack production behind with
  | zero => contradiction
  | succ fuel ih =>
    simp only [land, length, ok_bind] at landed
    split at landed
    next => simp at landed
    next cell below uncovered =>
      have left : (stack.drop (behind + 1)).length = below.length + 1 := by
        rw [uncovered, List.length_cons]
      rw [List.length_drop] at left
      have valid : table.IsStack (cell :: below) := by
        rw [← uncovered]
        exact reducible.uncovers _ length (by simp [uncovered])
      split at landed
      next => simp at landed
      next =>
        obtain ⟨action, went, admits⟩ := reducible.goto_ok checked length uncovered
        simp only [went, ok_bind] at landed
        cases action with
        | shift state =>
          simp only [pure_eq_ok, Except.ok.injEq, Landing.landed.injEq] at landed
          rw [← landed, List.length_cons, List.length_cons]
          omega
        | shiftReduce further =>
          -- The production that the goto reduces by takes the new cell at least.
          have covered := valid.reducible_covered admits none
          obtain ⟨-, others, longer⟩ := admits
          have shorter := ih covered longer landed
          rw [List.length_cons, List.length_cons] at shorter
          omega
        | reduce | error => simp at landed

/-- Every reduction that the unwinding table asks for takes two symbols or more. -/
def Shrinks (table : LrTable) : Prop :=
  ∀ state production, table.unwind state = .ok (.reduce production) →
    ∃ behind, table.rhsLength production = .ok (behind + 2)

/-- Where reductions shorten the stack, there is one at most for each of its cells. -/
theorem Unwinds.count_le (unwinds : table.Unwinds count stack last) (checked : table.Checked)
    (shrinks : table.Shrinks) (valid : table.IsStack stack) :
    count + last.length ≤ stack.length := by
  induction unwinds with
  | done stack => exact Nat.le_of_eq (Nat.zero_add _)
  | @reduced _ state production _ _ _ row asks lands _ ih =>
    obtain ⟨fuel, landed⟩ := lands
    obtain ⟨behind, length⟩ := shrinks state production asks
    have known : state < table.stateCount := by
      obtain ⟨top, below, rfl, known, found⟩ := valid.topRow?_eq
      cases row.symm.trans found
      exact known
    obtain ⟨unwinding, found, admits⟩ := checked.unwind_ok known
    cases asks.symm.trans found
    have reducible := valid.reducible admits
    have shorter := length_of_land checked reducible length landed
    have rest := ih (land_isStack checked reducible landed)
    omega

theorem expects_of_shrinks (unwinds : table.Unwinds count stack last)
    (ends : table.Unwound last expectation) (checked : table.Checked) (shrinks : table.Shrinks)
    (valid : table.IsStack stack) : table.Expects stack expectation := by
  have few := unwinds.count_le checked shrinks valid
  exact expects_iff.mpr (.inl ⟨count, last, by omega, unwinds, ends⟩)

end TableDriven.LrTable
