import TableDriven.Repair.Trial

/-! # Trials without fuel

A trial that ends does so whatever fuel is left over, so what it ends in is a relation between a
stack, a symbol and an outcome.  `Advances` and `Expects` are these relations; both are
functional.
-/

namespace TableDriven.LrTable

variable {table : LrTable} {fuel enough : Nat} {stack : StateStack}

theorem land_mono {production : Nat} {landing : Landing}
    (landed : table.land fuel stack production = .ok landing) (more : fuel ≤ enough) :
    table.land enough stack production = .ok landing := by
  induction fuel generalizing stack production enough with
  | zero => contradiction
  | succ fuel ih =>
    obtain ⟨enough, rfl⟩ : ∃ less, enough = less + 1 := ⟨enough - 1, by omega⟩
    simp only [land, bind_eq_ok_iff] at landed ⊢
    obtain ⟨length, known, landed⟩ := landed
    refine ⟨length, known, ?_⟩
    split at landed
    next => exact landed
    next =>
      split at landed
      next goal => rw [if_pos goal]; exact landed
      next other =>
        rw [if_neg other]
        simp only [bind_eq_ok_iff] at landed ⊢
        obtain ⟨action, went, landed⟩ := landed
        refine ⟨action, went, ?_⟩
        cases action with
        | shiftReduce production => exact ih landed (by omega)
        | shift | reduce | error => exact landed

/-- What is done with a landing may want more fuel as well. -/
theorem land_bind_mono {first second : Landing → Run α} {production : Nat} {result : α}
    (more : fuel ≤ enough)
    (later : ∀ landing, first landing = .ok result → second landing = .ok result)
    (landed : table.land fuel stack production >>= first = .ok result) :
    table.land enough stack production >>= second = .ok result := by
  obtain ⟨landing, landed, rest⟩ := bind_eq_ok_iff.mp landed
  rw [land_mono landed more, ok_bind]
  exact later landing rest

theorem advance_mono {symbol : Nat} {outcome : Outcome}
    (advanced : table.advance fuel stack symbol = .ok outcome) (more : fuel ≤ enough) :
    table.advance enough stack symbol = .ok outcome := by
  induction fuel generalizing stack enough with
  | zero => contradiction
  | succ fuel ih =>
    obtain ⟨enough, rfl⟩ : ∃ less, enough = less + 1 := ⟨enough - 1, by omega⟩
    have more : fuel ≤ enough := by omega
    simp only [advance] at advanced ⊢
    split at advanced
    next => exact advanced
    next state row =>
      obtain ⟨unwinding, resolved, advanced⟩ := bind_eq_ok_iff.mp advanced
      refine bind_eq_ok_iff.mpr ⟨unwinding, resolved, ?_⟩
      cases unwinding with
      | reduce production =>
        refine land_bind_mono more (fun landing rest => ?_) advanced
        cases landing with
        | landed stack => exact ih rest more
        | failed | accepted => exact rest
      | shift terminal =>
        obtain ⟨action, found, advanced⟩ := bind_eq_ok_iff.mp advanced
        refine bind_eq_ok_iff.mpr ⟨action, found, ?_⟩
        cases action with
        | reduce production =>
          refine land_bind_mono more (fun landing rest => ?_) advanced
          cases landing with
          | landed stack => exact ih rest more
          | failed | accepted => exact rest
        | shiftReduce production => exact land_bind_mono more (fun landing rest => rest) advanced
        | shift | error => exact advanced

theorem unwindWithin_mono {steps : Nat} {expectation : Expectation}
    (unwound : table.unwindWithin fuel steps stack = .ok expectation) (more : fuel ≤ enough) :
    table.unwindWithin enough steps stack = .ok expectation := by
  induction steps generalizing stack with
  | zero => exact unwound
  | succ steps ih =>
    simp only [unwindWithin] at unwound ⊢
    split at unwound
    next => exact unwound
    next state row =>
      simp only [bind_eq_ok_iff] at unwound ⊢
      obtain ⟨unwinding, found, unwound⟩ := unwound
      refine ⟨unwinding, found, ?_⟩
      cases unwinding with
      | shift => exact unwound
      | reduce production =>
        simp only [bind_eq_ok_iff] at unwound ⊢
        obtain ⟨landing, landed, rest⟩ := unwound
        refine ⟨landing, land_mono landed more, ?_⟩
        cases landing with
        | landed stack => exact ih rest
        | failed | accepted => exact rest

theorem expected_mono {expectation : Expectation}
    (found : table.expected fuel stack = .ok expectation) (more : fuel ≤ enough) :
    table.expected enough stack = .ok expectation :=
  unwindWithin_mono found more

/-- What becomes of a symbol on a stack. -/
def Advances (table : LrTable) (stack : StateStack) (symbol : Nat) (outcome : Outcome) : Prop :=
  ∃ fuel, table.advance fuel stack symbol = .ok outcome

/-- Where following the unwinding table from a stack leads. -/
def Expects (table : LrTable) (stack : StateStack) (expectation : Expectation) : Prop :=
  ∃ fuel, table.expected fuel stack = .ok expectation

theorem Advances.unique {symbol : Nat} {outcome other : Outcome}
    (first : table.Advances stack symbol outcome) (second : table.Advances stack symbol other) :
    outcome = other := by
  obtain ⟨fuel, first⟩ := first
  obtain ⟨enough, second⟩ := second
  have first := advance_mono first (Nat.le_max_left fuel enough)
  have second := advance_mono second (Nat.le_max_right fuel enough)
  exact Except.ok.inj (first.symm.trans second)

theorem Expects.unique {expectation other : Expectation}
    (first : table.Expects stack expectation) (second : table.Expects stack other) :
    expectation = other := by
  obtain ⟨fuel, first⟩ := first
  obtain ⟨enough, second⟩ := second
  have first := expected_mono first (Nat.le_max_left fuel enough)
  have second := expected_mono second (Nat.le_max_right fuel enough)
  exact Except.ok.inj (first.symm.trans second)

end TableDriven.LrTable
