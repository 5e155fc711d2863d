import TableDriven.Proofs.Repair.Valid
import TableDriven.Proofs.Trial.Stack

/-! # Markers, tried

A search that inserts a continuation feeds the terminal that the unwinding table names through the
reductions in front of it, while a marker asks the unwinding table afresh after every reduction.
`Resolves` tries the markers.  On a `Steady` table, where a state that names a terminal needs no
reduction to shift it, the two come to the same (`resolves_of_follows`).
-/

namespace TableDriven

open TableDriven.Repair (Follows)

namespace LrTable

variable {table : LrTable} {stack waiting next last : StateStack} {symbol fuel : Nat}
  {symbols : List Nat}

/-- Markers, tried one after the other, are shifted as these symbols. -/
inductive Resolves (table : LrTable) : StateStack → List Nat → StateStack → Prop where
  | nil (stack : StateStack) : Resolves table stack [] stack
  | cons {stack next last : StateStack} {symbol : Nat} {symbols : List Nat}
      (advances : table.Advances stack table.markerNumber.toNat (.shifted symbol next))
      (rest : Resolves table next symbols last) : Resolves table stack (symbol :: symbols) last

/-- A state that names a terminal never reduces in front of it. -/
def Steady (table : LrTable) : Prop :=
  ∀ state symbol production, table.unwind state = .ok (.shift symbol) →
    table.action state symbol ≠ .ok (.reduce production)

theorem resolve_marker (table : LrTable) (state : Nat) :
    table.resolve state table.marker = table.unwind state := by
  simp [resolve, isMarker]

theorem resolve_unmarked (unmarked : table.isMarker symbol = false) (state : Nat) :
    table.resolve state symbol = .ok (.shift symbol) := by
  rw [resolve, unmarked]
  rfl

theorem lt_of_topRow? {state : Nat} (row : table.topRow? stack = some state) :
    state < table.stateCount := by
  simp only [topRow?] at row
  grind

/-- Where the terminal is shifted that a state names, the marker is shifted as this terminal. -/
theorem advance_marker_eq (steady : table.Steady) {state : Nat}
    (row : table.topRow? stack = some state)
    (names : table.unwind state = .ok (.shift symbol)) (unmarked : table.isMarker symbol = false)
    (fuel : Nat) : table.advance fuel stack table.marker = table.advance fuel stack symbol := by
  cases fuel with
  | zero => rfl
  | succ fuel =>
    simp only [advance, row, resolve_marker, resolve_unmarked unmarked, names, ok_bind]
    cases found : table.action state symbol with
    | error why => rfl
    | ok action =>
      cases action with
      | reduce production => exact absurd found (steady state symbol production names)
      | shift | shiftReduce | error => rfl

/-- A reduction that the unwinding table asks for is made in front of a marker. -/
theorem advance_marker_of_reduce {state production : Nat} {outcome : Outcome}
    (row : table.topRow? stack = some state)
    (asks : table.unwind state = .ok (.reduce production))
    (landed : table.land fuel stack production = .ok (.landed next))
    (advances : table.Advances next table.marker outcome) :
    table.Advances stack table.marker outcome := by
  obtain ⟨enough, advanced⟩ := advances
  refine ⟨max fuel enough + 1, ?_⟩
  simp only [advance, row, resolve_marker, asks, ok_bind,
    land_mono landed (Nat.le_max_left fuel enough)]
  exact advance_mono advanced (Nat.le_max_right fuel enough)

theorem unmarked_of_unwindWithin (checked : table.Checked) {steps : Nat}
    (unwound : table.unwindWithin fuel steps stack = .ok (.terminal symbol waiting)) :
    table.isMarker symbol = false := by
  induction steps generalizing stack with
  | zero => cases unwound
  | succ steps ih =>
    simp only [unwindWithin] at unwound
    split at unwound
    next => cases unwound
    next state row =>
      obtain ⟨unwinding, found, unwound⟩ := bind_eq_ok_iff.mp unwound
      cases unwinding with
      | shift named =>
        cases unwound
        obtain ⟨entry, same, bounded⟩ := checked.unwind_ok (lt_of_topRow? row)
        cases found.symm.trans same
        simpa [isMarker, marker] using Nat.ne_of_lt bounded
      | reduce production =>
        obtain ⟨landing, landed, unwound⟩ := bind_eq_ok_iff.mp unwound
        cases landing with
        | failed | accepted => cases unwound
        | landed next => exact ih unwound

theorem advances_marker_of_unwindWithin (steady : table.Steady) {steps : Nat} {outcome : Outcome}
    (unwound : table.unwindWithin fuel steps stack = .ok (.terminal symbol waiting))
    (unmarked : table.isMarker symbol = false)
    (advances : table.Advances waiting symbol outcome) :
    table.Advances stack table.marker outcome := by
  induction steps generalizing stack with
  | zero => cases unwound
  | succ steps ih =>
    simp only [unwindWithin] at unwound
    split at unwound
    next => cases unwound
    next state row =>
      obtain ⟨unwinding, found, unwound⟩ := bind_eq_ok_iff.mp unwound
      cases unwinding with
      | shift named =>
        cases unwound
        obtain ⟨fuel, advanced⟩ := advances
        exact ⟨fuel, (advance_marker_eq steady row found unmarked fuel).trans advanced⟩
      | reduce production =>
        obtain ⟨landing, landed, unwound⟩ := bind_eq_ok_iff.mp unwound
        cases landing with
        | failed | accepted => cases unwound
        | landed next => exact advance_marker_of_reduce row found landed (ih unwound)

/-- **Steady tables do not change their mind.**  The terminals that the search expects are those
that the markers are shifted as, and lead to the same stack. -/
theorem resolves_of_follows (checked : table.Checked) (steady : table.Steady)
    (fits : table.symbols < UInt32.size) (follows : Follows table stack symbols last) :
    table.Resolves stack symbols last := by
  have number : table.markerNumber.toNat = table.marker := by
    rw [markerNumber, UInt32.toNat_ofNat', Nat.mod_eq_of_lt fits, marker]
  induction follows with
  | nil stack => exact .nil stack
  | cons expects other advances _ ih =>
    obtain ⟨fuel, unwound⟩ := expects
    have unmarked := unmarked_of_unwindWithin checked unwound
    have advanced := advances_marker_of_unwindWithin steady unwound unmarked advances
    obtain rfl := advances.terminal_eq unmarked
    exact .cons (number ▸ advanced) ih

end LrTable

end TableDriven
