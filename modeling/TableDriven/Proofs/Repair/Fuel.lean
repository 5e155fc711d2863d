import TableDriven.Proofs.Repair.Answers

/-! # A search with more fuel

With more fuel a search asks the same and answers the same, except that it may go on where it was
given up before.  `Search.Extends` relates two such searches; it passes through `>>=`, so that it is
shown for `Repair.search` the way the search was put together.
-/

namespace TableDriven.Repair

namespace Search

/-- The second search does what the first does, as long as the first is not given up. -/
inductive Extends : Search α → Search α → Prop where
  | done (result : α) : Extends (.done result) (.done result)
  | ask {question : Probe} {next other : question.Answer → Search α}
      (rest : ∀ answer, Extends (next answer) (other answer)) :
      Extends (.ask question next) (.ask question other)
  | broken {why : Breakdown} {next : Empty → Search α} {other : Search α} :
      Extends (.ask (.broken why) next) other

theorem Extends.refl (search : Search α) : Extends search search := by
  induction search with
  | done result => exact .done result
  | ask question next ih => exact .ask ih

theorem Extends.bind {first second : Search α} {next other : α → Search β}
    (extended : Extends first second) (later : ∀ result, Extends (next result) (other result)) :
    Extends (first >>= next) (second >>= other) := by
  induction extended with
  | done result => exact later result
  | ask _ ih => exact .ask ih
  | broken => exact .broken

theorem extends_ofRun {run other : Run α} (more : ∀ result, run = .ok result → other = .ok result) :
    Extends (ofRun run) (ofRun other) := by
  cases run with
  | ok result =>
    rw [more result rfl]
    exact .done result
  | error why => exact .broken

end Search

open Search (Extends)

variable (table : LrTable) {fuel enough : Nat} (more : fuel ≤ enough)
include more

theorem advance_extends (stack : StateStack) (symbol : Nat) :
    Extends (Search.ofRun (table.advance fuel stack symbol))
      (Search.ofRun (table.advance enough stack symbol)) :=
  Search.extends_ofRun fun _ advanced => LrTable.advance_mono advanced more

theorem expected_extends (stack : StateStack) :
    Extends (Search.ofRun (table.expected fuel stack))
      (Search.ofRun (table.expected enough stack)) :=
  Search.extends_ofRun fun _ found => LrTable.expected_mono found more

theorem validate_extends (count : Nat) (stack : StateStack) (distance : Nat) :
    Extends (validate table fuel count stack distance)
      (validate table enough count stack distance) := by
  induction count generalizing stack distance with
  | zero => exact .done true
  | succ count ih =>
    refine (Extends.refl _).bind fun symbol => ?_
    refine (advance_extends table more stack symbol).bind fun outcome => ?_
    cases outcome with
    | error | accepted => exact .done _
    | shifted terminal next =>
      dsimp only
      split
      next => exact .done true
      next => exact ih next (distance + 1)

theorem isValid_extends (stack : StateStack) (distance : Nat) :
    Extends (isValid table fuel stack distance) (isValid table enough stack distance) :=
  validate_extends table more (demand table) stack distance

theorem trySingles_extends (stack : StateStack) (deletions spent : Nat) (symbols : List Nat)
    (best : Option Repair) :
    Extends (trySingles table fuel stack deletions spent symbols best)
      (trySingles table enough stack deletions spent symbols best) := by
  induction symbols generalizing best with
  | nil => exact .done best
  | cons symbol rest ih =>
    simp only [trySingles]
    split
    next =>
      refine (advance_extends table more stack symbol).bind fun outcome => ?_
      cases outcome with
      | accepted | error => exact ih best
      | shifted terminal next =>
        refine (isValid_extends table more next deletions).bind fun passed => ?_
        cases passed with
        | true | false => exact ih _
    next => exact ih best

theorem tryContinuation_extends (deletions : Nat) (best : Option Repair) (left : Nat)
    (stack : StateStack) (inserted : List Nat) (spent : Nat) :
    Extends (tryContinuation table fuel deletions best left stack inserted spent)
      (tryContinuation table enough deletions best left stack inserted spent) := by
  induction left generalizing stack inserted spent with
  | zero => exact .done best
  | succ left ih =>
    refine (expected_extends table more stack).bind fun expectation => ?_
    cases expectation with
    | nothing => exact .done best
    | lost => exact .refl _
    | terminal symbol waiting =>
      dsimp only
      split
      next => exact .done best
      next =>
        refine (advance_extends table more waiting symbol).bind fun outcome => ?_
        cases outcome with
        | accepted | error => exact .done best
        | shifted terminal next =>
          refine (isValid_extends table more next deletions).bind fun passed => ?_
          cases passed with
          | true => exact .done _
          | false => exact ih _ _ _

theorem tryInsertions_extends (stack : StateStack) (deletions spent : Nat)
    (best : Option Repair) :
    Extends (tryInsertions table fuel stack deletions spent best)
      (tryInsertions table enough stack deletions spent best) :=
  (trySingles_extends table more stack deletions spent _ best).bind fun _ =>
    tryContinuation_extends table more deletions _ _ stack [] spent

theorem tryDeletion_extends (stack : StateStack) (deletions : Nat) :
    Extends (tryDeletion table fuel stack deletions)
      (tryDeletion table enough stack deletions) := by
  simp only [tryDeletion]
  split
  next => exact .done false
  next => exact isValid_extends table more stack deletions

theorem searchFrom_extends (stack : StateStack) (left deletions spent : Nat)
    (best : Option Repair) :
    Extends (searchFrom table fuel stack left deletions spent best)
      (searchFrom table enough stack left deletions spent best) := by
  rw [searchFrom.eq_def table fuel, searchFrom.eq_def table enough]
  dsimp only
  split
  next => exact .done best
  next =>
  refine (tryDeletion_extends table more stack deletions).bind fun tried => ?_
  cases tried with
  | true => exact .done _
  | false =>
  refine (tryInsertions_extends table more stack deletions spent best).bind fun best => ?_
  cases left with
  | zero => exact .done best
  | succ left =>
    dsimp only
    split
    next => exact .done best
    next =>
    refine (Extends.refl _).bind fun deleted => ?_
    split
    next => exact .done best
    next => exact searchFrom_extends stack left _ _ best
termination_by left

/-- A search with more fuel goes on wherever it is given up with less. -/
theorem search_extends (stack : StateStack) :
    Extends (search table fuel stack) (search table enough stack) :=
  searchFrom_extends table more stack _ 0 0 none

end TableDriven.Repair
