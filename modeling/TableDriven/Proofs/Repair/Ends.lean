import TableDriven.Proofs.LrTable.Checked
import TableDriven.Proofs.Repair.Valid

/-! # The search ends

A search whose trials all end comes to an end itself, and it looks no further ahead than some
bound (`search_concludes`).  `Ends` asks this only of the trials that the search may make.
-/

namespace TableDriven.Repair

/-- The stacks on which a search tries the token at a distance: those behind an insertion, and
those behind tokens that were shifted after one. -/
inductive Tries (table : LrTable) (ahead : Nat → Nat → Prop) (start : StateStack) :
    StateStack → Nat → Prop where
  | inserted {insertion : Insertion} {next : StateStack} {distance : Nat}
      (inserts : Inserts table start insertion next) : Tries table ahead start next distance
  | shifted {stack next : StateStack} {distance symbol terminal : Nat}
      (tries : Tries table ahead start stack distance) (shown : ahead distance symbol)
      (advances : table.Advances stack symbol (.shifted terminal next)) :
      Tries table ahead start next (distance + 1)

/-- Every sequence of reductions that the search tries comes to an end. -/
structure Ends (table : LrTable) (ahead : Nat → Nat → Prop) (start : StateStack) : Prop where
  ahead : ∀ stack distance symbol, Tries table ahead start stack distance →
    ahead distance symbol → ∃ outcome, table.Advances stack symbol outcome
  single : ∀ symbol ∈ singles table, ∃ outcome, table.Advances start symbol outcome
  expects : ∀ symbols stack, Follows table start symbols stack →
    ∃ expectation, table.Expects stack expectation
  continued : ∀ symbols stack symbol waiting, Follows table start symbols stack →
    table.Expects stack (.terminal symbol waiting) →
      ∃ outcome, table.Advances waiting symbol outcome

variable {table : LrTable} {ahead : Nat → Nat → Prop} {start stack : StateStack}
  {best : Option Repair} {deletions spent : Nat}
  (ends : Ends table ahead start) (endless : ∀ distance, ∃ symbol, ahead distance symbol)

open Search (Concludes)

include ends endless

theorem validate_concludes {count distance : Nat} (tries : Tries table ahead start stack distance) :
    ∃ passed, Concludes ahead (fun fuel => validate table fuel count stack distance) passed := by
  induction count generalizing stack distance with
  | zero => exact ⟨true, .done true⟩
  | succ count ih =>
    obtain ⟨symbol, shown⟩ := endless distance
    obtain ⟨outcome, advances⟩ := ends.ahead stack distance symbol tries shown
    refine (Concludes.symbol shown).exists_bind ((Concludes.advance advances).exists_bind ?_)
    cases outcome with
    | error => exact ⟨false, .done false⟩
    | accepted => exact ⟨true, .done true⟩
    | shifted terminal next =>
      dsimp only
      split
      next => exact ⟨true, .done true⟩
      next => exact ih (.shifted tries shown advances)

theorem isValid_concludes {distance : Nat} (tries : Tries table ahead start stack distance) :
    ∃ passed, Concludes ahead (fun fuel => isValid table fuel stack distance) passed :=
  validate_concludes ends endless tries

theorem trySingles_concludes {symbols : List Nat}
    (listed : ∀ symbol ∈ symbols, symbol ∈ singles table) :
    ∃ result, Concludes ahead
      (fun fuel => trySingles table fuel start deletions spent symbols best) result := by
  induction symbols generalizing best with
  | nil => exact ⟨best, .done best⟩
  | cons symbol rest ih =>
    have later : ∀ other ∈ rest, other ∈ singles table :=
      fun other member => listed other (List.mem_cons_of_mem symbol member)
    simp only [trySingles]
    split
    next =>
      have member := listed symbol List.mem_cons_self
      obtain ⟨outcome, advances⟩ := ends.single symbol member
      refine (Concludes.advance advances).exists_bind ?_
      cases outcome with
      | accepted | error => exact ih later
      | shifted terminal next =>
        have tries : Tries table ahead start next deletions := .inserted (.single member advances)
        obtain ⟨passed, validated⟩ := isValid_concludes ends endless tries
        refine validated.exists_bind ?_
        cases passed with
        | true | false => exact ih later
    next => exact ih later

theorem tryContinuation_concludes {inserted : List Nat} {left : Nat}
    (follows : Follows table start inserted.reverse stack)
    (room : inserted.length + left = table.maxInsertion.toNat) :
    ∃ result, Concludes ahead
      (fun fuel => tryContinuation table fuel deletions best left stack inserted spent) result := by
  induction left generalizing stack inserted spent with
  | zero => exact ⟨best, .done best⟩
  | succ left ih =>
    obtain ⟨expectation, expects⟩ := ends.expects _ _ follows
    refine (Concludes.expected expects).exists_bind ?_
    cases expectation with
    | nothing => exact ⟨best, .done best⟩
    | lost => exact ⟨best, .lost (.done best)⟩
    | terminal symbol waiting =>
      dsimp only
      split
      next => exact ⟨best, .done best⟩
      next goes =>
        have other : symbol ≠ table.eof := by
          rintro rfl
          simp at goes
        obtain ⟨outcome, advances⟩ := ends.continued _ _ _ _ follows expects
        refine (Concludes.advance advances).exists_bind ?_
        cases outcome with
        | accepted | error => exact ⟨best, .done best⟩
        | shifted terminal next =>
          have longer : Follows table start (symbol :: inserted).reverse next := by
            rw [List.reverse_cons]
            exact follows.append (.cons expects other advances (.nil next))
          have short : (symbol :: inserted).reverse.length ≤ table.maxInsertion.toNat := by
            rw [List.length_reverse, List.length_cons]
            omega
          have tries : Tries table ahead start next deletions :=
            .inserted (.continuation (by simp) short longer)
          obtain ⟨passed, validated⟩ := isValid_concludes ends endless tries
          refine validated.exists_bind ?_
          cases passed with
          | true => exact ⟨_, .done _⟩
          | false => exact ih longer (by rw [List.length_cons]; omega)

theorem tryInsertions_concludes : ∃ result, Concludes ahead
    (fun fuel => tryInsertions table fuel start deletions spent best) result := by
  obtain ⟨middle, singles⟩ := trySingles_concludes ends endless fun _ member => member
  have follows : Follows table start [].reverse start := .nil start
  exact singles.exists_bind (tryContinuation_concludes ends endless follows (Nat.zero_add _))

theorem tryDeletion_concludes : ∃ tried, Concludes ahead
    (fun fuel => tryDeletion table fuel start deletions) tried := by
  simp only [tryDeletion]
  split
  next => exact ⟨false, .done false⟩
  next => exact isValid_concludes ends endless (.inserted .nothing)

theorem searchFrom_concludes {left deletions spent : Nat} {best : Option Repair} :
    ∃ result, Concludes ahead
      (fun fuel => searchFrom table fuel start left deletions spent best) result := by
  simp only [searchFrom.eq_def _ _ _ left]
  split
  next => exact ⟨best, .done best⟩
  next =>
  obtain ⟨tried, deleted⟩ := tryDeletion_concludes ends endless
  refine deleted.exists_bind ?_
  cases tried with
  | true => exact ⟨_, .done _⟩
  | false =>
  obtain ⟨middle, inserted⟩ := tryInsertions_concludes ends endless
  refine inserted.exists_bind ?_
  cases left with
  | zero => exact ⟨middle, .done middle⟩
  | succ left =>
    dsimp only
    split
    next => exact ⟨middle, .done middle⟩
    next =>
    obtain ⟨symbol, shown⟩ := endless deletions
    refine (Concludes.symbol shown).exists_bind ?_
    split
    next => exact ⟨middle, .done middle⟩
    next => exact searchFrom_concludes
termination_by left

/-- A search whose trials end comes to an end, on a stream without end. -/
theorem search_concludes : ∃ result, Concludes ahead (fun fuel => search table fuel start) result :=
  searchFrom_concludes ends endless

omit ends endless

open LrTable (lists)

/-- Behind a list every symbol is decided at once, and shifting one leaves a list. -/
theorem exists_advances_lists (symbol : Nat) :
    ∃ outcome, lists.Advances [some 1, some 0] symbol outcome ∧
      ∀ terminal next, outcome = .shifted terminal next → next = [some 1, some 0] := by
  rcases symbol with _ | _ | _ | _ | _ | _ | symbol
  · exact ⟨_, ⟨2, rfl⟩, by rintro terminal next ⟨⟩; rfl⟩
  all_goals exact ⟨_, ⟨2, rfl⟩, by rintro terminal next ⟨⟩⟩

theorem expects_lists : lists.Expects [some 1, some 0] (.terminal lists.eof [some 1, some 0]) :=
  ⟨1, rfl⟩

/-- The end of file is all that is expected behind a list. -/
theorem Follows.eq_of_lists {symbols : List Nat} {stack : StateStack}
    (follows : Follows lists [some 1, some 0] symbols stack) : stack = [some 1, some 0] := by
  cases follows with
  | nil => rfl
  | cons expects other =>
    cases expects.unique expects_lists
    contradiction

theorem Tries.eq_of_lists {ahead : Nat → Nat → Prop} {stack : StateStack} {distance : Nat}
    (tries : Tries lists ahead [some 1, some 0] stack distance) : stack = [some 1, some 0] := by
  induction tries with
  | inserted inserts =>
    cases inserts with
    | nothing => rfl
    | @single symbol terminal next listed advances =>
      obtain ⟨outcome, decided, stays⟩ := exists_advances_lists symbol
      exact stays terminal _ (decided.unique advances)
    | continuation some short follows => exact follows.eq_of_lists
  | @shifted stack next distance symbol terminal tries shown advances ih =>
    subst ih
    obtain ⟨outcome, decided, stays⟩ := exists_advances_lists symbol
    exact stays terminal next (decided.unique advances)

/-- Whatever comes behind a list, every trial of a search ends. -/
theorem ends_lists (ahead : Nat → Nat → Prop) : Ends lists ahead [some 1, some 0] where
  ahead := by
    intro stack distance symbol tries shown
    obtain rfl := tries.eq_of_lists
    obtain ⟨outcome, decided, -⟩ := exists_advances_lists symbol
    exact ⟨outcome, decided⟩
  single := by
    intro symbol listed
    obtain ⟨outcome, decided, -⟩ := exists_advances_lists symbol
    exact ⟨outcome, decided⟩
  expects := by
    intro symbols stack follows
    obtain rfl := follows.eq_of_lists
    exact ⟨_, expects_lists⟩
  continued := by
    intro symbols stack symbol waiting follows expects
    obtain rfl := follows.eq_of_lists
    cases expects.unique expects_lists
    obtain ⟨outcome, decided, -⟩ := exists_advances_lists lists.eof
    exact ⟨outcome, decided⟩

end TableDriven.Repair
