import TableDriven.Proofs.Repair.Valid

/-! # How far a search looks ahead

`Search.Within` says of a search that all its questions, if they are answered truly, are about
tokens at certain distances.  It passes through `>>=`, so it is shown of `Repair.search` the way the
search was put together: a search looks no further ahead than repairs can delete and must parse
behind, and never past an end of file (`search_within`), for none is deleted and a trial stops
behind one.
-/

namespace TableDriven.Repair

/-- A search asks only for tokens at such distances. -/
inductive Search.Within (ahead : Nat → Nat → Prop) (allowed : Nat → Prop) : Search α → Prop where
  | done (result : α) : Within ahead allowed (.done result)
  | symbol {distance : Nat} {next : Nat → Search α} (near : allowed distance)
      (rest : ∀ number, ahead distance number → Within ahead allowed (next number)) :
      Within ahead allowed (.ask (.symbol distance) next)
  | lost {next : Unit → Search α} (rest : Within ahead allowed (next ())) :
      Within ahead allowed (.ask .lost next)
  | broken {why : Breakdown} {next : Empty → Search α} :
      Within ahead allowed (.ask (.broken why) next)

namespace Search

variable {ahead : Nat → Nat → Prop} {allowed : Nat → Prop}

theorem Within.bind {search : Search α} {next : α → Search β} (within : search.Within ahead allowed)
    (later : ∀ result, search.Answers ahead result → (next result).Within ahead allowed) :
    (search >>= next).Within ahead allowed := by
  induction within with
  | done result => exact later result (.done result)
  | symbol near _ ih =>
    exact .symbol near fun number shown => ih number shown fun result answers =>
      later result (.symbol shown answers)
  | lost _ ih => exact .lost (ih fun result answers => later result (.lost answers))
  | broken => exact .broken

theorem within_symbol {distance : Nat} (near : allowed distance) :
    (symbol distance).Within ahead allowed :=
  .symbol near fun number _ => .done number

theorem within_ofRun (run : Run α) : (ofRun run).Within ahead allowed := by
  cases run with
  | ok result => exact .done result
  | error why => exact .broken

end Search

/-- No end of file is nearer. -/
def Clear (table : LrTable) (ahead : Nat → Nat → Prop) (distance : Nat) : Prop :=
  ∀ nearer number, nearer < distance → ahead nearer number → number ≠ table.eof

/-- A distance at which a search may look: not as far as repairs can delete and must parse behind,
and no end of file is nearer. -/
structure InView (table : LrTable) (ahead : Nat → Nat → Prop) (distance : Nat) : Prop where
  near : distance < table.maxDeletion.toNat + demand table
  clear : Clear table ahead distance

variable {table : LrTable} {ahead : Nat → Nat → Prop} {start stack : StateStack}
  {best : Option Repair} {fuel distance deletions spent : Nat}

theorem clear_zero : Clear table ahead 0 :=
  fun _ _ near => absurd near (Nat.not_lt_zero _)

theorem Clear.succ {symbol : Nat} (clear : Clear table ahead distance)
    (unique : Unambiguous ahead) (shown : ahead distance symbol) (other : symbol ≠ table.eof) :
    Clear table ahead (distance + 1) := by
  intro nearer number near told
  obtain before | rfl := Nat.lt_succ_iff_lt_or_eq.mp near
  · exact clear nearer number before told
  · exact unique _ _ _ told shown ▸ other

section
variable (unique : Unambiguous ahead)
include unique

theorem validate_within {count : Nat} (clear : Clear table ahead distance)
    (near : distance + count ≤ table.maxDeletion.toNat + demand table) :
    (validate table fuel count stack distance).Within ahead (InView table ahead) := by
  induction count generalizing stack distance with
  | zero => exact .done true
  | succ count ih =>
    refine (Search.within_symbol ⟨by omega, clear⟩).bind fun symbol answers => ?_
    have shown := Search.answers_symbol_iff.mp answers
    refine (Search.within_ofRun _).bind fun outcome _ => ?_
    cases outcome with
    | error | accepted => exact .done _
    | shifted terminal next =>
      dsimp only
      split
      next => exact .done true
      next other => exact ih (clear.succ unique shown other) (by omega)

section
variable (clear : Clear table ahead deletions) (allowed : deletions ≤ table.maxDeletion.toNat)
include clear allowed

theorem isValid_within :
    (isValid table fuel stack deletions).Within ahead (InView table ahead) :=
  validate_within unique clear (by omega)

theorem trySingles_within (symbols : List Nat) :
    (trySingles table fuel start deletions spent symbols best).Within ahead
      (InView table ahead) := by
  induction symbols generalizing best with
  | nil => exact .done best
  | cons symbol rest ih =>
    simp only [trySingles]
    split
    next =>
      refine (Search.within_ofRun _).bind fun outcome _ => ?_
      cases outcome with
      | accepted | error => exact ih
      | shifted terminal next =>
        refine (isValid_within unique clear allowed).bind fun passed _ => ?_
        cases passed with
        | true | false => exact ih
    next => exact ih

theorem tryContinuation_within (left : Nat) (inserted : List Nat) :
    (tryContinuation table fuel deletions best left stack inserted spent).Within ahead
      (InView table ahead) := by
  induction left generalizing stack inserted spent with
  | zero => exact .done best
  | succ left ih =>
    refine (Search.within_ofRun _).bind fun expectation _ => ?_
    cases expectation with
    | nothing => exact .done best
    | lost => exact .lost (.done best)
    | terminal symbol waiting =>
      dsimp only
      split
      next => exact .done best
      next =>
        refine (Search.within_ofRun _).bind fun outcome _ => ?_
        cases outcome with
        | accepted | error => exact .done best
        | shifted terminal next =>
          refine (isValid_within unique clear allowed).bind fun passed _ => ?_
          cases passed with
          | true => exact .done _
          | false => exact ih _

theorem tryInsertions_within :
    (tryInsertions table fuel start deletions spent best).Within ahead (InView table ahead) :=
  (trySingles_within unique clear allowed _).bind fun _ _ =>
    tryContinuation_within unique clear allowed _ _

theorem tryDeletion_within :
    (tryDeletion table fuel start deletions).Within ahead (InView table ahead) := by
  simp only [tryDeletion]
  split
  next => exact .done false
  next => exact isValid_within unique clear allowed

end

theorem searchFrom_within {left deletions spent : Nat} {best : Option Repair}
    (clear : Clear table ahead deletions)
    (allowed : deletions + left ≤ table.maxDeletion.toNat) :
    (searchFrom table fuel start left deletions spent best).Within ahead (InView table ahead) := by
  rw [searchFrom.eq_def]
  dsimp only
  split
  next => exact .done best
  next =>
  refine (tryDeletion_within unique clear (by omega)).bind fun tried _ => ?_
  cases tried with
  | true => exact .done _
  | false =>
  refine (tryInsertions_within unique clear (by omega)).bind fun best _ => ?_
  cases left with
  | zero => exact .done best
  | succ left =>
    dsimp only
    split
    next => exact .done best
    next =>
    refine (Search.within_symbol ⟨by omega, clear⟩).bind fun deleted answers => ?_
    have shown := Search.answers_symbol_iff.mp answers
    split
    next => exact .done best
    next spared =>
      have other : deleted ≠ table.eof := by
        rintro rfl
        simp at spared
      exact searchFrom_within (clear.succ unique shown other) (by omega)
termination_by left

/-- A search looks only at what is in view. -/
theorem search_within :
    (search table fuel start).Within ahead (InView table ahead) :=
  searchFrom_within unique clear_zero (by omega)

end

end TableDriven.Repair
