import TableDriven.Proofs.Feed.Ahead
import TableDriven.Proofs.Trial.Stack
import TableDriven.Repair.Search

/-! # Why computations break down

On a checked table, trials break down for lack of fuel only, and so does the search for a
repair (`Repair.search_fueled`): no row, entry or production is looked up that the table lacks.
A feed breaks down for lack of fuel or where one of its sources does.
-/

namespace TableDriven

open Run (BreaksOnly)

namespace LrTable

variable {table : LrTable} {stack : StateStack} {production : Nat} (checked : table.Checked)
include checked

theorem land_breaksOnly (reducible : table.Reducible stack production) (fuel : Nat) :
    (table.land fuel stack production).BreaksOnly (· = .fuel) := by
  induction fuel generalizing stack production with
  | zero => exact .error rfl
  | succ fuel ih =>
    have reduces := checked.rhsLength_ok reducible.known
    simp only [land, reduces, ok_bind]
    split
    next => exact .ok _
    next cell below uncovered =>
      have valid : table.IsStack (cell :: below) := by
        rw [← uncovered]
        exact reducible.uncovers _ reduces (by simp [uncovered])
      obtain ⟨action, went, admits⟩ := reducible.goto_ok checked reduces uncovered
      split
      next => exact .ok _
      next =>
        rw [went, ok_bind]
        cases action with
        | shiftReduce production => exact ih (valid.reducible_covered admits none)
        | shift | reduce | error => exact .ok _

variable (valid : table.IsStack stack)
include valid

theorem advance_breaksOnly (fuel symbol : Nat) :
    (table.advance fuel stack symbol).BreaksOnly (· = .fuel) := by
  induction fuel generalizing stack with
  | zero => exact .error rfl
  | succ fuel ih =>
    obtain ⟨state, below, rfl, known, row⟩ := valid.topRow?_eq
    obtain ⟨unwinding, resolved, bounded⟩ := resolve_ok checked known symbol
    -- Behind a reduction the symbol is tried again on the stack that it led to.
    have again {production : Nat} (reducible : table.Reducible (some state :: below) production)
        {stack : StateStack} (landed : table.land fuel (some state :: below) production =
          .ok (.landed stack)) : (table.advance fuel stack symbol).BreaksOnly (· = .fuel) :=
      ih (land_isStack checked reducible landed)
    simp only [advance, row, resolved, ok_bind]
    cases unwinding with
    | reduce production =>
      have reducible := valid.reducible (bounded production rfl)
      refine (land_breaksOnly checked reducible fuel).bind fun landing landed => ?_
      cases landing with
      | failed | accepted => exact .ok _
      | landed => exact again reducible landed
    | shift terminal =>
      obtain ⟨action, found, admits⟩ := checked.action_ok known terminal
      simp only [found, ok_bind]
      cases action with
      | shift | error => exact .ok _
      | reduce production =>
        have reducible := valid.reducible admits
        refine (land_breaksOnly checked reducible fuel).bind fun landing landed => ?_
        cases landing with
        | failed | accepted => exact .ok _
        | landed => exact again reducible landed
      | shiftReduce production =>
        refine (land_breaksOnly checked (valid.reducible_covered admits none) fuel).bind ?_
        intro landing _
        cases landing <;> exact .ok _

theorem unwindWithin_breaksOnly (fuel steps : Nat) :
    (table.unwindWithin fuel steps stack).BreaksOnly (· = .fuel) := by
  induction steps generalizing stack with
  | zero => exact .ok _
  | succ steps ih =>
    obtain ⟨state, below, rfl, known, row⟩ := valid.topRow?_eq
    obtain ⟨unwinding, found, admits⟩ := checked.unwind_ok known
    simp only [unwindWithin, row, found, ok_bind]
    cases unwinding with
    | shift => exact .ok _
    | reduce production =>
      have reducible := valid.reducible admits
      refine (land_breaksOnly checked reducible fuel).bind fun landing landed => ?_
      cases landing with
      | failed | accepted => exact .ok _
      | landed stack => exact ih (land_isStack checked reducible landed)

theorem expected_breaksOnly (fuel : Nat) :
    (table.expected fuel stack).BreaksOnly (· = .fuel) :=
  unwindWithin_breaksOnly checked valid fuel _

theorem unwindWithin_isStack {fuel steps symbol : Nat} {next : StateStack}
    (found : table.unwindWithin fuel steps stack = .ok (.terminal symbol next)) :
    table.IsStack next := by
  induction steps generalizing stack with
  | zero => cases found
  | succ steps ih =>
    obtain ⟨state, below, rfl, known, row⟩ := valid.topRow?_eq
    obtain ⟨unwinding, unwound, admits⟩ := checked.unwind_ok known
    simp only [unwindWithin, row, unwound, ok_bind] at found
    cases unwinding with
    | shift other =>
      cases found
      exact valid
    | reduce production =>
      obtain ⟨landing, landed, found⟩ := bind_eq_ok_iff.mp found
      cases landing with
      | failed | accepted => cases found
      | landed stack => exact ih (land_isStack checked (valid.reducible admits) landed) found

/-- Where the unwinding table leads to a terminal, it does so on a stack of table states. -/
theorem expected_isStack {fuel symbol : Nat} {next : StateStack}
    (found : table.expected fuel stack = .ok (.terminal symbol next)) : table.IsStack next :=
  unwindWithin_isStack checked valid found

end LrTable

/-! ## The search -/

namespace Repair

namespace Search

variable {α β : Type}

/-- A search that gives up for lack of fuel only. -/
def Fueled : Search α → Prop
  | .done _ => True
  | .ask (.symbol _) next => ∀ number, Fueled (next number)
  | .ask .lost next => Fueled (next ())
  | .ask (.broken why) _ => why = .fuel

theorem Fueled.bind {search : Search α} {next : α → Search β} (first : search.Fueled)
    (second : ∀ result, (next result).Fueled) : (search >>= next).Fueled := by
  induction search with
  | done result => exact second result
  | ask probe answered ih =>
    cases probe with
    | symbol distance => exact fun number => ih number (first number)
    | lost => exact ih () first
    | broken why => exact first

theorem fueled_symbol (distance : Nat) : (symbol distance).Fueled := fun _ => trivial

theorem fueled_ofRun_bind {run : Run α} {next : α → Search β} (breaks : run.BreaksOnly (· = .fuel))
    (second : ∀ result, run = .ok result → (next result).Fueled) : (ofRun run >>= next).Fueled := by
  cases run with
  | error why => exact breaks why rfl
  | ok result => exact second result rfl

end Search

open Search (fueled_symbol fueled_ofRun_bind)

variable {table : LrTable} {stack : StateStack} (checked : table.Checked)
  (valid : table.IsStack stack) (fuel : Nat)
include checked valid

theorem validate_fueled (count distance : Nat) :
    (validate table fuel count stack distance).Fueled := by
  induction count generalizing stack distance with
  | zero => trivial
  | succ count ih =>
    refine (fueled_symbol distance).bind fun symbol => ?_
    refine fueled_ofRun_bind (LrTable.advance_breaksOnly checked valid fuel symbol) ?_
    intro outcome advanced
    cases outcome with
    | error | accepted => trivial
    | shifted terminal next =>
      dsimp only
      split
      next => trivial
      next => exact ih (LrTable.advance_isStack checked valid advanced) _

theorem trySingles_fueled (deletions spent : Nat) (symbols : List Nat) (best : Option Repair) :
    (trySingles table fuel stack deletions spent symbols best).Fueled := by
  induction symbols generalizing best with
  | nil => trivial
  | cons symbol symbols ih =>
    simp only [trySingles]
    split
    next =>
      refine fueled_ofRun_bind (LrTable.advance_breaksOnly checked valid fuel symbol) ?_
      intro outcome advanced
      cases outcome with
      | error | accepted => exact ih _
      | shifted terminal next =>
        have valid := LrTable.advance_isStack checked valid advanced
        refine (validate_fueled checked valid fuel _ _).bind fun passed => ?_
        split <;> exact ih _
    next => exact ih _

theorem tryContinuation_fueled (deletions : Nat) (best : Option Repair) (left : Nat)
    (inserted : List Nat) (spent : Nat) :
    (tryContinuation table fuel deletions best left stack inserted spent).Fueled := by
  induction left generalizing stack inserted spent with
  | zero => trivial
  | succ left ih =>
    refine fueled_ofRun_bind (LrTable.expected_breaksOnly checked valid fuel) fun way found => ?_
    cases way with
    | nothing | lost => trivial
    | terminal symbol waiting =>
      have valid := LrTable.expected_isStack checked valid found
      dsimp only
      split
      next => trivial
      next =>
        refine fueled_ofRun_bind (LrTable.advance_breaksOnly checked valid fuel symbol) ?_
        intro outcome advanced
        cases outcome with
        | error | accepted => trivial
        | shifted terminal next =>
          have valid := LrTable.advance_isStack checked valid advanced
          refine (validate_fueled checked valid fuel _ _).bind fun passed => ?_
          split
          next => trivial
          next => exact ih valid _ _

theorem tryInsertions_fueled (deletions spent : Nat) (best : Option Repair) :
    (tryInsertions table fuel stack deletions spent best).Fueled :=
  (trySingles_fueled checked valid fuel _ _ _ _).bind fun best =>
    tryContinuation_fueled checked valid fuel _ best _ _ _

theorem tryDeletion_fueled (deletions : Nat) :
    (tryDeletion table fuel stack deletions).Fueled := by
  rw [tryDeletion]
  split
  next => trivial
  next => exact validate_fueled checked valid fuel _ _

theorem searchFrom_fueled (left deletions spent : Nat) (best : Option Repair) :
    (searchFrom table fuel stack left deletions spent best).Fueled := by
  induction left generalizing deletions spent best with
  | zero =>
    rw [searchFrom]
    split
    next => trivial
    next =>
      refine (tryDeletion_fueled checked valid fuel deletions).bind fun tried => ?_
      split
      next => trivial
      next => exact (tryInsertions_fueled checked valid fuel _ _ _).bind fun _ => trivial
  | succ left ih =>
    rw [searchFrom]
    split
    next => trivial
    next =>
      refine (tryDeletion_fueled checked valid fuel deletions).bind fun tried => ?_
      split
      next => trivial
      next =>
        refine (tryInsertions_fueled checked valid fuel _ _ _).bind fun best => ?_
        dsimp only
        split
        next => trivial
        next =>
          refine (fueled_symbol deletions).bind fun deleted => ?_
          split
          next => trivial
          next => exact ih _ _ _

/-- On a checked table the search for a repair gives up for lack of fuel only. -/
theorem search_fueled : (search table fuel stack).Fueled :=
  searchFrom_fueled checked valid fuel _ _ _ _

end Repair

namespace LrTable

/-- A reduction that is tried looks up nothing that the table lacks, and where it leads every cell
holds a state of the table. -/
def LandsWell (table : LrTable) (stack : StateStack) (production : Nat) : Prop :=
  ∀ fuel, (table.land fuel stack production).BreaksOnly (· = .fuel) ∧
    ∀ next, table.land fuel stack production = .ok (.landed next) → table.IsStack next

/-- All that is tried on a stack looks up nothing that the table lacks, and leads to stacks of table
states; a cell that has no state is taken off by the reduction that it is for. -/
structure TriesWell (table : LrTable) (stack : StateStack) : Prop where
  reduced : ∀ production < table.productionCount, table.LandsWell stack production
  shiftReduced : ∀ state symbol production, state < table.stateCount →
    table.action state symbol = .ok (.shiftReduce production) →
      table.LandsWell (none :: stack) production
  advances : ∀ fuel symbol, (table.advance fuel stack symbol).BreaksOnly (· = .fuel)
  advanced : ∀ fuel symbol terminal next,
    table.advance fuel stack symbol = .ok (.shifted terminal next) → table.IsStack next
  expects : ∀ fuel, (table.expected fuel stack).BreaksOnly (· = .fuel)
  expected : ∀ fuel symbol next,
    table.expected fuel stack = .ok (.terminal symbol next) → table.IsStack next
  searches : ∀ fuel, (Repair.search table fuel stack).Fueled

variable {table : LrTable} {stack : StateStack}

theorem Reducible.landsWell {production : Nat} (reducible : table.Reducible stack production)
    (checked : table.Checked) : table.LandsWell stack production :=
  fun fuel => ⟨land_breaksOnly checked reducible fuel, fun _ => land_isStack checked reducible⟩

theorem IsStack.triesWell (valid : table.IsStack stack) (checked : table.Checked) :
    table.TriesWell stack where
  reduced production known := (valid.reducible known).landsWell checked
  shiftReduced state symbol production known found := by
    obtain ⟨action, other, admits⟩ := checked.action_ok known symbol
    cases found.symm.trans other
    exact (valid.reducible_covered admits none).landsWell checked
  advances := advance_breaksOnly checked valid
  advanced _ _ _ _ := advance_isStack checked valid
  expects := expected_breaksOnly checked valid
  expected _ _ _ := expected_isStack checked valid
  searches := Repair.search_fueled checked valid

end LrTable

/-- Why a source can break down, and the lack of fuel. -/
def TokenSource.Breaks (σ V ε : Type) [TokenSource σ V ε] (why : Breakdown) : Prop :=
  why = .fuel ∨ ∃ fuel source, (TokenSource.next fuel source : Run (Pull σ V ε)) = .error why

namespace Feed

variable {σ ρ V ε : Type} [TokenSource σ V ε] [Resolver ρ σ V ε]

theorem poll_breaksOnly (feed : Feed σ ρ V ε) (fuel : Nat) :
    (feed.poll fuel).BreaksOnly (TokenSource.Breaks σ V ε) := by
  have source (source : σ) :
      (TokenSource.next fuel source : Run (Pull σ V ε)).BreaksOnly (TokenSource.Breaks σ V ε) :=
    fun why broken => .inr ⟨fuel, source, broken⟩
  obtain ⟨primary, frames, queue, eof, eofSymbol, sentinel, journal⟩ := feed
  cases frames with
  | cons frame outer =>
    refine (source frame.source).bind fun pull _ => ?_
    dsimp only
    split
    next => exact .ok _
    next => split <;> exact .ok _
  | nil =>
    cases eof with
    | some eof => exact .ok _
    | none =>
      cases primary with
      | none => exact .ok _
      | some primary =>
        refine (source primary).bind fun pull _ => ?_
        dsimp only
        split <;> exact .ok _

theorem pull_breaksOnly (feed : Feed σ ρ V ε) (fuel : Nat) :
    (feed.pull fuel).BreaksOnly (TokenSource.Breaks σ V ε) := by
  induction fuel generalizing feed with
  | zero => exact .error (.inl rfl)
  | succ fuel ih =>
    refine (poll_breaksOnly feed fuel).bind fun answer _ => ?_
    obtain ⟨answer, next⟩ := answer
    cases answer with
    | error fault => exact .ok _
    | ok filled =>
      cases filled with
      | true => exact .ok _
      | false => exact ih next

theorem next_breaksOnly (feed : Feed σ ρ V ε) (fuel : Nat) :
    (feed.next fuel).BreaksOnly (TokenSource.Breaks σ V ε) := by
  rw [Feed.next]
  split
  next => exact .ok _
  next =>
    refine (pull_breaksOnly feed fuel).bind fun answer pulled => ?_
    obtain ⟨answer, next⟩ := answer
    cases answer with
    | error fault => exact .ok _
    | ok done =>
      -- The pull has left a token that waits.
      dsimp only
      split
      next => exact .ok _
      next nothing =>
        exact absurd (next.queue.pop?_eq_none_iff.mp nothing) (waits_of_pull pulled)

theorem peek_breaksOnly (feed : Feed σ ρ V ε) (fuel distance : Nat) :
    (feed.peek fuel distance).BreaksOnly (TokenSource.Breaks σ V ε) := by
  induction fuel generalizing feed with
  | zero => exact .error (.inl rfl)
  | succ fuel ih =>
    rw [Feed.peek]
    split
    next => exact .ok _
    next =>
      refine (pull_breaksOnly feed fuel).bind fun answer _ => ?_
      obtain ⟨answer, next⟩ := answer
      cases answer with
      | error fault => exact .ok _
      | ok done => exact ih next

end Feed

end TableDriven
