import TableDriven.Parser.Parse
import TableDriven.Proofs.Alike
import TableDriven.Proofs.Trial.Stack

/-! # Reductions, made and tried

`Parse.reduce` makes a reduction and its value, `LrTable.land` tries it on the states.  `Mirrors`
says what a trial knows of a parse; on a checked table the two use up their fuel together and end
in the same way (`reduce_alike`).
-/

namespace TableDriven

open TableDriven.Parser
open TableDriven.LrTable (Landing)

namespace Parser

variable {V α : Type}

theorem map_state_dropValue (stack : List (Cell V)) (rhsLength : Nat) (offset : Int) :
    (dropValue stack rhsLength offset).map Cell.state = stack.map Cell.state := by
  unfold dropValue
  split
  next => rfl
  next depth inside =>
    apply List.ext_getElem?
    intro index
    rw [List.getElem?_map, List.getElem?_map, List.getElem?_modify]
    cases stack[index]? with
    | none => rfl
    | some cell =>
      simp only [Option.map_eq_map, Option.map_some]
      split <;> rfl

/-- Following a recipe takes values off the stack and leaves the states. -/
theorem map_state_follow (rhsLength : Nat) (recipe : Recipe V α) (stack : List (Cell V)) :
    (follow rhsLength recipe stack).2.map Cell.state = stack.map Cell.state := by
  induction recipe generalizing stack with
  | done result => rfl
  | ask question next ih =>
    cases question with
    | look offset => exact ih _ _
    | take offset => rw [follow, ih, map_state_dropValue]

end Parser

namespace Parse

variable {σ ρ φ V ε : Type} {table : LrTable} {stack : StateStack} {feed : Feed σ ρ V ε}
  {parse : Parse σ ρ φ V ε} {fuel enough production : Nat}

/-- A parse with this table, these states and this feed. -/
structure Mirrors (parse : Parse σ ρ φ V ε) (table : LrTable) (stack : StateStack)
    (feed : Feed σ ρ V ε) : Prop where
  table : parse.table = table
  states : parse.states = stack
  feed : parse.feed = feed

namespace Mirrors

variable (mirrors : parse.Mirrors table stack feed)
include mirrors

theorem note (notice : Parser.Notice V ε) : (parse.note notice).Mirrors table stack feed :=
  ⟨mirrors.table, mirrors.states, mirrors.feed⟩

theorem push (state : Option Nat) (value : Option V) :
    (parse.push state value).Mirrors table (state :: stack) feed :=
  ⟨mirrors.table, congrArg (state :: ·) mirrors.states, mirrors.feed⟩

theorem shift (state : Option Nat) (token : Token V) :
    (parse.shift state token).Mirrors table (state :: stack) feed :=
  ⟨mirrors.table, congrArg (state :: ·) mirrors.states, mirrors.feed⟩

theorem pushBack (token : Token V) :
    (parse.pushBack token).Mirrors table stack (feed.pushBack token) :=
  ⟨mirrors.table, mirrors.states, congrArg (·.pushBack token) mirrors.feed⟩

theorem drop (count : Nat) :
    ({ parse with stack := parse.stack.drop count } : Parse σ ρ φ V ε).Mirrors table
      (stack.drop count) feed :=
  ⟨mirrors.table, List.map_drop.trans (congrArg (List.drop count) mirrors.states), mirrors.feed⟩

theorem uncovered_eq {cell : Option Nat} {below : StateStack} (shape : stack = cell :: below) :
    parse.stack.head?.bind Cell.state = cell := by
  have states := mirrors.states.trans shape
  obtain ⟨top, rest, held, rfl, -⟩ := List.map_eq_cons_iff.mp states
  rw [held]
  rfl

theorem top_ok {state : Nat} {below : StateStack} (shape : stack = some state :: below) :
    parse.top = .ok state := by
  have states := mirrors.states.trans shape
  obtain ⟨⟨cell, value⟩, rest, held, named, -⟩ := List.map_eq_cons_iff.mp states
  cases named
  rw [top, held]
  rfl

/-- Making the value of a reduction is nothing that a trial would notice. -/
theorem produce_ok [ValueFactory φ V ε] (checked : table.Checked)
    (known : production < table.productionCount) (rhsLength : Nat) :
    ∃ value after, parse.produce production rhsLength = .ok (value, after) ∧
      after.Mirrors table stack feed := by
  obtain ⟨param, found⟩ := checked.param_ok known
  rw [← mirrors.table] at found
  simp only [produce, found, ok_bind]
  split
  next =>
    refine ⟨_, _, rfl, mirrors.table, ?_, mirrors.feed⟩
    exact (map_state_follow _ _ _).trans mirrors.states
  next =>
    refine ⟨_, _, rfl, mirrors.table, ?_, mirrors.feed⟩
    exact (map_state_follow _ _ _).trans mirrors.states

end Mirrors

/-- Where the trial of a reduction leads, and what the parse makes of it. -/
inductive Reduces (table : LrTable) (feed : Feed σ ρ V ε) :
    Landing → Option (Result V) × Parse σ ρ φ V ε → Prop where
  | refused {after : Parse σ ρ φ V ε} (cause : Misbehaviour) :
      Reduces table feed .failed (some (.error (.table cause)), after)
  | accepted {after : Parse σ ρ φ V ε} (value : Option V) :
      Reduces table feed .accepted (some (.ok value), after)
  | landed {stack : StateStack} {after : Parse σ ρ φ V ε}
      (mirrors : after.Mirrors table stack feed) :
      Reduces table feed (.landed stack) (none, after)

theorem reduce_alike [ValueFactory φ V ε] (checked : table.Checked)
    (reducible : table.Reducible stack production) (mirrors : parse.Mirrors table stack feed)
    (fuel : Nat) :
    Run.Alike (Reduces table feed) (table.land fuel stack production)
      (parse.reduce fuel production) := by
  -- A goto that shifts and reduces goes round once more, with a cell without state on top.
  induction fuel generalizing parse stack production with
  | zero => exact .broken _
  | succ fuel ih =>
    have length := checked.rhsLength_ok reducible.known
    generalize table.productionRhsLength[production]!.toNat = rhsLength at length
    have uncovers : stack.drop rhsLength = (parse.stack.drop rhsLength).map Cell.state :=
      (mirrors.drop rhsLength).states.symm
    simp only [LrTable.land, reduce, mirrors.table, length, ok_bind, uncovers]
    cases left : parse.stack.drop rhsLength with
    | nil => exact .answered (.refused _)
    | cons cell below =>
      rw [left, List.map_cons] at uncovers
      have valid : table.IsStack (cell.state :: below.map Cell.state) := by
        rw [← uncovers]
        exact reducible.uncovers rhsLength length (by simp [uncovers])
      obtain ⟨state, known, covered⟩ := valid.states cell.state List.mem_cons_self
      obtain ⟨action, went, admits⟩ := reducible.goto_ok checked length uncovers
      obtain ⟨value, produced, made, kept⟩ := mirrors.produce_ok checked reducible.known rhsLength
      have dropped := kept.drop rhsLength
      rw [uncovers] at dropped
      have uncovered := dropped.uncovered_eq rfl
      simp only [List.map_cons, made, ok_bind]
      generalize ({ produced with stack := produced.stack.drop rhsLength } : Parse σ ρ φ V ε) =
        popped at dropped ⊢
      simp only [kept.table, uncovered, went, ok_bind]
      by_cases goal : production = table.goal
      · rw [if_pos goal, if_pos goal]
        exact .answered (.accepted value)
      · rw [if_neg goal, if_neg goal]
        cases action with
        | shift next => exact .answered (.landed (dropped.push (some next) value))
        | shiftReduce production =>
          exact ih (valid.reducible_covered admits none) (dropped.push none value)
        | reduce | error =>
          obtain ⟨lhs, named⟩ := LrTable.Checked.lhs_ok reducible.known
          have top := dropped.top_ok (congrArg (· :: below.map Cell.state) covered)
          simp only [named, top, ok_bind]
          exact .answered (.refused _)

theorem reduce_mono [ValueFactory φ V ε] {answer : Option (Result V) × Parse σ ρ φ V ε}
    (reduced : parse.reduce fuel production = .ok answer) (more : fuel ≤ enough) :
    parse.reduce enough production = .ok answer := by
  induction fuel generalizing parse production enough with
  | zero => contradiction
  | succ fuel ih =>
    obtain ⟨enough, rfl⟩ : ∃ less, enough = less + 1 := ⟨enough - 1, by omega⟩
    simp only [reduce, bind_eq_ok_iff] at reduced ⊢
    obtain ⟨length, known, reduced⟩ := reduced
    refine ⟨length, known, ?_⟩
    split at reduced
    next => exact reduced
    next =>
      simp only [bind_eq_ok_iff] at reduced ⊢
      obtain ⟨⟨value, produced⟩, made, reduced⟩ := reduced
      refine ⟨_, made, ?_⟩
      split at reduced
      next goal => rw [if_pos goal]; exact reduced
      next other =>
        rw [if_neg other]
        simp only [bind_eq_ok_iff] at reduced ⊢
        obtain ⟨action, went, reduced⟩ := reduced
        refine ⟨action, went, ?_⟩
        cases action with
        | shiftReduce production => exact ih reduced (by omega)
        | shift | reduce | error => exact reduced

/-- A reduction leaves the feed alone. -/
theorem reduce_feed [ValueFactory φ V ε] {ending : Option (Result V)} {after : Parse σ ρ φ V ε}
    (reduced : parse.reduce fuel production = .ok (ending, after)) : after.feed = parse.feed := by
  induction fuel generalizing parse production with
  | zero => contradiction
  | succ fuel ih =>
    simp only [reduce, bind_eq_ok_iff] at reduced
    obtain ⟨length, -, reduced⟩ := reduced
    split at reduced
    next => cases reduced; rfl
    next =>
      simp only [bind_eq_ok_iff] at reduced
      obtain ⟨⟨value, produced⟩, made, reduced⟩ := reduced
      have kept : produced.feed = parse.feed := by
        obtain ⟨param, -, made⟩ := bind_eq_ok_iff.mp made
        dsimp only at made
        split at made <;> cases made <;> rfl
      refine Eq.trans ?_ kept
      split at reduced
      next => cases reduced; rfl
      next =>
        simp only [bind_eq_ok_iff] at reduced
        obtain ⟨action, -, reduced⟩ := reduced
        cases action with
        | shiftReduce production => exact (ih reduced).trans rfl
        | shift => cases reduced; rfl
        | reduce | error =>
          simp only [bind_eq_ok_iff] at reduced
          obtain ⟨lhs, -, top, -, reduced⟩ := reduced
          cases reduced
          rfl

end Parse

end TableDriven
