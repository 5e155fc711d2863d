import TableDriven.Proofs.Calculator.Trials
import TableDriven.Proofs.Parse.Ahead
import TableDriven.Proofs.Parse.Forest

/-! # Steps of a sum

What the parser does with one token of a sum.  A `Stage` is a phase with the values on the stack.  A
token that the phase takes is shifted, if need be behind the reduction of an addition
(`AtStage.exists_shift`); the end of a complete sum is accepted with its value
(`AtStage.exists_accept`); anything else is stuck and changes nothing (`AtStage.exists_stuck`).
-/

namespace TableDriven

open TableDriven.Parser

namespace Parse

variable {σ ρ φ V ε : Type} [TokenSource σ V ε] [Resolver ρ σ V ε] [ValueFactory φ V ε]
  {parse middle next : Parse σ ρ φ V ε} {fuel : Nat}

/-- A parse ends as another one does. -/
def Leads (parse next : Parse σ ρ φ V ε) : Prop :=
  ∀ fuel answer, next.run fuel = .ok answer → ∃ enough, parse.run enough = .ok answer

theorem Leads.trans (first : parse.Leads middle) (second : middle.Leads next) :
    parse.Leads next := by
  intro fuel answer ran
  obtain ⟨enough, ran⟩ := second fuel answer ran
  exact first enough answer ran

theorem leads_of_step [LawfulTokenSource σ V ε] (stepped : parse.step fuel = .ok (none, next)) :
    parse.Leads next :=
  fun _ _ ran => ⟨_, run_of_step stepped ran⟩

/-- Nothing was reported meanwhile. -/
structure Quiet (parse next : Parse σ ρ φ V ε) : Prop where
  reports : next.reports = parse.reports
  failures : next.failures = parse.failures

omit [TokenSource σ V ε] [Resolver ρ σ V ε] [ValueFactory φ V ε] in
theorem Quiet.trans (first : parse.Quiet middle) (second : middle.Quiet next) :
    parse.Quiet next :=
  ⟨second.reports.trans first.reports, second.failures.trans first.failures⟩

omit [TokenSource σ V ε] [Resolver ρ σ V ε] [ValueFactory φ V ε] in
theorem quiet_of_push {notice : Notice V ε} (journal : next.journal = parse.journal.push notice)
    (silent : notice.report? = none) (mild : notice.isFailure = false) : parse.Quiet next := by
  constructor
  · simp [reports, journal, silent]
  · simp [failures, journal, mild]

end Parse

namespace Calculator

/-- The sum of two values, if both are there. -/
def add (left right : Option Int64) : Option Int64 := left.bind fun left => right.map (left + ·)

/-- A phase and the values of the expressions on the stack. -/
inductive Stage where
  | start
  | sum (value : Option Int64)
  | operator (value : Option Int64)
  | operand (left right : Option Int64)

namespace Stage

def phase : Stage → Phase
  | start => .start
  | sum _ => .sum
  | operator _ => .operator
  | operand .. => .operand

def stack : Stage → List (Cell Int64)
  | start => [⟨some 0, none⟩]
  | sum value => [⟨some 1, value⟩, ⟨some 0, none⟩]
  | operator value => [⟨some 2, none⟩, ⟨some 1, value⟩, ⟨some 0, none⟩]
  | operand left right =>
    [⟨some 3, right⟩, ⟨some 2, none⟩, ⟨some 1, left⟩, ⟨some 0, none⟩]

/-- The value of what has been read. -/
def value : Stage → Option Int64
  | start => some 0
  | sum value | operator value => value
  | operand left right => add left right

/-- The stage behind a terminal that is shifted with a value. -/
def next : Stage → Nat → Option Int64 → Option Stage
  | start, 0, value => some (sum value)
  | operator left, 0, value => some (operand left value)
  | sum value, 1, _ => some (operator value)
  | operand left right, 1, _ => some (operator (add left right))
  | _, _, _ => none

theorem phase_next (stage : Stage) (number : Nat) (value : Option Int64) :
    (stage.next number value).map phase = stage.phase.next number := by
  obtain _ | _ | number := number
  all_goals cases stage <;> rfl

/-- An integer is added, and a plus sign adds nothing. -/
theorem value_next {stage behind : Stage} {number : Nat} {value : Option Int64}
    (goes : stage.next number value = some behind) :
    behind.value = if number = integer then add stage.value value else stage.value := by
  obtain _ | _ | number := number
  all_goals cases stage <;> cases goes
  · cases value <;> simp [Stage.value, add, integer]
  all_goals rfl

theorem states_stack (stage : Stage) : stage.stack.map Cell.state = stage.phase.states := by
  cases stage <;> rfl

end Stage

variable {σ ρ : Type} {stage : Stage} {parse middle next : Parse σ ρ Meaning Int64 ScanNotice}

/-- A parse of a sum at a stage. -/
structure AtStage (stage : Stage) (parse : Parse σ ρ Meaning Int64 ScanNotice) : Prop where
  table : parse.table = Calculator.table
  bindings : parse.bindings = (parser {}).bindings
  repairs : parse.repairs = true
  stack : parse.stack = stage.stack

theorem AtStage.tells {told : List (Token Int64 × Report)} (stands : AtStage stage parse)
    (tells : parse.Tells told next) : AtStage stage next := by
  obtain ⟨feed, journal, rfl, -⟩ := tells
  exact ⟨stands.table, stands.bindings, stands.repairs, stands.stack⟩

theorem AtStage.states (stands : AtStage stage parse) : parse.states = stage.phase.states := by
  rw [Parse.states, stands.stack, stage.states_stack]

/-! ## Turns -/

variable [TokenSource σ Int64 ScanNotice] [Resolver ρ σ Int64 ScanNotice] {fuel : Nat}
  {token : Token Int64}

/-- What the phase does not take is put back. -/
theorem AtStage.turn_stuck (stands : AtStage stage middle)
    (taken : parse.nextToken (fuel + 4) = .ok (.ok token, middle)) (known : token.number < 3)
    (error : stage.phase.takes token.number = false) :
    ∃ next, parse.turn (fuel + 4) = .ok (.stuck, next) ∧ AtStage stage next ∧
      next.feed = middle.feed.pushBack token ∧ middle.Quiet next := by
  obtain ⟨⟨table, bindings, repairs, stack, lastShift, journal⟩, feed⟩ := middle
  obtain ⟨rfl, rfl, rfl, rfl⟩ := stands
  obtain ⟨number, value, file, position⟩ := token
  obtain rfl | rfl | rfl : number = 0 ∨ number = 1 ∨ number = 2 := by dsimp only at known; omega
  all_goals
    cases stage <;> cases error
    all_goals
      refine ⟨?_, ?_, ?_⟩
      rotate_left
      · rw [Parse.turn, taken]
        rfl
      · exact ⟨⟨rfl, rfl, rfl, rfl⟩, rfl, Parse.quiet_of_push rfl rfl rfl⟩

/-- An integer behind a plus sign is added once something else follows. -/
theorem AtStage.turn_reduced {left right : Option Int64}
    (stands : AtStage (.operand left right) middle)
    (taken : parse.nextToken (fuel + 4) = .ok (.ok token, middle))
    (known : token.number = 1 ∨ token.number = 2) :
    ∃ next, parse.turn (fuel + 4) = .ok (.reduced, next) ∧ AtStage (.sum (add left right)) next ∧
      next.feed = middle.feed.pushBack token ∧ middle.Quiet next := by
  obtain ⟨⟨table, bindings, repairs, stack, lastShift, journal⟩, feed⟩ := middle
  obtain ⟨rfl, rfl, rfl, rfl⟩ := stands
  obtain ⟨number, value, file, position⟩ := token
  obtain rfl | rfl : number = 1 ∨ number = 2 := known
  all_goals
    cases left <;> cases right
    all_goals
      refine ⟨?_, ?_, ?_⟩
      rotate_left
      · rw [Parse.turn, taken]
        rfl
      · exact ⟨⟨rfl, rfl, rfl, rfl⟩, rfl, Parse.quiet_of_push rfl rfl rfl⟩

/-- What the phase takes is shifted, unless an addition comes first. -/
theorem AtStage.turn_shifted {behind : Stage} (stands : AtStage stage middle)
    (taken : parse.nextToken (fuel + 4) = .ok (.ok token, middle))
    (goes : stage.next token.number token.value = some behind)
    (plain : token.number = plus → token.value = none) (added : stage.phase ≠ .operand) :
    ∃ next, parse.turn (fuel + 4) = .ok (.shifted token.number, next) ∧ AtStage behind next ∧
      next.feed = middle.feed ∧ middle.Quiet next := by
  obtain ⟨⟨table, bindings, repairs, stack, lastShift, journal⟩, feed⟩ := middle
  obtain ⟨rfl, rfl, rfl, rfl⟩ := stands
  obtain ⟨number, value, file, position⟩ := token
  obtain _ | _ | number := number
  · cases stage <;> cases goes
    all_goals
      refine ⟨?_, ?_, ?_⟩
      rotate_left
      · rw [Parse.turn, taken]
        rfl
      · exact ⟨⟨rfl, rfl, rfl, rfl⟩, rfl, Parse.quiet_of_push rfl rfl rfl⟩
  · obtain rfl : value = none := plain rfl
    cases stage <;> cases goes
    · refine ⟨?_, ?_, ?_⟩
      rotate_left
      · rw [Parse.turn, taken]
        rfl
      · exact ⟨⟨rfl, rfl, rfl, rfl⟩, rfl, Parse.quiet_of_push rfl rfl rfl⟩
    · exact absurd rfl added
  · cases stage <;> cases goes

/-- A sum is accepted at the end. -/
theorem AtStage.turn_accepted {value : Option Int64} (stands : AtStage (.sum value) middle)
    (taken : parse.nextToken (fuel + 4) = .ok (.ok token, middle))
    (last : token.number = endOfInput) :
    ∃ next, parse.turn (fuel + 4) = .ok (.ended (.ok value), next) ∧ middle.Quiet next := by
  have decided : middle.Quiet (middle.note (.decided 1 "$" (.shiftReduce 0))) :=
    Parse.quiet_of_push rfl rfl rfl
  obtain ⟨⟨table, bindings, repairs, stack, lastShift, journal⟩, feed⟩ := middle
  obtain ⟨rfl, rfl, rfl, rfl⟩ := stands
  obtain ⟨number, found, file, position⟩ := token
  obtain rfl : number = 2 := last
  refine ⟨?_, ?_, ?_⟩
  rotate_left
  · rw [Parse.turn, taken]
    rfl
  · exact decided.trans (Parse.quiet_of_push rfl rfl rfl)

section
variable [LawfulTokenSource σ Int64 ScanNotice] {good : σ → Prop} {fit : Option (Nat × ρ) → Prop}
  {stream : Stream' (Token Int64)} (stands : AtStage stage parse)
  (has : parse.Has endOfInput good fit stream) (sound : Feed.Sound ScanNotice endOfInput good fit)
include stands has sound

theorem AtStage.exists_fetched : ∃ fuel middle,
    parse.nextToken (fuel + 4) = .ok (.ok stream.head, middle) ∧ AtStage stage middle ∧
      middle.Has endOfInput good fit stream.tail ∧ parse.Quiet middle := by
  obtain ⟨fuel, middle, taken, rest⟩ := has.nextToken_ok sound
  have tells := Parse.tells_nextToken taken
  exact ⟨fuel, middle, Parse.nextToken_mono taken (Nat.le_add_right fuel 4), stands.tells tells,
    rest, by simpa using tells.reports_eq, Parse.failures_of_nextToken taken⟩

/-- What the phase does not take is stuck. -/
theorem AtStage.exists_stuck (known : stream.head.number < 3)
    (error : stage.phase.takes stream.head.number = false) :
    ∃ fuel next, parse.turn fuel = .ok (.stuck, next) ∧ AtStage stage next ∧
      next.Has endOfInput good fit stream ∧ parse.Quiet next := by
  obtain ⟨fuel, middle, taken, waits, rest, quiet⟩ := stands.exists_fetched has sound
  obtain ⟨next, turned, stands, feed, still⟩ := waits.turn_stuck taken known error
  have back := (rest.pushBack stream.head).of_feed_eq feed
  rw [Stream'.eta] at back
  exact ⟨fuel + 4, next, turned, stands, back, quiet.trans still⟩

/-- The last addition is made in front of another plus sign or the end. -/
theorem AtStage.exists_added {left right : Option Int64} (operands : stage = .operand left right)
    (known : stream.head.number = 1 ∨ stream.head.number = 2) :
    ∃ next, parse.Leads next ∧ AtStage (.sum (add left right)) next ∧
      next.Has endOfInput good fit stream ∧ parse.Quiet next := by
  subst operands
  obtain ⟨fuel, middle, taken, waits, rest, quiet⟩ := stands.exists_fetched has sound
  obtain ⟨next, turned, stands, feed, still⟩ := waits.turn_reduced taken known
  have stepped : parse.step (fuel + 4) = .ok (none, next) := by
    rw [Parse.step, turned]
    rfl
  have back := (rest.pushBack stream.head).of_feed_eq feed
  rw [Stream'.eta] at back
  exact ⟨next, Parse.leads_of_step stepped, stands, back, quiet.trans still⟩

/-- What the phase takes is shifted at once if nothing is to be added. -/
theorem AtStage.exists_shift_alone {behind : Stage}
    (goes : stage.next stream.head.number stream.head.value = some behind)
    (plain : stream.head.number = plus → stream.head.value = none)
    (added : stage.phase ≠ .operand) :
    ∃ next, parse.Leads next ∧ AtStage behind next ∧
      next.Has endOfInput good fit stream.tail ∧ parse.Quiet next := by
  obtain ⟨fuel, middle, taken, waits, rest, quiet⟩ := stands.exists_fetched has sound
  obtain ⟨next, turned, stands, feed, still⟩ := waits.turn_shifted taken goes plain added
  have stepped : parse.step (fuel + 4) = .ok (none, next) := by
    rw [Parse.step, turned]
    rfl
  exact ⟨next, Parse.leads_of_step stepped, stands, rest.of_feed_eq feed, quiet.trans still⟩

/-- What the phase takes is shifted. -/
theorem AtStage.exists_shift {behind : Stage}
    (goes : stage.next stream.head.number stream.head.value = some behind)
    (plain : stream.head.number = plus → stream.head.value = none) :
    ∃ next, parse.Leads next ∧ AtStage behind next ∧
      next.Has endOfInput good fit stream.tail ∧ parse.Quiet next := by
  cases stage with
  | start | sum | operator =>
    exact stands.exists_shift_alone has sound goes plain (by simp [Stage.phase])
  | operand left right =>
    have sign : stream.head.number = 1 := by
      generalize stream.head.number = number at goes
      obtain _ | _ | number := number
      · cases goes
      · rfl
      · cases goes
    obtain ⟨next, leads, stands, has, quiet⟩ := stands.exists_added has sound rfl (.inl sign)
    have again : (Stage.sum (add left right)).next stream.head.number stream.head.value =
        some behind := by
      rw [sign] at goes ⊢
      exact goes
    obtain ⟨last, further, stands, has, still⟩ :=
      stands.exists_shift_alone has sound again plain (by simp [Stage.phase])
    exact ⟨last, leads.trans further, stands, has, quiet.trans still⟩

theorem AtStage.exists_accept_alone {value : Option Int64} (added : stage = .sum value)
    (last : stream.head.number = endOfInput) :
    ∃ fuel next, parse.run fuel = .ok (.ok value, next) ∧ parse.Quiet next := by
  subst added
  obtain ⟨fuel, middle, taken, waits, -, quiet⟩ := stands.exists_fetched has sound
  obtain ⟨next, turned, still⟩ := waits.turn_accepted taken last
  have stepped : parse.step (fuel + 4) = .ok (some (.ok value), next) := by
    rw [Parse.step, turned]
    rfl
  exact ⟨_, next, Parse.run_of_ended stepped, quiet.trans still⟩

/-- A complete sum is accepted at the end with its value. -/
theorem AtStage.exists_accept (last : stream.head.number = endOfInput)
    (complete : stage.phase.isComplete = true) :
    ∃ fuel next, parse.run fuel = .ok (.ok stage.value, next) ∧ parse.Quiet next := by
  cases stage with
  | start | operator => cases complete
  | sum value => exact stands.exists_accept_alone has sound rfl last
  | operand left right =>
    obtain ⟨next, leads, stands, has, quiet⟩ := stands.exists_added has sound rfl (.inr last)
    obtain ⟨fuel, final, ran, still⟩ := stands.exists_accept_alone has sound rfl last
    obtain ⟨enough, ran⟩ := leads fuel _ ran
    exact ⟨enough, final, ran, quiet.trans still⟩

end

end Calculator

end TableDriven
