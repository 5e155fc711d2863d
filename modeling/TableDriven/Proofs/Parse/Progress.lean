import TableDriven.Proofs.Parse.Conservation
import TableDriven.Proofs.Parse.Continuation

/-! # Repairs make progress

Behind a repair that is honoured the main loop shifts what was inserted and at least one token of
the stream, or accepts, before it meets the next error (`Commits`).  So a parse makes at most one
repair more than it takes tokens of the stream (`reports_length_le_of_runs`).  The end of file is
delivered again and again: where a table shifts it without accepting, each one may be repaired.
-/

namespace TableDriven

open TableDriven.Parser
open TableDriven.Repair (Passes demand)

namespace Parse

variable {σ ρ φ V ε : Type} [TokenSource σ V ε] [Resolver ρ σ V ε] [ValueFactory φ V ε]
  {table : LrTable} {parse next after waiting searched start : Parse σ ρ φ V ε}
  {repair : Repair} {fuel : Nat}

/-- The main loop shifts the next `count` tokens, and the one behind them is no error. -/
inductive Commits : Nat → Parse σ ρ φ V ε → Prop where
  | last {parse after : Parse σ ρ φ V ε} {turn : Turn V} (settles : parse.SettlesAs (turn, after))
      (other : turn ≠ .stuck) : Commits 0 parse
  | shifts {count symbol : Nat} {parse middle : Parse σ ρ φ V ε}
      (settles : parse.SettlesAs (.shifted symbol, middle)) (rest : Commits count middle) :
      Commits (count + 1) parse

theorem Clears.commits {count : Nat} (clears : parse.Clears (count + 1)) : parse.Commits 0 := by
  cases clears with
  | accepted _ settles => exact .last settles nofun
  | ended _ _ settles | shifted _ settles => exact .last settles nofun

theorem ShiftsAs.commits {symbols : List Nat} (shifts : parse.ShiftsAs symbols after)
    (commits : after.Commits 0) : parse.Commits symbols.length := by
  induction shifts with
  | nil => exact commits
  | cons _ settles _ ih => exact .shifts settles (ih commits)

section
variable [LawfulTokenSource σ V ε] {count symbol : Nat}

theorem Commits.reduced (commits : parse.Commits count)
    (turned : parse.turn fuel = .ok (.reduced, next)) : next.Commits count := by
  cases commits with
  | last settles other => exact .last (settles.turn turned) other
  | shifts settles rest => exact .shifts (settles.turn turned) rest

theorem Commits.shifted (commits : parse.Commits (count + 1))
    (turned : parse.turn fuel = .ok (.shifted symbol, next)) : next.Commits count := by
  cases commits with
  | shifts settles rest =>
    cases settles.unique (settlesAs_of_turn turned nofun)
    exact rest

theorem Commits.not_stuck (commits : parse.Commits count) :
    parse.turn fuel ≠ .ok (.stuck, next) := by
  intro turned
  have stuck := settlesAs_of_turn turned nofun
  cases commits with
  | last settles other =>
    cases settles.unique stuck
    contradiction
  | shifts settles => cases settles.unique stuck

/-- Each continuation that is found on the way is one that its markers stand for: tried one after
the other, they are shifted as its terminals, and the tokens behind the deletions pass a trial. -/
def Honours (start : Parse σ ρ φ V ε) : Prop :=
  ∀ fuel parse waiting searched repair symbols, start.Reaches parse →
    parse.turn fuel = .ok (.stuck, waiting) →
    waiting.findRepair fuel = .ok (.ok (some repair), searched) →
    repair.insertion = .continuation symbols →
      ∃ last, waiting.table.Resolves waiting.states symbols last ∧
        Passes waiting.table searched.feed.Reads (demand waiting.table) last repair.deletions

omit [LawfulTokenSource σ V ε] in
/-- On a steady table each continuation is. -/
theorem honours_of_steady {parser : Parser φ V ε} (feed : Feed σ ρ V ε)
    (checked : parser.table.Checked) (steady : parser.table.Steady)
    (fits : parser.table.symbols < UInt32.size) : (Parse.start parser feed).Honours := by
  intro fuel parse waiting searched repair symbols reaches turned found continuation
  obtain ⟨events, turns⟩ := exists_turns turned
  have sound := reaches.sound checked (sound_start checked)
  have same := ((sound.turns checked turns).2 rfl).table
  obtain ⟨-, repairs⟩ := valid_of_found found
  obtain ⟨last, follows, passes⟩ := follows_of_valid repairs continuation
  rw [same] at follows passes ⊢
  exact ⟨last, LrTable.resolves_of_follows checked steady fits follows, passes⟩

omit [TokenSource σ V ε] [Resolver ρ σ V ε] [ValueFactory φ V ε] [LawfulTokenSource σ V ε] in
theorem length_inserted (parse : Parse σ ρ φ V ε) (token : Token V)
    (insertion : Repair.Insertion) :
    (parse.inserted token insertion).length = insertion.symbols.length := by
  cases insertion <;> simp [Parse.inserted, Repair.Insertion.symbols]

/-- Behind a repair that is honoured the main loop shifts what was inserted, and the token behind
is no error. -/
theorem commits_of_found (checked : waiting.table.Checked)
    (valid : waiting.table.IsStack waiting.states)
    (found : waiting.findRepair fuel = .ok (.ok (some repair), searched))
    (applied : searched.apply fuel repair = .ok (.ok (), next))
    (honours : ∀ symbols, repair.insertion = .continuation symbols →
      ∃ last, waiting.table.Resolves waiting.states symbols last ∧
        Passes waiting.table searched.feed.Reads (demand waiting.table) last repair.deletions) :
    next.Commits repair.insertion.symbols.length := by
  obtain ⟨after, shifts, clears⟩ : ∃ after, next.ShiftsAs repair.insertion.symbols after ∧
      after.Clears (demand waiting.table) := by
    cases inserts : repair.insertion with
    | nothing | single =>
      rw [← inserts]
      exact shiftsAs_clears_of_plain checked valid found applied
        fun symbols other => nomatch inserts.symm.trans other
    | continuation symbols =>
      obtain ⟨-, repairs⟩ := valid_of_found found
      obtain ⟨token, repaired, -, made, -, stands⟩ := apply_ok_of_found found
      cases applied.symm.trans made
      rw [inserts] at stands
      refine (shiftsAs_clears_iff checked valid ?_ ?_ ⟨stands.table, stands.states, rfl⟩
        stands.feed (Nat.le_of_lt (lt_length_of_valid repairs).2)).mpr (honours symbols inserts)
      · rw [List.length_reverse, length_inserted]
      · intro marker member
        obtain ⟨symbol, -, rfl⟩ := List.mem_map.mp (List.mem_reverse.mp member)
        rfl
  obtain ⟨count, some⟩ : ∃ less, demand waiting.table = less + 1 :=
    Nat.exists_eq_succ_of_ne_zero (by simp only [demand]; omega)
  rw [some] at clears
  exact shifts.commits clears.commits

/-! ## Pace -/

/-- There are no more repairs than tokens of the stream that were taken, or one more, which is made
up for by tokens that the main loop is going to take before the next error. -/
inductive Paced (parse : Parse σ ρ φ V ε) (books : Books V) (repairs : Nat) : Prop where
  | even (fewer : repairs ≤ books.own.length) (idle : books.pending = [])
  | owed (fewer : repairs ≤ books.own.length + 1) (commits : parse.Commits books.pending.length)

section
variable {books : Books V} {events more : List (Event V)} {token : Token V}
  {whole : Feed σ ρ V ε} {repairs : Nat}

omit [LawfulTokenSource σ V ε] in
theorem Paced.le (paced : parse.Paced books repairs) : repairs ≤ books.own.length + 1 := by
  cases paced with
  | even fewer => omega
  | owed fewer => exact fewer

theorem Paced.shifted (paced : parse.Paced books repairs)
    (turned : parse.turn fuel = .ok (.shifted symbol, next)) :
    next.Paced (books.enter .shifted [token] []) repairs := by
  cases paced with
  | even fewer idle =>
    refine .even ?_ (by simp [Books.enter, idle])
    rw [Books.own_enter, idle, List.length_append]
    simp
    omega
  | owed fewer commits =>
    cases pending : books.pending with
    | nil =>
      refine .even ?_ (by simp [Books.enter, pending])
      rw [Books.own_enter, pending, List.length_append]
      exact fewer
    | cons first rest =>
      rw [pending] at commits
      refine .owed ?_ ?_
      · simpa [pending] using fewer
      · simpa [Books.enter, pending] using commits.shifted turned

theorem Paced.reduced (paced : parse.Paced books repairs)
    (turned : parse.turn fuel = .ok (.reduced, next)) : next.Paced books repairs := by
  cases paced with
  | even fewer idle => exact .even fewer idle
  | owed fewer commits => exact .owed fewer (commits.reduced turned)

/-- In front of an error nothing is owed. -/
theorem Paced.stuck (paced : parse.Paced books repairs)
    (turned : parse.turn fuel = .ok (.stuck, waiting)) :
    repairs ≤ books.own.length ∧ books.pending = [] := by
  cases paced with
  | even fewer idle => exact ⟨fewer, idle⟩
  | owed fewer commits => exact absurd turned commits.not_stuck

theorem Paced.does (paced : parse.Paced (.ofEvents table events) repairs)
    (accounts : Accounts table whole events (.ofEvents table events) parse.feed)
    (checked : table.Checked) (sound : parse.Sound table) (honours : start.Honours)
    (reaches : start.Reaches parse) (does : parse.Does more (none, next)) :
    next.Paced (.ofEvents table (events ++ more))
      (repairs + (more.filterMap Event.report?).length) := by
  rw [Books.ofEvents_append]
  cases does with
  | shifted turned turns =>
    obtain ⟨token, same, -⟩ := accounts.shifted turns
    rw [same, turns.report?_eq]
    exact paced.shifted turned
  | reduced turned turns =>
    obtain ⟨same, -⟩ := accounts.waits turns (.inl rfl)
    rw [same, turns.report?_eq]
    exact paced.reduced turned
  | repaired turned turns found front applied =>
    obtain ⟨fewer, idle⟩ := paced.stuck turned
    have waits := (sound.turns checked turns).2 rfl
    obtain ⟨-, balanced⟩ := accounts.waits turns (.inr rfl)
    rw [(balanced.repaired waits.table found front rfl applied).1]
    have commits := commits_of_found (waits.table ▸ checked) (waits.table ▸ waits.isStack) found
      applied fun symbols => honours _ _ _ _ _ symbols reaches turned found
    refine .owed ?_ ?_
    · rw [Books.own_enter, List.length_append]
      exact Nat.add_le_add_right (Nat.le_add_right_of_le fewer) 1
    · simpa [Books.enter, idle, length_inserted] using commits

theorem Runs.paced (runs : start.Runs events parse) (checked : table.Checked)
    (sound : start.Sound table) (honours : start.Honours) :
    parse.Paced (.ofEvents table events) (events.filterMap Event.report?).length := by
  induction runs with
  | start => exact .even (Nat.le_refl _) rfl
  | step runs _ does ih =>
    rw [List.filterMap_append, List.length_append]
    exact ih.does (runs.conserves checked sound).accounts checked
      (runs.reaches.sound checked sound) honours runs.reaches does

end

/-- **Repairs make progress.**  Where the continuations that are found are honoured, a parse makes at
most one repair more than it takes tokens of the stream: not more than the stream has tokens, its
end of file included, for as long as the end of file has not been shifted.  The step that ends the
parse makes none. -/
theorem reports_length_le_of_runs (parser : Parser φ V ε) (feed : Feed σ ρ V ε)
    (accepted : parser.table.check = .ok ()) (honours : (Parse.start parser feed).Honours)
    {events : List (Event V)} (runs : (Parse.start parser feed).Runs events parse) :
    parse.reports.length ≤ (Parse.start parser feed).reports.length +
        ((Books.ofEvents parser.table events).own.length + 1) ∧
      (∀ last token, feed.Shows last token → token.number = parser.table.eof →
        (∀ taken ∈ (Books.ofEvents parser.table events).own, taken.number ≠ parser.table.eof) →
          parse.reports.length ≤ (Parse.start parser feed).reports.length + (last + 1)) ∧
      ∀ fuel result ended, parse.step fuel = .ok (some result, ended) →
        ended.reports = parse.reports := by
  have checked := LrTable.check_eq_ok_iff.mp accepted
  have sound : (Parse.start parser feed).Sound parser.table := sound_start checked
  have fewer := (runs.paced checked sound honours).le
  rw [runs.reports_eq, List.length_append]
  refine ⟨Nat.add_le_add_left fewer _, fun last token shown ended before => ?_, ?_⟩
  · -- The end of file stands behind all that was taken of the stream.
    have behind : (Books.ofEvents parser.table events).own.length ≤ last := by
      refine Nat.le_of_not_lt fun taken => ?_
      have there := List.getElem?_eq_getElem taken
      have here := (runs.conserves checked sound).accounts.own last _ there
      exact before _ (List.getElem_mem taken) (here.unique shown ▸ ended)
    omega
  · intro fuel result ended stepped
    obtain ⟨more, does⟩ := exists_does stepped
    rw [does.reports_eq_of_ended, runs.reports_eq]

end

end Parse

/-- A table whose goal has the end of file twice, of the grammar `S' → t $ t $` with symbols `t`,
`$`, `S'`. -/
def LrTable.twice : LrTable where
  symbolCount := 3
  productionLhs := #[2]
  productionRhsLength := #[4]
  productionParam := #[0]
  maxInsertion := 0
  maxDeletion := 0
  validationLength := 1
  singlePointInsertions := #[0]
  insertionCosts := #[1, 1, 1]
  deletionCosts := #[1, 1, 1]
  goalProduction := 0
  eofSymbol := 1
  actions := #[
    #[3, 2, 2, 2],
    #[2, 4, 2, 2],
    #[5, 2, 2, 2],
    #[2, 1, 2, 2]]
  unwinding := #[1, 2, 1, 2]
  symbolNames := #[]
  linkNames := #[]

namespace LrTable

theorem check_twice : twice.check = .ok () := rfl

theorem steady_twice : twice.Steady := by
  intro state symbol production names
  obtain _ | _ | _ | _ | state := state
  all_goals
    cases names
    try exact nofun

/-- Only the goal is ever reduced by, so every trial ends. -/
theorem exists_advances_twice {stack : StateStack} (valid : twice.IsStack stack) (symbol : Nat) :
    ∃ outcome, twice.Advances stack symbol outcome := by
  obtain ⟨state, below, rfl, known, -⟩ := valid.topRow?_eq
  obtain _ | _ | _ | _ | state := state
  case succ.succ.succ.succ =>
    have few : state + 4 < 4 := known
    omega
  case succ.succ.succ.zero =>
    obtain _ | ⟨_, _ | ⟨_, _ | ⟨_, below⟩⟩⟩ := below
    all_goals obtain _ | _ | _ | _ | symbol := symbol <;> exact ⟨_, 3, rfl⟩
  all_goals obtain _ | _ | _ | _ | symbol := symbol <;> exact ⟨_, 2, rfl⟩

end LrTable

namespace Parse

open LrTable (twice)

/-- In front of the first end of file a `t` is inserted, which is one repair for one token. -/
theorem reports_length_le_of_runs_twice :
    ∃ (feed : Feed (Listed Unit) Empty Unit Empty)
      (parse : Parse (Listed Unit) Empty Empty Unit Empty),
      (start (Parser.create twice true) feed).Reaches parse ∧ parse.reports.length = 1 ∧
        ∃ events, (start (Parser.create twice true) feed).Runs events parse ∧
          parse.reports.length ≤ (Books.ofEvents twice events).own.length + 1 := by
  let parser : Parser Empty Unit Empty := .create twice true
  let feed : Feed (Listed Unit) Empty Unit Empty := (ofListed twice [] []).feed
  have told : (start parser feed).reachesIn 9 (fun parse => parse.reports.length == 1) 1 = true := by
    decide +kernel
  obtain ⟨parse, reaches, reported⟩ := exists_reaches_of_reachesIn told
  obtain ⟨events, runs⟩ := reaches.exists_runs
  have honours : (start parser feed).Honours :=
    honours_of_steady feed (LrTable.check_eq_ok_iff.mp LrTable.check_twice) LrTable.steady_twice
      (by decide)
  have fewer := (reports_length_le_of_runs parser feed LrTable.check_twice honours runs).1
  exact ⟨feed, parse, reaches, beq_iff_eq.mp reported, events, runs,
    by simpa [start, reports, parser, Parser.create] using fewer⟩

/-- A stream of nothing but the end of file is accepted after two repairs: the end of file that is
shifted first is delivered again. -/
theorem two_reports_of_empty_twice : twice.check = .ok () ∧
    (∀ stack symbol, twice.IsStack stack → ∃ outcome, twice.Advances stack symbol outcome) ∧
    ∃ (feed : Feed (Listed Unit) Empty Unit Empty) (token : Token Unit)
      (last : Parse (Listed Unit) Empty Empty Unit Empty),
      feed.Shows 0 token ∧ token.number = twice.eof ∧
        (start (Parser.create twice true) feed).run 30 = .ok (.ok none, last) ∧
          last.reports.length = 2 := by
  let parser : Parser Empty Unit Empty := .create twice true
  let feed : Feed (Listed Unit) Empty Unit Empty := (ofListed twice [] []).feed
  have told : ((start parser feed).run 30).answers (fun answer =>
      answer.1.toOption == some none && answer.2.reports.length == 2) = true := by decide +kernel
  obtain ⟨⟨result, last⟩, ran, told⟩ := Run.exists_of_answers told
  obtain ⟨accepted, reported⟩ := Bool.and_eq_true_iff.mp told
  obtain rfl : result = .ok none := by
    cases result with
    | error fault => cases accepted
    | ok value => simpa [Except.toOption] using accepted
  exact ⟨LrTable.check_twice, fun _ symbol valid => LrTable.exists_advances_twice valid symbol,
    feed, _, last, ⟨2, _, rfl⟩, rfl, ran, beq_iff_eq.mp reported⟩

end Parse

end TableDriven
