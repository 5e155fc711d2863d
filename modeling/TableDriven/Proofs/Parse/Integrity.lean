import TableDriven.Proofs.Breakdown
import TableDriven.Proofs.Parse.Listed
import TableDriven.Proofs.Parse.Produce

/-! # A checked table is enough

Between two steps of a parse with a checked table every cell of its stack holds a state of the
table, and the bottom one is the initial cell (`Sound`).  A cell without state, which a
shift-reduce entry leaves, is taken off by the reduction that follows, and no reduction takes off
the bottom.  So neither the engine nor the trials of a search look anything up that the table
lacks: a step breaks down for lack of fuel or where the token source does (`step_breaksOnly`), and
what a table can cause is a failure of the parse.
-/

namespace TableDriven

open TableDriven.Parser
open TableDriven.LrTable (initialState)
open TableDriven.Repair (Search)
open Run (BreaksOnly)

namespace Parser

variable {V α : Type} {state : Option Nat}

theorem getLast?_dropValue {stack : List (Cell V)} (bottom : stack.getLast? = some ⟨state, none⟩)
    (rhsLength : Nat) (offset : Int) :
    (dropValue stack rhsLength offset).getLast? = some ⟨state, none⟩ := by
  rw [dropValue]
  split
  next => exact bottom
  next depth _ =>
    rw [List.getLast?_eq_getElem?] at bottom
    rw [List.getLast?_eq_getElem?, List.length_modify, List.getElem?_modify, bottom]
    simp

/-- Following a recipe leaves a bottom cell that has no value. -/
theorem getLast?_follow {stack : List (Cell V)} (bottom : stack.getLast? = some ⟨state, none⟩)
    (rhsLength : Nat) (recipe : Recipe V α) :
    (follow rhsLength recipe stack).2.getLast? = some ⟨state, none⟩ := by
  induction recipe generalizing stack with
  | done result => exact bottom
  | ask access next ih =>
    cases access with
    | look offset => exact ih _ bottom
    | take offset => exact ih _ (getLast?_dropValue bottom rhsLength offset)

end Parser

namespace Parse

variable {σ ρ φ V ε : Type} {parse popped after : Parse σ ρ φ V ε} {table : LrTable}
  {production fuel : Nat} {value : Option V}

/-- The bottom cell is the initial one. -/
def Grounded (parse : Parse σ ρ φ V ε) : Prop :=
  parse.stack.getLast? = some ⟨some initialState, none⟩

/-- Every cell holds a state of the table, and the bottom cell is the initial one. -/
structure Sound (table : LrTable) (parse : Parse σ ρ φ V ε) : Prop where
  isStack : table.IsStack parse.states
  grounded : parse.Grounded
  table : parse.table = table

theorem Grounded.push (grounded : parse.Grounded) (state : Option Nat) (value : Option V) :
    (parse.push state value).Grounded := by
  rw [Grounded, Parse.push, List.getLast?_cons, grounded]
  rfl

theorem Grounded.tells {told : List (Token V × Report)} (grounded : parse.Grounded)
    (tells : parse.Tells told after) : after.Grounded := by
  rw [Grounded, tells.stack_eq]
  exact grounded

theorem Sound.tells {told : List (Token V × Report)} (sound : parse.Sound table)
    (tells : parse.Tells told after) : after.Sound table where
  isStack := tells.states_eq ▸ sound.isStack
  grounded := sound.grounded.tells tells
  table := tells.table_eq.trans sound.table

section
variable [ValueFactory φ V ε]

/-- What becomes of the stack when a value is made is what a recipe leaves. -/
theorem exists_follow_of_produce {length : Nat}
    (produced : parse.produce production length = .ok (value, after)) :
    ∃ (α : Type) (recipe : Recipe V α), after.stack = (follow length recipe parse.stack).2 := by
  obtain ⟨param, -, produced⟩ := bind_eq_ok_iff.mp produced
  dsimp only at produced
  split at produced <;> cases produced <;> exact ⟨_, _, rfl⟩

theorem Pops.exists_drop (pops : parse.Pops production value popped) :
    popped.table = parse.table ∧ ∃ length, parse.table.rhsLength production = .ok length ∧
      parse.states.drop length ≠ [] ∧ popped.states = parse.states.drop length := by
  cases pops with
  | @intro length value made reduces left produced =>
    obtain ⟨α, recipe, followed⟩ := exists_follow_of_produce produced
    refine ⟨(keeps_of_produce produced).table, length, reduces, ?_, ?_⟩
    · simpa [states] using left
    · rw [states, List.map_drop, followed, map_state_follow, states]

theorem Pops.grounded (pops : parse.Pops production value popped) (grounded : parse.Grounded) :
    popped.Grounded := by
  cases pops with
  | @intro length value made reduces left produced =>
    obtain ⟨α, recipe, followed⟩ := exists_follow_of_produce produced
    have count : made.stack.length = parse.stack.length := by
      rw [followed, ← List.length_map (f := Cell.state), map_state_follow, List.length_map]
    have short : length < parse.stack.length := by simpa using left
    rw [Grounded, List.getLast?_drop, if_neg (by omega), followed]
    exact getLast?_follow grounded length recipe

/-- What a reduction uncovers is a stack of table states, and the table admits the action that
the uncovered state has for the symbol reduced to. -/
theorem Pops.uncovers (pops : parse.Pops production value popped) (checked : table.Checked)
    (same : parse.table = table) (reducible : table.Reducible parse.states production) :
    popped.table = table ∧ table.IsStack popped.states ∧
      ∀ action, popped.table.goto (popped.stack.head?.bind Cell.state) production = .ok action →
        table.Admits action := by
  obtain ⟨kept, length, reduces, left, dropped⟩ := pops.exists_drop
  rw [same] at reduces kept
  have valid : table.IsStack popped.states := dropped ▸ reducible.uncovers length reduces left
  refine ⟨kept, valid, fun action went => ?_⟩
  obtain ⟨state, below, shape, -⟩ := valid.exists_top
  have mirrors : popped.Mirrors table (some state :: below) popped.feed := ⟨kept, shape, rfl⟩
  obtain ⟨other, goes, admits⟩ := reducible.goto_ok checked reduces (dropped ▸ shape)
  rw [mirrors.uncovered_eq rfl, kept, goes] at went
  cases went
  exact admits

/-- A reduction never takes off the bottom of the stack, and if the parse goes on behind it, every
cell holds a state of the table. -/
theorem Chains.sound {productions : List Nat} {answer : Option (Result V) × Parse σ ρ φ V ε}
    (chains : parse.Chains production productions answer) (checked : table.Checked)
    (same : parse.table = table) (reducible : table.Reducible parse.states production)
    (grounded : parse.Grounded) :
    answer.2.Grounded ∧ (answer.1 = none → answer.2.Sound table) := by
  induction chains with
  | popsInitial => exact ⟨grounded, fun going => nomatch going⟩
  | accepted pops => exact ⟨pops.grounded grounded, fun going => nomatch going⟩
  | noGoto pops => exact ⟨pops.grounded grounded, fun going => nomatch going⟩
  | @landed _ _ _ state value pops _ went =>
    obtain ⟨kept, valid, admitted⟩ := pops.uncovers checked same reducible
    have grounded := (pops.grounded grounded).push (some state) value
    exact ⟨grounded, fun _ => ⟨valid.push (admitted _ went), grounded, kept⟩⟩
  | chained pops _ went _ ih =>
    -- The cell without state is what the next production reduces first.
    obtain ⟨kept, valid, admitted⟩ := pops.uncovers checked same reducible
    exact ih kept (valid.reducible_covered (admitted _ went) none)
      ((pops.grounded grounded).push none _)

end

section
variable [TokenSource σ V ε] [Resolver ρ σ V ε] {token : Token V} {symbol : Nat} {action : Action}
  {decided : Parse σ ρ φ V ε}

theorem Faces.admits (faces : parse.Faces token symbol action decided) (checked : table.Checked)
    (sound : parse.Sound table) : table.Admits action := by
  have top {fetched : Parse σ ρ φ V ε} {state : Nat} (tells : parse.Tells [] fetched)
      (top : fetched.top = .ok state) : fetched.table = table ∧ state < table.stateCount := by
    have fetched := sound.tells tells
    obtain ⟨other, below, shape, known⟩ := fetched.isStack.exists_top
    have mirrors : Mirrors _ table (some other :: below) _ := ⟨fetched.table, shape, rfl⟩
    cases top.symm.trans (mirrors.top_ok rfl)
    exact ⟨fetched.table, known⟩
  cases faces with
  | unwound fetches shown resolved =>
    obtain ⟨same, known⟩ := top (tells_nextToken fetches) shown
    obtain ⟨unwinding, other, bounded⟩ := LrTable.resolve_ok checked known token.number
    rw [same, other] at resolved
    cases resolved
    exact bounded _ rfl
  | named fetches shown resolved found =>
    obtain ⟨same, known⟩ := top (tells_nextToken fetches) shown
    obtain ⟨other, goes, admits⟩ := checked.action_ok known symbol
    rw [same, goes] at found
    cases found
    exact admits

variable [ValueFactory φ V ε]

theorem Sound.turns {events : List (Event V)} {turn : Turn V} (sound : parse.Sound table)
    (checked : table.Checked) (turns : parse.Turns events (turn, after)) :
    after.Grounded ∧ (turn.ending = none → after.Sound table) := by
  cases turns with
  | failed failed =>
    exact ⟨sound.grounded.tells (tells_nextToken failed), fun going => nomatch going⟩
  | @stuck token _ decided faces =>
    have waits := sound.tells (faces.tells.trans (tells_pushBack decided token))
    exact ⟨waits.grounded, fun _ => waits⟩
  | @shifted token _ state _ faces =>
    have decided := sound.tells faces.tells
    have grounded := decided.grounded.push (some state) token.value
    exact ⟨grounded, fun _ =>
      ⟨decided.isStack.push (faces.admits checked sound), grounded, decided.table⟩⟩
  | shiftReduced faces chains same =>
    subst same
    have decided := sound.tells faces.tells
    have reducible := decided.isStack.reducible_covered (faces.admits checked sound) none
    simpa using chains.sound checked decided.table reducible (decided.grounded.push none _)
  | @reduced token _ _ _ _ _ decided _ faces chains same =>
    subst same
    have waits := sound.tells (faces.tells.trans (tells_pushBack decided token))
    have reducible := waits.isStack.reducible (faces.admits checked sound)
    simpa using chains.sound checked waits.table reducible waits.grounded

theorem Sound.does {events : List (Event V)} {answer : Option (Result V) × Parse σ ρ φ V ε}
    (sound : parse.Sound table) (checked : table.Checked) (does : parse.Does events answer) :
    answer.2.Grounded ∧ (answer.1 = none → answer.2.Sound table) := by
  cases does with
  | shifted _ turns | reduced _ turns | ended turns => exact sound.turns checked turns
  | repaired _ turns found front applied =>
    have next := ((sound.turns checked turns).2 rfl).tells (tells_of_applied found front applied)
    exact ⟨next.grounded, fun _ => next⟩
  | abandoned turns tells =>
    exact ⟨(sound.turns checked turns).1.tells tells, fun going => nomatch going⟩

/-! ## Breakdowns -/

omit [ValueFactory φ V ε] in
theorem nextToken_breaksOnly (parse : Parse σ ρ φ V ε) (fuel : Nat) :
    (parse.nextToken fuel).BreaksOnly (TokenSource.Breaks σ V ε) :=
  (Feed.next_breaksOnly parse.feed fuel).bind fun _ _ => .ok _

omit [ValueFactory φ V ε] in
theorem peek_breaksOnly (parse : Parse σ ρ φ V ε) (fuel distance : Nat) :
    (parse.peek fuel distance).BreaksOnly (TokenSource.Breaks σ V ε) :=
  (Feed.peek_breaksOnly parse.feed fuel distance).bind fun _ _ => .ok _

omit [ValueFactory φ V ε] in
theorem upcoming_breaksOnly (parse : Parse σ ρ φ V ε) (fuel count : Nat) (done : List Nat) :
    (parse.upcoming fuel count done).BreaksOnly (TokenSource.Breaks σ V ε) := by
  induction count generalizing parse done with
  | zero => exact .ok _
  | succ count ih =>
    refine (peek_breaksOnly parse fuel _).bind fun answer _ => ?_
    obtain ⟨told | token, next⟩ := answer
    · exact .ok _
    · exact ih next _

omit [ValueFactory φ V ε] in
theorem skip_breaksOnly (parse : Parse σ ρ φ V ε) (fuel count : Nat) :
    (parse.skip fuel count).BreaksOnly (TokenSource.Breaks σ V ε) := by
  induction count generalizing parse with
  | zero => exact .ok _
  | succ count ih =>
    refine (nextToken_breaksOnly parse fuel).bind fun answer _ => ?_
    obtain ⟨told | token, next⟩ := answer
    · exact .ok _
    · exact ih next

omit [ValueFactory φ V ε] in
theorem answer_breaksOnly {α : Type} {search : Search α} (fueled : search.Fueled)
    (parse : Parse σ ρ φ V ε) (fuel : Nat) :
    (parse.answer fuel search).BreaksOnly (TokenSource.Breaks σ V ε) := by
  induction search generalizing parse with
  | done result => exact .ok _
  | ask probe further ih =>
    cases probe with
    | broken why => exact .error (.inl fueled)
    | lost => exact ih () fueled (parse.note .lost)
    | symbol distance =>
      rw [answer]
      refine (peek_breaksOnly parse fuel distance).bind fun answer _ => ?_
      obtain ⟨told | token, next⟩ := answer
      · exact .ok _
      · exact ih token.number (fueled token.number) next

omit [ValueFactory φ V ε] in
theorem apply_breaksOnly (parse : Parse σ ρ φ V ε) (fuel : Nat) (repair : Repair) :
    (parse.apply fuel repair).BreaksOnly (TokenSource.Breaks σ V ε) := by
  refine (upcoming_breaksOnly parse fuel _ _).bind fun answer _ => ?_
  obtain ⟨told | deleted, looked⟩ := answer
  · exact .ok _
  refine (peek_breaksOnly looked fuel 0).bind fun answer _ => ?_
  obtain ⟨told | token, shown⟩ := answer
  · exact .ok _
  refine (skip_breaksOnly _ fuel _).bind fun answer _ => ?_
  obtain ⟨told | done, dropped⟩ := answer <;> exact .ok _

section
variable (checked : table.Checked) (sound : parse.Sound table)
include checked sound

omit [ValueFactory φ V ε] in
theorem findRepair_breaksOnly (fuel : Nat) :
    (parse.findRepair fuel).BreaksOnly (TokenSource.Breaks σ V ε) := by
  have fueled := Repair.search_fueled checked sound.isStack fuel
  rw [← sound.table] at fueled
  rw [findRepair]
  split
  next =>
    refine (answer_breaksOnly fueled parse fuel).bind fun answer _ => ?_
    split <;> exact .ok _
  next => exact .ok _

omit [ValueFactory φ V ε] in
theorem recover_breaksOnly (fuel : Nat) :
    (parse.recover fuel).BreaksOnly (TokenSource.Breaks σ V ε) := by
  refine (findRepair_breaksOnly checked sound fuel).bind fun answer _ => ?_
  obtain ⟨told | _ | repair, searched⟩ := answer
  · exact .ok _
  · refine (peek_breaksOnly searched fuel 0).bind fun answer _ => ?_
    obtain ⟨told | token, shown⟩ := answer <;> exact .ok _
  · refine (apply_breaksOnly searched fuel repair).bind fun answer _ => ?_
    obtain ⟨told | done, repaired⟩ := answer <;> exact .ok _

omit [Resolver ρ σ V ε] sound in
theorem reduce_breaksOnly (same : parse.table = table)
    (reducible : table.Reducible parse.states production) (fuel : Nat) :
    (parse.reduce fuel production).BreaksOnly (TokenSource.Breaks σ V ε) := by
  have mirrors : parse.Mirrors table parse.states parse.feed := ⟨same, rfl, rfl⟩
  have breaks := LrTable.land_breaksOnly checked reducible fuel
  exact ((reduce_alike checked reducible mirrors fuel).breaksOnly breaks).mono fun _ => .inl

theorem turn_breaksOnly (fuel : Nat) :
    (parse.turn fuel).BreaksOnly (TokenSource.Breaks σ V ε) := by
  refine (nextToken_breaksOnly parse fuel).bind fun answer fetches => ?_
  obtain ⟨told | token, fetched⟩ := answer
  · exact .ok _
  have got := sound.tells (tells_nextToken fetches)
  obtain ⟨state, below, shape, known⟩ := got.isStack.exists_top
  have mirrors : fetched.Mirrors table (some state :: below) fetched.feed := ⟨got.table, shape, rfl⟩
  obtain ⟨unwinding, resolved, bounded⟩ := LrTable.resolve_ok checked known token.number
  simp only [mirrors.top_ok rfl, got.table, resolved, ok_bind]
  cases unwinding with
  | reduce production =>
    have waits := got.tells (tells_pushBack fetched token)
    have reducible := waits.isStack.reducible (bounded production rfl)
    exact (reduce_breaksOnly checked waits.table reducible fuel).bind fun _ _ => .ok _
  | shift symbol =>
    obtain ⟨action, found, admits⟩ := checked.action_ok known symbol
    simp only [found, ok_bind]
    let notice : Parser.Notice V ε := .decided state (table.symbolLabel symbol) action
    have noted := got.tells (tells_note fetched notice)
    cases action with
    | shift | error => exact .ok _
    | reduce production =>
      have waits := noted.tells (tells_pushBack (fetched.note notice) token)
      have reducible := waits.isStack.reducible admits
      exact (reduce_breaksOnly checked waits.table reducible fuel).bind fun _ _ => .ok _
    | shiftReduce production =>
      have same : ((fetched.note notice).shift none token).table = table := noted.table
      have reducible := noted.isStack.reducible_covered admits none
      exact (reduce_breaksOnly checked same reducible fuel).bind fun _ _ => .ok _

theorem step_breaksOnly (fuel : Nat) :
    (parse.step fuel).BreaksOnly (TokenSource.Breaks σ V ε) := by
  refine (turn_breaksOnly checked sound fuel).bind fun answer turned => ?_
  obtain ⟨turn, waiting⟩ := answer
  cases turn with
  | shifted | reduced | ended => exact .ok _
  | stuck =>
    obtain ⟨events, turns⟩ := exists_turns turned
    exact recover_breaksOnly checked ((sound.turns checked turns).2 rfl) fuel

theorem run_breaksOnly (fuel : Nat) :
    (parse.run fuel).BreaksOnly (TokenSource.Breaks σ V ε) := by
  induction fuel generalizing parse with
  | zero => exact .error (.inl rfl)
  | succ fuel ih =>
    refine (step_breaksOnly checked sound fuel).bind fun answer stepped => ?_
    obtain ⟨_ | result, next⟩ := answer
    · obtain ⟨events, does⟩ := exists_does stepped
      exact ih ((sound.does checked does).2 rfl)
    · exact .ok _

end

variable {parser : Parser φ V ε} {feed : Feed σ ρ V ε}

omit [TokenSource σ V ε] [Resolver ρ σ V ε] [ValueFactory φ V ε] in
theorem sound_start (checked : parser.table.Checked) :
    (start parser feed).Sound parser.table where
  isStack := LrTable.isStack_initial checked.states_pos
  grounded := rfl
  table := rfl

theorem Reaches.sound {start : Parse σ ρ φ V ε} (reaches : start.Reaches parse)
    (checked : table.Checked) (sound : start.Sound table) : parse.Sound table := by
  induction reaches with
  | start => exact sound
  | step _ stepped ih =>
    obtain ⟨events, does⟩ := exists_does stepped
    exact (ih.does checked does).2 rfl

/-- **A checked table is enough.**  Wherever the main loop comes, every cell of the stack holds a
state of the table and, unless it is the bottom one, perhaps a value; no step takes off the bottom
cell, not even one that ends the parse; and all that is tried on such a stack does the same.  No
step and no whole parse breaks down but for lack of fuel or where a token source does, so nothing
is looked up that the table lacks. -/
theorem integrity_of_check (accepted : parser.table.check = .ok ()) :
    (∀ parse, (start parser feed).Reaches parse →
      parse.states.length = parse.values.length ∧ parser.table.IsStack parse.states ∧
        parse.Grounded ∧ parser.table.TriesWell parse.states ∧
        ∀ fuel, (parse.step fuel).BreaksOnly (TokenSource.Breaks σ V ε) ∧
          ∀ ending after, parse.step fuel = .ok (ending, after) → after.Grounded) ∧
      ∀ fuel, (parser.parse fuel feed).BreaksOnly (TokenSource.Breaks σ V ε) := by
  have checked := LrTable.check_eq_ok_iff.mp accepted
  refine ⟨fun parse reaches => ?_, fun fuel => ?_⟩
  · have sound := reaches.sound checked (sound_start checked)
    refine ⟨by simp [states, values], sound.isStack, sound.grounded,
      sound.isStack.triesWell checked, fun fuel => ⟨step_breaksOnly checked sound fuel, ?_⟩⟩
    intro ending after stepped
    obtain ⟨events, does⟩ := exists_does stepped
    exact (sound.does checked does).1
  · exact (run_breaksOnly checked (sound_start checked) fuel).bind fun _ _ => .ok _

/-- Behind the first symbol of a list every trial keeps to the states of the table. -/
theorem integrity_of_check_lists : ∃ parse : Parse (Listed Unit) Empty Empty Unit Empty,
    (start (Parser.create .lists true) (ofListed .lists [] [0, 1, 7, 0]).feed).Reaches parse ∧
      parse.states = [some 1, some 0] ∧ LrTable.lists.TriesWell parse.states := by
  let parser : Parser Empty Unit Empty := .create .lists true
  let feed : Feed (Listed Unit) Empty Unit Empty := (ofListed .lists [] [0, 1, 7, 0]).feed
  have told : (start parser feed).reachesIn 9 (fun parse => parse.states == [some 1, some 0]) 1 =
      true := by decide +kernel
  obtain ⟨parse, reaches, states⟩ := exists_reaches_of_reachesIn told
  obtain ⟨-, -, -, tries, -⟩ := (integrity_of_check LrTable.check_lists).1 parse reaches
  exact ⟨parse, reaches, beq_iff_eq.mp states, tries⟩

end

end Parse

end TableDriven
