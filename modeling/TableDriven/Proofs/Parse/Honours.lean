import TableDriven.Proofs.Parse.Apply
import TableDriven.Proofs.Parse.Listed
import TableDriven.Proofs.Parse.Settle

/-! # Repairs are honoured

A search tries a repair on the states alone.  `recover_honours`: when a repair that deletes tokens
or inserts a single symbol was found and made, the main loop shifts what was inserted and then
deals with the tokens behind it as the search saw it, without another error.
-/

namespace TableDriven

open TableDriven.Parser
open TableDriven.Repair (Passes Valid demand)

namespace Parse

variable {σ ρ φ V ε : Type} [TokenSource σ V ε] [Resolver ρ σ V ε] [ValueFactory φ V ε]
  {table : LrTable} {stack : StateStack} {feed next : Feed σ ρ V ε} {token : Token V}
  {parse searched : Parse σ ρ φ V ε} {fuel : Nat}

/-- The next tokens are shifted, as these symbols. -/
inductive ShiftsAs : Parse σ ρ φ V ε → List Nat → Parse σ ρ φ V ε → Prop where
  | nil (parse : Parse σ ρ φ V ε) : ShiftsAs parse [] parse
  | cons {parse middle last : Parse σ ρ φ V ε} {token : Token V} {next : Feed σ ρ V ε}
      {symbol : Nat} {symbols : List Nat} (delivers : parse.feed.Delivers token next)
      (settles : parse.SettlesAs (.shifted symbol, middle)) (rest : ShiftsAs middle symbols last) :
      ShiftsAs parse (symbol :: symbols) last

/-- The next tokens are shifted, `count` of them, unless the input is accepted or the end of file
shifted before. -/
inductive Clears : Nat → Parse σ ρ φ V ε → Prop where
  | enough {parse : Parse σ ρ φ V ε} : Clears 0 parse
  | accepted {count : Nat} {parse after : Parse σ ρ φ V ε} {token : Token V}
      {next : Feed σ ρ V ε} {value : Option V} (delivers : parse.feed.Delivers token next)
      (settles : parse.SettlesAs (.ended (.ok value), after)) : Clears (count + 1) parse
  | ended {count symbol : Nat} {parse after : Parse σ ρ φ V ε} {token : Token V}
      {next : Feed σ ρ V ε} (delivers : parse.feed.Delivers token next)
      (last : token.number = parse.table.eof)
      (settles : parse.SettlesAs (.shifted symbol, after)) : Clears (count + 1) parse
  | shifted {count symbol : Nat} {parse middle : Parse σ ρ φ V ε} {token : Token V}
      {next : Feed σ ρ V ε} (delivers : parse.feed.Delivers token next)
      (settles : parse.SettlesAs (.shifted symbol, middle)) (rest : Clears count middle) :
      Clears (count + 1) parse

/-- The main loop goes on as it does from the parse behind these tokens. -/
theorem ShiftsAs.run_eq {after : Parse σ ρ φ V ε} {symbols : List Nat}
    (shifts : parse.ShiftsAs symbols after) :
    ∃ spent enough, ∀ fuel, enough ≤ fuel → parse.run (fuel + spent) = after.run fuel := by
  induction shifts with
  | nil parse => exact ⟨0, 0, fun fuel _ => rfl⟩
  | cons delivers settles _ ih =>
    obtain ⟨first, least, runs⟩ := settles.run_eq delivers
    obtain ⟨spent, enough, later⟩ := ih
    refine ⟨spent + first, max least enough, fun fuel more => ?_⟩
    rw [← Nat.add_assoc, runs _ (by omega)]
    exact later fuel (by omega)

namespace Mirrors

variable (checked : table.Checked) (valid : table.IsStack stack)
  (mirrors : parse.Mirrors table stack feed)
include checked valid mirrors

theorem shifts {terminal : Nat} {shifted : StateStack} (delivers : feed.Delivers token next)
    (advances : table.Advances stack token.number (.shifted terminal shifted)) :
    ∃ after, parse.SettlesAs (.shifted terminal, after) ∧
      after.Mirrors table shifted next.takeJournal.2 := by
  obtain ⟨settled, settles, related⟩ :=
    settlesAs_of_advances checked valid mirrors delivers advances
  cases related with
  | shifted symbol mirrors => exact ⟨_, settles, mirrors⟩

theorem accepts (delivers : feed.Delivers token next)
    (advances : table.Advances stack token.number .accepted) :
    ∃ value after, parse.SettlesAs (.ended (.ok value), after) := by
  obtain ⟨settled, settles, related⟩ :=
    settlesAs_of_advances checked valid mirrors delivers advances
  cases related with
  | accepted value => exact ⟨value, _, settles⟩

end Mirrors

/-- The feeds `supplied` at a distance deliver what is ahead from there on. -/
def Supplies (supplied : Feed σ ρ V ε → Nat → Prop) (ahead : Nat → Nat → Prop) : Prop :=
  ∀ feed distance number, supplied feed distance → ahead distance number →
    ∃ token next, feed.Delivers token next ∧ token.number = number ∧
      supplied next.takeJournal.2 (distance + 1)

/-- Where tokens pass in a trial the main loop deals with them. -/
theorem Mirrors.clears {supplied : Feed σ ρ V ε → Nat → Prop} {ahead : Nat → Nat → Prop}
    {count distance : Nat} (supplies : Supplies supplied ahead) (checked : table.Checked)
    (valid : table.IsStack stack) (passes : Passes table ahead count stack distance)
    (mirrors : parse.Mirrors table stack feed) (here : supplied feed distance) :
    Clears count parse := by
  -- Each shifted token leaves the parse in front of the next with the stack of the trial.
  induction passes generalizing parse feed with
  | enough => exact .enough
  | accepted shown advances =>
    obtain ⟨token, next, delivers, rfl, -⟩ := supplies _ _ _ here shown
    obtain ⟨value, after, settles⟩ := mirrors.accepts checked valid delivers advances
    exact .accepted (mirrors.feed ▸ delivers) settles
  | ended shown advances =>
    obtain ⟨token, next, delivers, last, -⟩ := supplies _ _ _ here shown
    obtain ⟨after, settles, -⟩ := mirrors.shifts checked valid delivers (last ▸ advances)
    exact .ended (mirrors.feed ▸ delivers) (last.trans (congrArg LrTable.eof mirrors.table.symm))
      settles
  | shifted shown advances _ ih =>
    obtain ⟨token, next, delivers, rfl, there⟩ := supplies _ _ _ here shown
    obtain ⟨middle, settles, later⟩ := mirrors.shifts checked valid delivers advances
    exact .shifted (mirrors.feed ▸ delivers) settles
      (ih (advances.isStack checked valid) later there)

omit [ValueFactory φ V ε] in
/-- Tokens that wait are delivered. -/
theorem supplies_of_waiting (waiting : List (Token V)) (behind : Feed σ ρ V ε) :
    Supplies (fun feed distance => Feed.Behind (waiting.drop distance) feed behind)
      fun distance number => ∃ token, waiting[distance]? = some token ∧ token.number = number := by
  rintro feed distance _ here ⟨token, there, rfl⟩
  obtain ⟨inside, rfl⟩ := List.getElem?_eq_some_iff.mp there
  rw [List.drop_eq_getElem_cons inside] at here
  obtain ⟨next, delivers, left⟩ := here.delivers
  exact ⟨_, next, delivers, rfl, left.takeJournal⟩

/-- **A deletion or a single symbol is honoured.**  Once the repair is made, the main loop shifts
the inserted symbol, if any, and goes on in front of the tokens behind the deletions; these it
deals with until as many are shifted as the table demands, or the input is accepted or its end
shifted. -/
theorem recover_honours {repair : Repair} (accepted : parse.table.check = .ok ())
    (valid : parse.table.IsStack parse.states)
    (found : parse.findRepair fuel = .ok (.ok (some repair), searched))
    (plain : repair.insertion = .nothing ∨ ∃ symbol, repair.insertion = .single symbol) :
    ∃ repaired after, parse.recover fuel = .ok (none, repaired) ∧
      repaired.ShiftsAs repair.insertion.symbols after ∧
      (∃ spent enough, ∀ fuel, enough ≤ fuel → repaired.run (fuel + spent) = after.run fuel) ∧
      parse.feed.queue.toList <+: searched.feed.queue.toList ∧
      after.feed.queue.toList = searched.feed.queue.toList.drop repair.deletions ∧
      after.Clears (demand parse.table) := by
  have checked := LrTable.check_eq_ok_iff.mp accepted
  obtain ⟨waits, repairs, token, -, repaired, recovered, -, stands⟩ := recover_ok found
  obtain ⟨next, inserts, passes⟩ := repairs.parses
  have waiting : Passes parse.table (fun distance number => ∃ token,
      searched.feed.queue.toList[distance]? = some token ∧ token.number = number)
      (demand parse.table) next repair.deletions := by
    refine passes.mono ?_
    rintro distance number ⟨-, token, there, same⟩
    exact ⟨token, by rw [← Queue.get?_eq, there], same⟩
  have supplies := supplies_of_waiting searched.feed.queue.toList
    { searched.feed with queue := .empty }
  obtain nothing | ⟨symbol, single⟩ := plain
  · -- The tokens behind the deletions stand in front at once.
    rw [nothing] at inserts stands ⊢
    cases inserts
    have mirrors : repaired.Mirrors parse.table parse.states repaired.feed :=
      ⟨stands.table, stands.states, rfl⟩
    have shifts : repaired.ShiftsAs [] repaired := .nil repaired
    refine ⟨repaired, repaired, recovered, shifts, shifts.run_eq, waits, ?_,
      mirrors.clears supplies checked valid waiting stands.feed⟩
    simpa [Parse.inserted] using stands.feed.queue
  · -- The inserted symbol stands in front of them, and it is no marker.
    rw [single] at inserts stands ⊢
    cases inserts with
    | single listed advances =>
      obtain rfl := (advances.terminal_eq (checked.isMarker_single listed)).symm
      have mirrors : repaired.Mirrors parse.table parse.states repaired.feed :=
        ⟨stands.table, stands.states, rfl⟩
      obtain ⟨rest, delivers, left⟩ := stands.feed.delivers
      obtain ⟨after, settles, mirrors⟩ := mirrors.shifts checked valid delivers advances
      have valid := advances.isStack checked valid
      have shifts : repaired.ShiftsAs [symbol] after := .cons delivers settles (.nil after)
      refine ⟨repaired, after, recovered, shifts, shifts.run_eq, waits, ?_,
        mirrors.clears supplies checked valid waiting left.takeJournal⟩
      rw [mirrors.feed]
      simpa using left.takeJournal.queue

/-- A `b` behind a list is deleted, and what comes behind it is dealt with. -/
theorem recover_honours_lists : ∃ repaired after,
    (ofListed .lists [1, 0] [1, 0]).recover 9 = .ok (none, repaired) ∧
      repaired.ShiftsAs [] after ∧ after.Clears 2 := by
  let start := ofListed .lists [1, 0] [1, 0]
  have valid : LrTable.lists.IsStack start.states :=
    (LrTable.isStack_initial (by decide)).push (by decide)
  obtain ⟨searched, found⟩ : ∃ searched,
      start.findRepair 9 = .ok (.ok (some ⟨1, .nothing, 1⟩), searched) := by
    refine ⟨?searched, ?found⟩
    case found => conv => lhs; cbv
  obtain ⟨repaired, after, recovered, shifts, -, -, -, clears⟩ :=
    recover_honours LrTable.check_lists valid found (.inl rfl)
  exact ⟨repaired, after, recovered, shifts, clears⟩

end Parse

end TableDriven
