import TableDriven.Proofs.Parse.Honours
import TableDriven.Proofs.Parse.Integrity
import TableDriven.Proofs.Parse.Ledger

/-! # No token is lost

The books of a parse balance wherever the main loop comes.  A token that a repair inserted is never
deleted: a single symbol is shifted before the next error (`shiftsAs_clears_of_plain`), and no
search deletes a marker.  So when a token is in error, all that is pending are markers, and a
repair that deletes tokens finds none of them in front.
-/

namespace TableDriven

open TableDriven.Parser
open TableDriven.Repair (Passes demand)

namespace Parse

variable {σ ρ φ V ε : Type} [TokenSource σ V ε] [Resolver ρ σ V ε] [ValueFactory φ V ε]
  [LawfulTokenSource σ V ε] {table : LrTable} {parse next waiting searched : Parse σ ρ φ V ε}
  {token : Token V} {pending : List (Token V)} {repair : Repair} {fuel enough : Nat}

omit [ValueFactory φ V ε] in
theorem nextToken_mono {answer : Except StreamFault (Token V) × Parse σ ρ φ V ε}
    (taken : parse.nextToken fuel = .ok answer) (more : fuel ≤ enough) :
    parse.nextToken enough = .ok answer := by
  obtain ⟨fed, taken, told⟩ := bind_eq_ok_iff.mp taken
  exact bind_eq_ok_iff.mpr ⟨fed, Feed.next_mono taken more, told⟩

theorem turn_eq_of_le {answer : Turn V × Parse σ ρ φ V ε} (turned : parse.turn fuel = .ok answer)
    (more : fuel ≤ enough) : parse.turn enough = .ok answer := by
  obtain ⟨told, fetched, -⟩ := bind_eq_ok_iff.mp turned
  exact turn_mono (fetched.trans (nextToken_mono fetched more).symm) turned more

/-- Behind a reduction the same becomes of the token as before. -/
theorem SettlesAs.turn {settled : Turn V × Parse σ ρ φ V ε} (settles : parse.SettlesAs settled)
    (turned : parse.turn fuel = .ok (.reduced, next)) : next.SettlesAs settled := by
  obtain ⟨enough, settles⟩ := settles
  refine ⟨max fuel enough, fun most more => ?_⟩
  have later := settles (most + 1) (by omega)
  rwa [settle, turn_eq_of_le turned (by omega), ok_bind] at later

/-- A turn that makes no reduction settles the token. -/
theorem settlesAs_of_turn {turn : Turn V} (turned : parse.turn fuel = .ok (turn, next))
    (other : turn ≠ .reduced) : parse.SettlesAs (turn, next) := by
  refine ⟨fuel + 1, fun most more => ?_⟩
  obtain ⟨most, rfl⟩ : ∃ less, most = less + 1 := ⟨most - 1, by omega⟩
  rw [settle, turn_eq_of_le turned (by omega), ok_bind]
  cases turn with
  | reduced => contradiction
  | shifted | stuck | ended => rfl

omit [LawfulTokenSource σ V ε] in
/-- Behind a repair that inserts no continuation, the main loop shifts the symbol that was inserted
and deals with the tokens behind the deletions. -/
theorem shiftsAs_clears_of_plain (checked : waiting.table.Checked)
    (valid : waiting.table.IsStack waiting.states)
    (found : waiting.findRepair fuel = .ok (.ok (some repair), searched))
    (applied : searched.apply fuel repair = .ok (.ok (), next))
    (plain : ∀ symbols, repair.insertion ≠ .continuation symbols) :
    ∃ after, next.ShiftsAs repair.insertion.symbols after ∧
      after.Clears (demand waiting.table) := by
  obtain ⟨-, repairs⟩ := valid_of_found found
  obtain ⟨stack, inserts, passes⟩ := repairs.parses
  obtain ⟨token, repaired, -, made, -, stands⟩ := apply_ok_of_found found
  cases applied.symm.trans made
  have mirrors : next.Mirrors waiting.table waiting.states next.feed :=
    ⟨stands.table, stands.states, rfl⟩
  have supplies := supplies_of_waiting searched.feed.queue.toList
    { searched.feed with queue := .empty }
  have passes : Passes waiting.table (fun distance number => ∃ token,
      searched.feed.queue.toList[distance]? = some token ∧ token.number = number)
      (demand waiting.table) stack repair.deletions := by
    refine passes.mono ?_
    rintro distance number ⟨-, token, there, same⟩
    exact ⟨token, by rw [← Queue.get?_eq, there], same⟩
  generalize repair.insertion = insertion at *
  cases inserts with
  | nothing =>
    exact ⟨next, .nil next, mirrors.clears supplies checked valid passes stands.feed⟩
  | single listed advances =>
    obtain rfl := (advances.terminal_eq (checked.isMarker_single listed)).symm
    obtain ⟨rest, delivers, left⟩ := stands.feed.delivers
    obtain ⟨after, settles, mirrors⟩ := mirrors.shifts checked valid delivers advances
    exact ⟨after, .cons delivers settles (.nil after), mirrors.clears supplies checked
      (advances.isStack checked valid) passes left.takeJournal⟩
  | continuation => exact absurd rfl (plain _)

/-- The pending tokens are markers, but perhaps for the first, which the main loop shifts. -/
inductive Awaits (table : LrTable) (parse : Parse σ ρ φ V ε) : List (Token V) → Prop where
  | markers {pending : List (Token V)}
      (marked : ∀ token ∈ pending, table.isMarker token.number = true) : Awaits table parse pending
  | single {token : Token V} {pending : List (Token V)} {symbol : Nat} {after : Parse σ ρ φ V ε}
      (settles : parse.SettlesAs (.shifted symbol, after))
      (marked : ∀ token ∈ pending, table.isMarker token.number = true) :
      Awaits table parse (token :: pending)

namespace Awaits

variable (awaits : parse.Awaits table pending)
include awaits

omit [LawfulTokenSource σ V ε] in
theorem shifted (next : Parse σ ρ φ V ε) : next.Awaits table (pending.drop 1) := by
  cases awaits with
  | markers marked => exact .markers fun token member => marked token (List.mem_of_mem_drop member)
  | single _ marked => exact .markers marked

theorem reduced (turned : parse.turn fuel = .ok (.reduced, next)) : next.Awaits table pending := by
  cases awaits with
  | markers marked => exact .markers marked
  | single settles marked => exact .single (settles.turn turned) marked

/-- What is pending in front of an error are markers. -/
theorem marked (turned : parse.turn fuel = .ok (.stuck, waiting)) :
    ∀ token ∈ pending, table.isMarker token.number = true := by
  cases awaits with
  | markers marked => exact marked
  | single settles _ => cases settles.unique (settlesAs_of_turn turned (nofun))

end Awaits

section
variable (checked : table.Checked) (fits : table.symbols < UInt32.size)
  (sound : waiting.Sound table)
  (found : waiting.findRepair fuel = .ok (.ok (some repair), searched))
include sound found

omit [ValueFactory φ V ε] [LawfulTokenSource σ V ε] in
/-- No repair deletes the end of file or a marker. -/
theorem spares_of_found (token : Token V)
    (member : token ∈ searched.feed.queue.toList.take repair.deletions) :
    token.number ≠ table.eof ∧ table.isMarker token.number = false := by
  obtain ⟨-, repairs⟩ := valid_of_found found
  obtain ⟨spent, deletes, -⟩ := repairs.costs
  rw [sound.table] at deletes
  obtain ⟨distance, there⟩ := List.mem_iff_getElem?.mp member
  rw [List.getElem?_take] at there
  split at there
  next inside =>
    obtain ⟨symbol, ⟨-, other, waits, rfl⟩, noEof, unmarked⟩ := deletes.exists_symbol inside
    rw [Queue.get?_eq, there] at waits
    cases waits
    exact ⟨noEof, unmarked⟩
  next => cases there

include checked fits in
omit [LawfulTokenSource σ V ε] in
/-- A repair leaves markers pending, and a single symbol in front of them if it inserts one. -/
theorem Awaits.repaired (marked : ∀ token ∈ pending, table.isMarker token.number = true)
    (applied : searched.apply fuel repair = .ok (.ok (), next)) (token : Token V) :
    next.Awaits table ((waiting.inserted token repair.insertion).reverse ++ pending) := by
  cases inserts : repair.insertion with
  | nothing => exact .markers marked
  | single symbol =>
    have same := sound.table
    subst same
    obtain ⟨after, shifts, -⟩ := shiftsAs_clears_of_plain checked sound.isStack found applied
      fun symbols other => nomatch inserts.symm.trans other
    rw [inserts] at shifts
    cases shifts with
    | cons _ settles => exact .single settles marked
  | continuation symbols =>
    have number : table.isMarker table.markerNumber.toNat = true := by
      rw [LrTable.isMarker, LrTable.markerNumber, UInt32.toNat_ofNat', Nat.mod_eq_of_lt fits]
      exact beq_self_eq_true _
    refine .markers fun other member => ?_
    obtain inserted | member := List.mem_append.mp member
    · obtain ⟨symbol, -, rfl⟩ := List.mem_map.mp (List.mem_reverse.mp inserted)
      exact sound.table ▸ number
    · exact marked other member

end

section
variable {whole : Feed σ ρ V ε} {events more : List (Event V)}

/-- The books of a parse balance, and if the number of the marker fits a token, nothing that a repair
inserted was deleted. -/
structure Conserves (table : LrTable) (whole : Feed σ ρ V ε) (events : List (Event V))
    (parse : Parse σ ρ φ V ε) : Prop where
  accounts : Accounts table whole events (.ofEvents table events) parse.feed
  awaits : table.symbols < UInt32.size → parse.Awaits table (Books.ofEvents table events).pending
  own : table.symbols < UInt32.size → ∀ entry ∈ (Books.ofEvents table events).entries,
    entry.fate = .deleted → entry.isOwn = true

omit [ValueFactory φ V ε] in
/-- What is deleted where only markers are pending was not inserted. -/
theorem isOwn_of_mem_entered {entry : Entry V} (sound : waiting.Sound table)
    (resumes : waiting.feed.Resumes pending whole enough)
    (marked : ∀ token ∈ pending, table.isMarker token.number = true)
    (found : waiting.findRepair fuel = .ok (.ok (some repair), searched))
    (member : entry ∈
      entered .deleted pending (searched.feed.queue.toList.take repair.deletions)) :
    entry.isOwn = true := by
  rw [Books.mem_entered_iff] at member
  cases own : entry.isOwn with
  | true => rfl
  | false =>
    -- The token would be both pending, so a marker, and deleted, so none.
    obtain ⟨-, taken⟩ := own ▸ member
    have both := taken
    rw [cond_false, resumes.take_eq fun _ _ => shows_of_mem_deleted found] at both
    have marker := marked _ (List.mem_of_mem_take both)
    have unmarked := (spares_of_found sound found _ (List.mem_of_mem_take taken)).2
    exact absurd marker (by simp [unmarked])

theorem Conserves.does (conserves : parse.Conserves table whole events)
    (checked : table.Checked) (sound : parse.Sound table) (does : parse.Does more (none, next)) :
    next.Conserves table whole (events ++ more) := by
  obtain ⟨accounts, awaits, own⟩ := conserves
  cases does with
  | shifted turned turns =>
    obtain ⟨token, same, balanced⟩ := accounts.shifted turns
    rw [← Books.ofEvents_append] at same
    refine ⟨same ▸ balanced, fun fits => same ▸ (awaits fits).shifted next, fun fits => ?_⟩
    rw [same]
    intro entry member deleted
    obtain old | new := List.mem_append.mp member
    · exact own fits entry old deleted
    · cases deleted.symm.trans ((Books.mem_entered_iff _ _ _).mp new).1
  | reduced turned turns =>
    obtain ⟨same, balanced⟩ := accounts.waits turns (.inl rfl)
    rw [← Books.ofEvents_append] at same
    exact ⟨same ▸ balanced, fun fits => same ▸ (awaits fits).reduced turned,
      fun fits => same ▸ own fits⟩
  | repaired turned turns found front applied =>
    have waits := (sound.turns checked turns).2 rfl
    have marked fits := (awaits fits).marked turned
    obtain ⟨-, balanced⟩ := accounts.waits turns (.inr rfl)
    rw [List.append_nil] at balanced
    obtain ⟨same, repaired⟩ := balanced.repaired waits.table found front rfl applied
    rw [← Books.ofEvents_append] at same
    refine ⟨same ▸ repaired, fun fits => same ▸ ?_, fun fits => ?_⟩
    · exact Awaits.repaired checked fits waits found
        (fun token member => marked fits token (List.mem_of_mem_drop member)) applied _
    · rw [same]
      intro entry member deleted
      obtain old | new := List.mem_append.mp member
      · exact own fits entry old deleted
      · exact isOwn_of_mem_entered waits balanced.resumes (marked fits) found new

omit [LawfulTokenSource σ V ε] in
theorem Does.reports_eq (does : parse.Does more (none, next)) :
    next.reports = parse.reports ++ more.filterMap Event.report? := by
  cases does with
  | shifted _ turns | reduced _ turns =>
    rw [turns.reports_eq, turns.report?_eq, List.append_nil]
  | repaired _ turns found front applied =>
    rw [(tells_of_applied found front applied).reports_eq, turns.reports_eq]
    rfl

omit [LawfulTokenSource σ V ε] in
/-- The step that ends a parse makes no repair. -/
theorem Does.reports_eq_of_ended {result : Result V} {last : Parse σ ρ φ V ε}
    (does : parse.Does more (some result, last)) : last.reports = parse.reports := by
  cases does with
  | ended turns => exact turns.reports_eq
  | abandoned turns tells => rw [tells.reports_eq, turns.reports_eq, List.append_nil]

omit [LawfulTokenSource σ V ε] in
/-- What a step deletes is neither the end of file nor a marker. -/
theorem Does.spares {token : Token V} {deleted : List (Token V)}
    (does : parse.Does more (none, next)) (checked : table.Checked) (sound : parse.Sound table)
    (member : .repaired token repair deleted ∈ more) :
    ∀ other ∈ deleted, other.number ≠ table.eof ∧ table.isMarker other.number = false := by
  have quiet {turn : Turn V} {after : Parse σ ρ φ V ε} (turns : parse.Turns more (turn, after)) :
      False := by
    have reported := List.mem_filterMap.mpr ⟨_, member, (rfl : Event.report? _ = some _)⟩
    rw [turns.report?_eq] at reported
    cases reported
  cases does with
  | shifted _ turns | reduced _ turns => exact (quiet turns).elim
  | repaired _ turns found front applied =>
    cases List.mem_singleton.mp member
    exact spares_of_found ((sound.turns checked turns).2 rfl) found

/-! ## Whole parses -/

variable {start : Parse σ ρ φ V ε}

theorem Runs.conserves (runs : start.Runs events parse) (checked : table.Checked)
    (sound : start.Sound table) : parse.Conserves table start.feed events := by
  induction runs with
  | start => exact ⟨accounts_start _, fun _ => .markers nofun, fun _ => nofun⟩
  | step runs _ does ih => exact ih.does checked (runs.reaches.sound checked sound) does

omit [LawfulTokenSource σ V ε] in
theorem Runs.reports_eq (runs : start.Runs events parse) :
    parse.reports = start.reports ++ events.filterMap Event.report? := by
  induction runs with
  | start => simp
  | step _ _ does ih => rw [does.reports_eq, ih, List.filterMap_append, List.append_assoc]

omit [LawfulTokenSource σ V ε] in
theorem Runs.spares {deleted : List (Token V)} (runs : start.Runs events parse)
    (checked : table.Checked) (sound : start.Sound table)
    (member : .repaired token repair deleted ∈ events) :
    ∀ other ∈ deleted, other.number ≠ table.eof ∧ table.isMarker other.number = false := by
  induction runs with
  | start => cases member
  | step runs _ does ih =>
    obtain earlier | last := List.mem_append.mp member
    · exact ih earlier
    · exact does.spares checked (runs.reaches.sound checked sound) last

end

/-- **No token is lost, duplicated or reordered.**  Wherever the main loop comes from the start of a
parse, it has a history, and the books of it balance: the tokens of the stream were shifted or
deleted one after the other, and next come those that repairs inserted and that were not dealt with
yet, and then the rest of the stream.  Each repair was reported.  It deletes neither the end of
file nor a marker, and nothing that a repair inserted, provided that the number of the marker fits
a token. -/
theorem accounts_of_runs (parser : Parser φ V ε) (feed : Feed σ ρ V ε)
    (accepted : parser.table.check = .ok ()) :
    (∀ parse, (start parser feed).Reaches parse →
      ∃ events, (start parser feed).Runs events parse) ∧
      ∀ events parse, (start parser feed).Runs events parse →
        Accounts parser.table feed events (.ofEvents parser.table events) parse.feed ∧
        (parser.table.symbols < UInt32.size →
          ∀ entry ∈ (Books.ofEvents parser.table events).entries,
            entry.fate = .deleted → entry.isOwn = true) ∧
        parse.reports = (start parser feed).reports ++ events.filterMap Event.report? ∧
        ∀ token repair deleted, .repaired token repair deleted ∈ events → ∀ other ∈ deleted,
          other.number ≠ parser.table.eof ∧ parser.table.isMarker other.number = false := by
  have checked := LrTable.check_eq_ok_iff.mp accepted
  have sound : (start parser feed).Sound parser.table := sound_start checked
  refine ⟨fun parse reaches => reaches.exists_runs, fun events parse runs => ?_⟩
  obtain ⟨accounts, -, own⟩ := runs.conserves checked sound
  exact ⟨accounts, own, runs.reports_eq,
    fun token repair deleted member => runs.spares checked sound member⟩

/-- Where a `b` behind a list was deleted, the books balance. -/
theorem accounts_of_runs_lists : ∃ (feed : Feed (Listed Unit) Empty Unit Empty)
    (parse : Parse (Listed Unit) Empty Empty Unit Empty) (events : List (Event Unit)),
      (start (Parser.create .lists true) feed).Runs events parse ∧ parse.reports.length = 1 ∧
        Accounts .lists feed events (.ofEvents .lists events) parse.feed ∧
          ∀ entry ∈ (Books.ofEvents .lists events).entries,
            entry.fate = .deleted → entry.isOwn = true := by
  let parser : Parser Empty Unit Empty := .create .lists true
  let feed : Feed (Listed Unit) Empty Unit Empty :=
    .ofSource (.ofSymbols [(0, none), (1, none), (0, none)] LrTable.lists.eof) LrTable.lists.eof
  have told : (start parser feed).reachesIn 9 (fun parse => parse.reports.length == 1) 2 = true := by
    decide +kernel
  obtain ⟨parse, reaches, reported⟩ := exists_reaches_of_reachesIn told
  obtain ⟨traced, balanced⟩ := accounts_of_runs parser feed LrTable.check_lists
  obtain ⟨events, runs⟩ := traced parse reaches
  obtain ⟨accounts, own, -⟩ := balanced events parse runs
  exact ⟨feed, parse, events, runs, beq_iff_eq.mp reported, accounts, own (by decide)⟩

end Parse

end TableDriven
