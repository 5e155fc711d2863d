import TableDriven.Proofs.Parse.Conservation
import TableDriven.Proofs.Repair.Markers

/-! # Foreign tokens

A token is foreign to a table if its number lies beyond the symbols and is not that of the marker.
The table has no action for it but an error (`Faces.number_le`), so it is never shifted and makes
no reduction: it waits until a repair deletes it or the parse ends (`Refuses`).  What makes a token
a marker is its number alone, wherever it comes from: a source that delivers this number has the
token resolved by the unwinding table (`marker_of_source_shifted`).
-/

namespace TableDriven

open TableDriven.Parser

theorem LrTable.action_eq_error {table : LrTable} {state symbol : Nat} {action : Action}
    (outside : table.symbols ≤ symbol) (found : table.action state symbol = .ok action) :
    action = .error := by
  obtain ⟨row, -, found⟩ := bind_eq_ok_iff.mp found
  split at found
  next =>
    rw [if_neg (Nat.not_lt.mpr outside)] at found
    cases found
    rfl
  next =>
    cases found
    rfl

namespace Parse

variable {σ ρ φ V ε : Type} [TokenSource σ V ε] [Resolver ρ σ V ε] {table : LrTable}
  {parse decided : Parse σ ρ φ V ε} {token : Token V} {symbol : Nat} {action : Action}
  {events more : List (Event V)}

/-- Only a marker stands for another symbol, or for a reduction: any other token stands for itself,
and the action is that of a row of the table. -/
theorem Faces.unmarked (faces : parse.Faces token symbol action decided)
    (unmarked : token.number ≠ parse.table.marker) :
    symbol = token.number ∧ ∃ state, parse.table.action state symbol = .ok action := by
  have plain : parse.table.isMarker token.number = false := beq_false_of_ne unmarked
  cases faces with
  | unwound fetches top resolved =>
    rw [(tells_nextToken fetches).table_eq, LrTable.resolve_unmarked plain] at resolved
    cases resolved
  | @named _ state _ _ _ fetches top resolved found =>
    rw [(tells_nextToken fetches).table_eq] at resolved found
    rw [LrTable.resolve_unmarked plain] at resolved
    cases resolved
    exact ⟨rfl, state, found⟩

theorem Faces.number_le (faces : parse.Faces token symbol action decided)
    (good : action ≠ .error) : token.number ≤ parse.table.symbols := by
  refine Nat.le_of_not_lt fun foreign => ?_
  obtain ⟨rfl, state, found⟩ := faces.unmarked (Nat.ne_of_gt foreign)
  exact good (LrTable.action_eq_error (Nat.le_of_lt foreign) found)

variable [ValueFactory φ V ε]

/-- A foreign token in front is a syntax error: it waits, and no reduction is made. -/
theorem turn_of_foreign {next : Feed σ ρ V ε} (checked : table.Checked) (sound : parse.Sound table)
    (delivers : parse.feed.Delivers token next) (foreign : table.symbols < token.number) :
    ∃ enough waiting, (∀ fuel, enough ≤ fuel → parse.turn fuel = .ok (.stuck, waiting)) ∧
      waiting.stack = parse.stack ∧ waiting.feed.Shows 0 token := by
  obtain ⟨enough, taken⟩ := delivers
  obtain ⟨state, below, shape, known⟩ := sound.isStack.exists_top
  let fetched := parse.withFeed next
  have mirrors : fetched.Mirrors table (some state :: below) fetched.feed :=
    ⟨sound.table, shape, rfl⟩
  have resolved : fetched.table.resolve state token.number = .ok (.shift token.number) :=
    LrTable.resolve_unmarked (beq_false_of_ne (sound.table ▸ Nat.ne_of_gt foreign)) state
  obtain ⟨action, found, -⟩ := checked.action_ok known token.number
  rw [LrTable.action_eq_error (Nat.le_of_lt foreign) found, ← mirrors.table] at found
  refine ⟨enough, (fetched.note (.decided state (fetched.table.symbolLabel token.number)
    .error)).pushBack token, fun fuel more => ?_, rfl, (Feed.behind_pushBack _ token).shows_front⟩
  have fetches : parse.nextToken fuel = .ok (.ok token, fetched) := by
    rw [nextToken, taken fuel more]
    rfl
  simp only [turn, fetches, mirrors.top_ok rfl, resolved, found, ok_bind]
  rfl

theorem Turns.number_le {answer : Turn V × Parse σ ρ φ V ε} (turns : parse.Turns more answer)
    (member : .shifted token ∈ more) : token.number ≤ parse.table.symbols := by
  cases turns with
  | failed | stuck => cases member
  | shifted faces =>
    cases List.mem_singleton.mp member
    exact faces.number_le nofun
  | shiftReduced faces =>
    obtain first | later := List.mem_cons.mp member
    · cases first
      exact faces.number_le nofun
    · simp at later
  | reduced => simp at member

theorem Does.number_le {answer : Option (Result V) × Parse σ ρ φ V ε}
    (does : parse.Does more answer) (member : .shifted token ∈ more) :
    token.number ≤ parse.table.symbols := by
  cases does with
  | shifted _ turns | reduced _ turns | ended turns => exact turns.number_le member
  | repaired => simp at member
  | abandoned => cases member

theorem Runs.number_le {start : Parse σ ρ φ V ε} (runs : start.Runs events parse)
    (checked : table.Checked) (sound : start.Sound table) (member : .shifted token ∈ events) :
    token.number ≤ table.symbols := by
  induction runs with
  | start => cases member
  | step runs _ does ih =>
    obtain earlier | last := List.mem_append.mp member
    · exact ih earlier
    · exact (runs.reaches.sound checked sound).table ▸ does.number_le last

/-! ## The fate of foreign tokens -/

/-- A repair deleted the token, and this was reported. -/
def DeletedIn (events : List (Event V)) (reports : List (Token V × Report)) (token : Token V) :
    Prop :=
  ∃ front repair deleted, .repaired front repair deleted ∈ events ∧ token ∈ deleted ∧
    (front, Report.ofRepair repair (deleted.map Token.number)) ∈ reports

/-- The books of these events balance with what is left of a stream `whole`, no foreign token was
shifted, and each one of the stream still waits there or was deleted by a repair that was
reported. -/
structure Refuses (table : LrTable) (whole : Feed σ ρ V ε) (events : List (Event V))
    (reports : List (Token V × Report)) (rest : Feed σ ρ V ε) : Prop where
  accounts : Accounts table whole events (.ofEvents table events) rest
  shifted : ∀ token, .shifted token ∈ events → token.number ≤ table.symbols
  fate : ∀ distance token, whole.Shows distance token → table.symbols < token.number →
    let books := Books.ofEvents table events
    (books.own.length ≤ distance ∧
        rest.Shows (books.pending.length + (distance - books.own.length)) token) ∨
      (books.entries.filter Entry.isOwn)[distance]? = some ⟨.deleted, token, true⟩ ∧
        DeletedIn events reports token

omit [ValueFactory φ V ε] in
theorem refuses_of_accounts [LawfulTokenSource σ V ε] {whole rest : Feed σ ρ V ε}
    {reports : List (Token V × Report)}
    (accounts : Accounts table whole events (.ofEvents table events) rest)
    (shifted : ∀ token, .shifted token ∈ events → token.number ≤ table.symbols)
    (reported : events.filterMap Event.report? ⊆ reports) :
    Refuses table whole events reports rest where
  accounts := accounts
  shifted := shifted
  fate := by
    intro distance token shown foreign books
    by_cases old : distance < books.own.length
    · have inside : distance < (books.entries.filter Entry.isOwn).length := by
        simpa [Books.own] using old
      have found : (books.entries.filter Entry.isOwn)[distance]? =
          some (books.entries.filter Entry.isOwn)[distance] := List.getElem?_eq_getElem inside
      obtain ⟨member, own⟩ := List.mem_filter.mp (List.mem_of_getElem? found)
      generalize (books.entries.filter Entry.isOwn)[distance] = entry at found member own
      have same : token = entry.token := by
        refine shown.unique (accounts.own distance entry.token ?_)
        rw [Books.own, List.getElem?_map, found]
        rfl
      -- The entry is that of a shift or of a deletion, and foreign tokens are not shifted.
      have dealt : (entry.fate, entry.token) ∈ events.flatMap Event.fates :=
        accounts.fates ▸ List.mem_map_of_mem member
      obtain ⟨event, happened, dealt⟩ := List.mem_flatMap.mp dealt
      obtain ⟨fate, taken, isOwn⟩ := entry
      subst same own
      cases event with
      | shifted other =>
        cases List.mem_singleton.mp dealt
        exact absurd (shifted _ happened) (Nat.not_le.mpr foreign)
      | reduced => cases dealt
      | repaired front repair deleted =>
        obtain ⟨other, gone, same⟩ := List.mem_map.mp dealt
        cases same
        exact .inr ⟨found, front, repair, deleted, happened, gone,
          reported (List.mem_filterMap.mpr ⟨_, happened, rfl⟩)⟩
    · have far : books.own.length ≤ distance := Nat.le_of_not_lt old
      refine .inl ⟨far, (accounts.resumes _ _).mpr (.inr ⟨Nat.le_add_right _ _, ?_⟩)⟩
      rwa [Nat.add_sub_cancel_left, Nat.add_sub_of_le far]

section
variable [LawfulTokenSource σ V ε] {start last : Parse σ ρ φ V ε} {result : Result V}

/-- The step that ends a parse takes a token at most. -/
theorem Accounts.ended {whole : Feed σ ρ V ε} {books : Books V}
    (accounts : Accounts table whole events books parse.feed)
    (does : parse.Does more (some result, last)) :
    ∃ rest, Accounts table whole (events ++ more) (more.foldl (Books.keep table) books) rest := by
  cases does with
  | abandoned => exact ⟨parse.feed, (List.append_nil events).symm ▸ accounts⟩
  | ended turns =>
    cases turns with
    | failed => exact ⟨parse.feed, (List.append_nil events).symm ▸ accounts⟩
    | @shiftReduced _ _ _ productions _ _ _ _ faces =>
      obtain ⟨fuel, next, taken, -⟩ := faces.exists_next
      obtain ⟨same, balanced⟩ := accounts.shift taken productions
      exact ⟨_, same ▸ balanced⟩
    | @reduced _ _ _ productions =>
      have balanced := accounts.reduced productions fun _ _ => Iff.rfl
      exact ⟨parse.feed, (Books.keep_reduced table books productions).symm ▸ balanced⟩

theorem Runs.refuses (runs : start.Runs events parse) (checked : table.Checked)
    (sound : start.Sound table) :
    Refuses table start.feed events parse.reports parse.feed :=
  refuses_of_accounts (runs.conserves checked sound).accounts
    (fun _ member => runs.number_le checked sound member)
    (runs.reports_eq ▸ List.subset_append_right _ _)

theorem Runs.refuses_ended (runs : start.Runs events parse)
    (does : parse.Does more (some result, last)) (checked : table.Checked)
    (sound : start.Sound table) :
    ∃ rest, Refuses table start.feed (events ++ more) last.reports rest := by
  obtain ⟨rest, balanced⟩ := (runs.conserves checked sound).accounts.ended does
  rw [← Books.ofEvents_append] at balanced
  refine ⟨rest, refuses_of_accounts balanced (fun token member => ?_) ?_⟩
  · obtain earlier | now := List.mem_append.mp member
    · exact runs.number_le checked sound earlier
    · exact (runs.reaches.sound checked sound).table ▸ does.number_le now
  · have quiet : more.filterMap Event.report? = [] := by
      cases does with
      | ended turns => exact turns.report?_eq
      | abandoned => rfl
    rw [List.filterMap_append, quiet, List.append_nil, does.reports_eq_of_ended, runs.reports_eq]
    exact List.subset_append_right _ _

end

/-- **Foreign tokens are never accepted.**  Wherever the main loop comes from the start of a parse,
a foreign token in front is a syntax error, for which the stack stays as it is.  None was shifted,
and each one of the stream still waits or was deleted by a repair that was reported; this is so
too when the parse has ended.  Only tokens with the number of the marker are taken for another
symbol, and no repair deletes one of them. -/
theorem foreign_refused [LawfulTokenSource σ V ε] (parser : Parser φ V ε) (feed : Feed σ ρ V ε)
    (accepted : parser.table.check = .ok ()) :
    (∀ events parse, (start parser feed).Runs events parse →
      Refuses parser.table feed events parse.reports parse.feed ∧
      (∀ token next, parse.feed.Delivers token next → parser.table.symbols < token.number →
        ∃ enough waiting, (∀ fuel, enough ≤ fuel → parse.turn fuel = .ok (.stuck, waiting)) ∧
          waiting.stack = parse.stack ∧ waiting.feed.Shows 0 token) ∧
      (∀ token symbol action decided, parse.Faces token symbol action decided →
        token.number ≠ parser.table.marker →
          symbol = token.number ∧ ∃ state, parser.table.action state symbol = .ok action) ∧
      ∀ token repair deleted, .repaired token repair deleted ∈ events →
        ∀ other ∈ deleted, other.number ≠ parser.table.marker) ∧
      ∀ fuel result last, (start parser feed).run fuel = .ok (result, last) →
        ∃ events parse more rest, (start parser feed).Runs events parse ∧
          parse.Does more (some result, last) ∧
          Refuses parser.table feed (events ++ more) last.reports rest := by
  have checked := LrTable.check_eq_ok_iff.mp accepted
  have sound : (start parser feed).Sound parser.table := sound_start checked
  refine ⟨fun events parse runs => ⟨runs.refuses checked sound, ?_, ?_, ?_⟩, ?_⟩
  · intro token next delivers foreign
    exact turn_of_foreign checked (runs.reaches.sound checked sound) delivers foreign
  · intro token symbol action decided faces unmarked
    have same := (runs.reaches.sound checked sound).table
    exact same ▸ faces.unmarked (same.symm ▸ unmarked)
  · intro token repair deleted member other gone
    exact ne_of_beq_false (runs.spares checked sound member other gone).2
  · intro fuel result last ran
    obtain ⟨parse, enough, reaches, stepped⟩ := exists_reaches_of_run ran
    obtain ⟨events, runs⟩ := reaches.exists_runs
    obtain ⟨more, does⟩ := exists_does stepped
    obtain ⟨rest, refuses⟩ := runs.refuses_ended does checked sound
    exact ⟨events, parse, more, rest, runs, does, refuses⟩

/-- In a list of `a` a symbol `9` is an error, and it is deleted. -/
theorem foreign_refused_lists : ∃ (feed : Feed (Listed Unit) Empty Unit Empty)
    (waiting repaired : Parse (Listed Unit) Empty Empty Unit Empty)
    (before events : List (Event Unit)) (token : Token Unit),
      (start (Parser.create .lists true) feed).Runs before waiting ∧
        waiting.feed.Shows 0 token ∧ LrTable.lists.symbols < token.number ∧
        (∃ enough stuck, ∀ fuel, enough ≤ fuel → waiting.turn fuel = .ok (.stuck, stuck)) ∧
        (start (Parser.create .lists true) feed).Runs events repaired ∧
        repaired.reports.map (fun report => report.2.deleted) = [[9]] ∧
        Refuses .lists feed events repaired.reports repaired.feed := by
  let parser : Parser Empty Unit Empty := .create .lists true
  let feed : Feed (Listed Unit) Empty Unit Empty :=
    .ofSource (.ofSymbols [(0, none), (9, none), (0, none)] LrTable.lists.eof) LrTable.lists.eof
  have faced : (start parser feed).reachesIn 9 (fun parse => (parse.feed.peek 9 0).answers
      fun answer => answer.1.toOption.any fun token => token.number == 9) 1 = true := by
    decide +kernel
  have told : (start parser feed).reachesIn 9
      (fun parse => parse.reports.map (fun report => report.2.deleted) == [[9]]) 2 = true := by
    decide +kernel
  obtain ⟨traced, -⟩ := foreign_refused parser feed LrTable.check_lists
  obtain ⟨waiting, reaches, shown⟩ := exists_reaches_of_reachesIn faced
  obtain ⟨repaired, later, reported⟩ := exists_reaches_of_reachesIn told
  obtain ⟨before, runs⟩ := reaches.exists_runs
  obtain ⟨events, further⟩ := later.exists_runs
  obtain ⟨⟨told, next⟩, peeked, foreign⟩ := Run.exists_of_answers shown
  cases told with
  | error => cases foreign
  | ok token =>
    have number : token.number = 9 := beq_iff_eq.mp foreign
    have foreign : LrTable.lists.symbols < token.number := number ▸ (by decide)
    have shows : waiting.feed.Shows 0 token := ⟨9, next, peeked⟩
    obtain ⟨next, delivers⟩ := Feed.delivers_of_shows shows
    obtain ⟨enough, stuck, turns, -⟩ := (traced before waiting runs).2.1 token next delivers foreign
    exact ⟨feed, waiting, repaired, before, events, token, runs, shows, foreign,
      ⟨enough, stuck, turns⟩, further, beq_iff_eq.mp reported, (traced events repaired further).1⟩

/-- A source that delivers the number of the marker has it shifted as an `a`. -/
theorem marker_of_source_shifted : LrTable.lists.check = .ok () ∧
    ∃ (feed : Feed (Listed Unit) Empty Unit Empty)
      (parse : Parse (Listed Unit) Empty Empty Unit Empty) (events : List (Event Unit))
      (token : Token Unit),
      feed = .ofSource (.ofSymbols [(LrTable.lists.symbols, none)] LrTable.lists.eof)
        LrTable.lists.eof ∧
      feed.Shows 0 token ∧ LrTable.lists.symbols ≤ token.number ∧
      (start (Parser.create .lists true) feed).Runs events parse ∧ .shifted token ∈ events := by
  let feed : Feed (Listed Unit) Empty Unit Empty :=
    .ofSource (.ofSymbols [(LrTable.lists.symbols, none)] LrTable.lists.eof) LrTable.lists.eof
  let start : Parse (Listed Unit) Empty Empty Unit Empty := start (.create .lists true) feed
  obtain ⟨next, turned⟩ : ∃ next, start.turn 9 = .ok (.shifted 0, next) := ⟨_, rfl⟩
  have stepped : start.step 9 = .ok (none, next) := by
    rw [step, turned]
    rfl
  obtain ⟨more, turns⟩ := exists_turns turned
  obtain ⟨token, productions, rfl, fuel, rest, taken, -⟩ := turns.exists_shifted
  have shown : feed.Shows 0 ⟨LrTable.lists.symbols, none, none, ⟨1, 1⟩⟩ := ⟨2, _, rfl⟩
  have first := (Feed.shows_of_next taken).1
  have number : token.number = LrTable.lists.symbols := by
    rw [first.unique shown]
  exact ⟨LrTable.check_lists, feed, next, _, token, rfl, first, Nat.le_of_eq number.symm,
    .step .start stepped (.shifted turned turns), List.mem_cons_self⟩

end Parse

end TableDriven
