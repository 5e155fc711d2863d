import TableDriven.Proofs.Parse.Honours
import TableDriven.Proofs.Repair.Markers

/-! # Continuations, and what the markers stand for

A continuation is inserted as markers, and the terminals that the search fed are only reported.
`recover_honours_iff` says exactly when the main loop shifts the markers as these terminals and
deals with what comes behind; on a steady table it always does (`recover_honours_of_steady`).
-/

namespace TableDriven

open TableDriven.Parser
open TableDriven.Repair (Follows Passes Valid demand)

namespace Parse

variable {σ ρ φ V ε : Type} [TokenSource σ V ε] [Resolver ρ σ V ε] [ValueFactory φ V ε]
  {table : LrTable} {stack last : StateStack} {feed behind : Feed σ ρ V ε}
  {symbols : List Nat} {markers waiting : List (Token V)} {parse searched : Parse σ ρ φ V ε}
  {fuel : Nat}

section
variable (checked : table.Checked) (valid : table.IsStack stack)
  (count : markers.length = symbols.length)
  (marked : ∀ token ∈ markers, token.number = table.markerNumber.toNat)
  (mirrors : parse.Mirrors table stack feed) (waits : Feed.Behind (markers ++ waiting) feed behind)
include checked valid count marked mirrors waits

theorem shiftsAs_of_resolves (resolves : table.Resolves stack symbols last) :
    ∃ after rest, parse.ShiftsAs symbols after ∧ table.IsStack last ∧
      after.Mirrors table last rest ∧ Feed.Behind waiting rest behind := by
  induction resolves generalizing parse feed markers with
  | nil stack =>
    obtain rfl : markers = [] := List.length_eq_zero_iff.mp count
    exact ⟨parse, feed, .nil parse, valid, mirrors, waits⟩
  | cons advances _ ih =>
    cases markers with
    | nil => cases count
    | cons token markers =>
      obtain ⟨next, delivers, left⟩ := waits.delivers
      rw [← marked token List.mem_cons_self] at advances
      obtain ⟨middle, settles, later⟩ := mirrors.shifts checked valid delivers advances
      obtain ⟨after, rest, shifts, final⟩ :=
        ih (advances.isStack checked valid) (Nat.succ.inj count)
          (fun other member => marked other (List.mem_cons_of_mem token member)) later
          left.takeJournal
      exact ⟨after, rest, .cons (mirrors.feed ▸ delivers) settles shifts, final⟩

theorem resolves_of_shiftsAs {after : Parse σ ρ φ V ε} (shifts : parse.ShiftsAs symbols after) :
    ∃ last rest, table.Resolves stack symbols last ∧ table.IsStack last ∧
      after.Mirrors table last rest ∧ Feed.Behind waiting rest behind := by
  induction shifts generalizing stack feed markers with
  | nil =>
    obtain rfl : markers = [] := List.length_eq_zero_iff.mp count
    exact ⟨stack, feed, .nil stack, valid, mirrors, waits⟩
  | cons _ settles _ ih =>
    cases markers with
    | nil => cases count
    | cons token markers =>
      obtain ⟨next, delivers, left⟩ := waits.delivers
      obtain ⟨outcome, advances, related⟩ :=
        advances_of_settlesAs checked valid mirrors delivers settles
      cases related with
      | shifted symbol mirrors =>
        rw [marked token List.mem_cons_self] at advances
        obtain ⟨last, rest, resolves, final⟩ :=
          ih (advances.isStack checked valid) (Nat.succ.inj count)
            (fun other member => marked other (List.mem_cons_of_mem token member)) mirrors
            left.takeJournal
        exact ⟨last, rest, .cons advances resolves, final⟩

end

/-! ## Tokens ahead -/

section
variable [LawfulTokenSource σ V ε]

/-- What a feed shows is delivered. -/
theorem supplies_of_shows (whole : Feed σ ρ V ε) :
    Supplies (fun (feed : Feed σ ρ V ε) distance => ∀ further token,
      feed.Shows further token ↔ whole.Shows (distance + further) token) whole.Reads := by
  rintro feed distance _ here ⟨token, shown, rfl⟩
  obtain ⟨next, delivers⟩ := Feed.delivers_of_shows ((here 0 token).mpr shown)
  refine ⟨token, next, delivers, rfl, fun further other => ?_⟩
  rw [Feed.shows_takeJournal_iff, delivers.shows.2, here, Nat.add_right_comm, Nat.add_assoc]

/-- The main loop deals with tokens exactly if they pass in a trial. -/
theorem clears_iff_passes (whole : Feed σ ρ V ε) {count distance : Nat} (checked : table.Checked)
    (valid : table.IsStack stack) (mirrors : parse.Mirrors table stack feed)
    (here : ∀ further token, feed.Shows further token ↔ whole.Shows (distance + further) token) :
    Clears count parse ↔ Passes table whole.Reads count stack distance := by
  refine ⟨fun clears => ?_, fun passes =>
    mirrors.clears (supplies_of_shows whole) checked valid passes here⟩
  have front {feed next : Feed σ ρ V ε} {distance : Nat} {token : Token V}
      (here : ∀ further token, feed.Shows further token ↔ whole.Shows (distance + further) token)
      (delivers : feed.Delivers token next) :
      whole.Reads distance token.number ∧ ∀ further token,
        next.takeJournal.2.Shows further token ↔ whole.Shows (distance + 1 + further) token := by
    refine ⟨⟨token, (here 0 token).mp delivers.shows.1, rfl⟩, fun further other => ?_⟩
    rw [Feed.shows_takeJournal_iff, delivers.shows.2, here, Nat.add_right_comm, Nat.add_assoc]
  induction clears generalizing stack feed distance with
  | enough => exact .enough
  | accepted delivers settles =>
    rw [mirrors.feed] at delivers
    obtain ⟨outcome, advances, related⟩ :=
      advances_of_settlesAs checked valid mirrors delivers settles
    cases related with
    | accepted value => exact .accepted (front here delivers).1 advances
  | ended delivers last settles =>
    rw [mirrors.feed] at delivers
    obtain ⟨outcome, advances, related⟩ :=
      advances_of_settlesAs checked valid mirrors delivers settles
    rw [mirrors.table] at last
    cases related with
    | shifted symbol mirrors =>
      exact .ended (last ▸ (front here delivers).1) (last ▸ advances)
  | shifted delivers settles _ ih =>
    rw [mirrors.feed] at delivers
    obtain ⟨outcome, advances, related⟩ :=
      advances_of_settlesAs checked valid mirrors delivers settles
    cases related with
    | shifted symbol mirrors =>
      obtain ⟨shown, there⟩ := front here delivers
      exact .shifted shown advances
        (ih (advances.isStack checked valid) mirrors there)

omit [ValueFactory φ V ε] [LawfulTokenSource σ V ε] in
/-- The repair that inserts a continuation puts as many markers in front of the tokens behind the
deletions as there are terminals in its report. -/
theorem recover_continuation_ok {repair : Repair}
    (found : parse.findRepair fuel = .ok (.ok (some repair), searched))
    (continuation : repair.insertion = .continuation symbols) :
    ∃ token report repaired markers, parse.recover fuel = .ok (none, repaired) ∧
      .repaired token report ∈ repaired.journal ∧ report.inserted = symbols ∧
      markers.length = symbols.length ∧
      (∀ marker ∈ markers, marker.number = parse.table.markerNumber.toNat) ∧
      repaired.Mirrors parse.table parse.states repaired.feed ∧
      Feed.Behind (markers ++ searched.feed.queue.toList.drop repair.deletions) repaired.feed
        { searched.feed with queue := .empty } := by
  obtain ⟨-, -, token, deleted, repaired, recovered, reported, stands⟩ := recover_ok found
  rw [continuation] at stands
  refine ⟨token, .ofRepair repair deleted, repaired, _, recovered, reported, ?_, ?_, ?_,
    ⟨stands.table, stands.states, rfl⟩, stands.feed⟩
  · rw [Report.ofRepair, continuation]
    rfl
  · rw [List.length_reverse, Parse.inserted, List.length_map]
  · intro marker member
    obtain ⟨symbol, -, rfl⟩ := List.mem_map.mp (List.mem_reverse.mp member)
    rfl

omit [ValueFactory φ V ε] [LawfulTokenSource σ V ε] in
/-- Behind a continuation that was found the tokens pass a trial on the stack that the search tried
it on. -/
theorem follows_of_valid {feed : Feed σ ρ V ε} {repair : Repair}
    (valid : Valid table (fun distance number => 0 < fuel ∧ feed.Waits distance number) stack
      repair)
    (continuation : repair.insertion = .continuation symbols) :
    ∃ last, Follows table stack symbols last ∧
      Passes table feed.Reads (demand table) last repair.deletions := by
  obtain ⟨last, inserts, passes⟩ := valid.parses
  rw [continuation] at inserts
  cases inserts with
  | continuation some short follows =>
    refine ⟨last, follows, passes.mono ?_⟩
    rintro distance number ⟨-, token, there, same⟩
    exact ⟨token, Feed.shows_of_waits there, same⟩

/-- The main loop deals with the markers and the tokens behind them exactly if they pass a trial. -/
theorem shiftsAs_clears_iff {feed : Feed σ ρ V ε} {deletions demanded : Nat}
    (checked : table.Checked) (valid : table.IsStack stack)
    (count : markers.length = symbols.length)
    (marked : ∀ token ∈ markers, token.number = table.markerNumber.toNat)
    (mirrors : parse.Mirrors table stack parse.feed)
    (waits : Feed.Behind (markers ++ feed.queue.toList.drop deletions) parse.feed
      { feed with queue := .empty })
    (enough : deletions ≤ feed.queue.toList.length) :
    (∃ after, parse.ShiftsAs symbols after ∧ after.Clears demanded) ↔
      ∃ last, table.Resolves stack symbols last ∧
        Passes table feed.Reads demanded last deletions := by
  have whole := Feed.behind_queue feed
  constructor
  · rintro ⟨after, shifts, clears⟩
    obtain ⟨last, rest, resolves, valid, mirrors, left⟩ :=
      resolves_of_shiftsAs checked valid count marked mirrors waits shifts
    exact ⟨last, resolves, (clears_iff_passes feed checked valid mirrors
      (whole.shows_drop_iff left enough)).mp clears⟩
  · rintro ⟨last, resolves, passes⟩
    obtain ⟨after, rest, shifts, valid, mirrors, left⟩ :=
      shiftsAs_of_resolves checked valid count marked mirrors waits resolves
    exact ⟨after, shifts, (clears_iff_passes feed checked valid mirrors
      (whole.shows_drop_iff left enough)).mpr passes⟩

/-- **When a continuation is honoured.**  Once the repair is made and the terminals reported, the
main loop shifts the markers as these terminals, and deals with the tokens behind them, exactly if
markers, tried one after the other, are shifted as these terminals and the tokens pass a trial on
the stack that this leads to. -/
theorem recover_honours_iff {repair : Repair} (accepted : parse.table.check = .ok ())
    (valid : parse.table.IsStack parse.states)
    (found : parse.findRepair fuel = .ok (.ok (some repair), searched))
    (continuation : repair.insertion = .continuation symbols) :
    ∃ token report repaired, parse.recover fuel = .ok (none, repaired) ∧
      .repaired token report ∈ repaired.journal ∧ report.inserted = symbols ∧
      ((∃ after, repaired.ShiftsAs symbols after ∧ after.Clears (demand parse.table)) ↔
        ∃ last, parse.table.Resolves parse.states symbols last ∧
          Passes parse.table searched.feed.Reads (demand parse.table) last repair.deletions) := by
  have checked := LrTable.check_eq_ok_iff.mp accepted
  obtain ⟨-, repairs, -⟩ := recover_ok found
  have enough := Nat.le_of_lt (lt_length_of_valid repairs).2
  obtain ⟨token, report, repaired, markers, recovered, reported, told, count, marked, mirrors,
    waits⟩ := recover_continuation_ok found continuation
  exact ⟨token, report, repaired, recovered, reported, told,
    shiftsAs_clears_iff checked valid count marked mirrors waits enough⟩

/-- On a steady table a continuation is honoured and truthfully reported. -/
theorem recover_honours_of_steady {repair : Repair} (accepted : parse.table.check = .ok ())
    (steady : parse.table.Steady) (fits : parse.table.symbols < UInt32.size)
    (valid : parse.table.IsStack parse.states)
    (found : parse.findRepair fuel = .ok (.ok (some repair), searched))
    (continuation : repair.insertion = .continuation symbols) :
    ∃ token report repaired after, parse.recover fuel = .ok (none, repaired) ∧
      .repaired token report ∈ repaired.journal ∧ report.inserted = symbols ∧
      repaired.ShiftsAs symbols after ∧ after.Clears (demand parse.table) := by
  have checked := LrTable.check_eq_ok_iff.mp accepted
  obtain ⟨-, repairs, -⟩ := recover_ok found
  have enough := Nat.le_of_lt (lt_length_of_valid repairs).2
  obtain ⟨token, report, repaired, markers, recovered, reported, told, count, marked, mirrors,
    waits⟩ := recover_continuation_ok found continuation
  obtain ⟨last, follows, passes⟩ := follows_of_valid repairs continuation
  have resolves := LrTable.resolves_of_follows checked steady fits follows
  obtain ⟨after, shifts, clears⟩ :=
    (shiftsAs_clears_iff checked valid count marked mirrors waits enough).mpr
      ⟨last, resolves, passes⟩
  exact ⟨token, report, repaired, after, recovered, reported, told, shifts, clears⟩

end

end Parse

/-- A table whose unwinding entries differ before and behind a reduction, of the grammar
`S' → S $`, `S → A a x`, `S → A b y`, `A → ` with symbols `a`, `b`, `x`, `y`, `$`, `S`, `A`, `S'`.
In front of the empty `A` the unwinding table expects `a`, and behind it `b`. -/
def LrTable.forks : LrTable where
  symbolCount := 8
  productionLhs := #[7, 5, 5, 6]
  productionRhsLength := #[2, 3, 3, 0]
  productionParam := #[0, 1, 2, 3]
  maxInsertion := 1
  maxDeletion := 1
  validationLength := 2
  singlePointInsertions := #[]
  insertionCosts := #[1, 1, 1, 1, 1, 1, 1, 1]
  deletionCosts := #[1, 1, 1, 1, 1, 1, 1, 1]
  goalProduction := 0
  eofSymbol := 4
  actions := #[
    #[3, 3, 8, 8, 8, 10, 9, 8, 8],
    #[11, 12, 8, 8, 8, 8, 8, 8, 8],
    #[8, 8, 8, 8, 4, 8, 8, 8, 8],
    #[8, 8, 5, 8, 8, 8, 8, 8, 8],
    #[8, 8, 8, 6, 8, 8, 8, 8, 8]]
  unwinding := #[4, 5, 8, 6, 7]
  symbolNames := #[]
  linkNames := #[]

namespace Parse

theorem check_forks : LrTable.forks.check = .ok () := rfl

/-- In front of `y`, behind the empty `A`, the marker is shifted as the `b` that was reported. -/
theorem recover_honours_iff_forks : ∃ token report repaired after,
    (ofListed .forks [1, 0] [3]).recover 9 = .ok (none, repaired) ∧
      .repaired token report ∈ repaired.journal ∧ report.inserted = [1] ∧
      repaired.ShiftsAs [1] after ∧ after.Clears 2 := by
  let start := ofListed .forks [1, 0] [3]
  have valid : LrTable.forks.IsStack start.states :=
    (LrTable.isStack_initial (by decide)).push (by decide)
  obtain ⟨searched, found⟩ : ∃ searched,
      start.findRepair 9 = .ok (.ok (some ⟨0, .continuation [1], 1⟩), searched) := by
    refine ⟨?searched, ?found⟩
    case found => conv => lhs; cbv
  obtain ⟨-, repairs, -⟩ := recover_ok found
  obtain ⟨last, follows, passes⟩ := follows_of_valid repairs rfl
  have expected : LrTable.forks.Expects [some 1, some 0] (.terminal 1 [some 1, some 0]) := ⟨9, rfl⟩
  have shifted : LrTable.forks.Advances [some 1, some 0] 1
      (.shifted 1 [some 4, some 1, some 0]) := ⟨9, rfl⟩
  have resolved : LrTable.forks.Advances [some 1, some 0] LrTable.forks.markerNumber.toNat
      (.shifted 1 [some 4, some 1, some 0]) := ⟨9, rfl⟩
  cases follows with
  | cons expects other advances rest =>
    cases expects.unique expected
    cases advances.unique shifted
    cases rest
    obtain ⟨token, report, repaired, recovered, reported, told, honours⟩ :=
      recover_honours_iff check_forks valid found rfl
    obtain ⟨after, shifts, clears⟩ := honours.mpr ⟨_, .cons resolved (.nil _), passes⟩
    exact ⟨token, report, repaired, after, recovered, reported, told, shifts, clears⟩

/-- In front of `x` a continuation is found and reported as `a`, but the main loop shifts its
marker as `b`. -/
theorem not_shiftsAs_reported_forks : ∃ token report repaired, LrTable.forks.check = .ok () ∧
    LrTable.forks.IsStack (ofListed .forks [0] [2]).states ∧
      (∃ searched, (ofListed .forks [0] [2]).findRepair 9 =
        .ok (.ok (some ⟨0, .continuation [0], 1⟩), searched)) ∧
      (ofListed .forks [0] [2]).recover 9 = .ok (none, repaired) ∧
      .repaired token report ∈ repaired.journal ∧ report.inserted = [0] ∧
      (∃ after, repaired.ShiftsAs [1] after) ∧ ¬∃ after, repaired.ShiftsAs [0] after := by
  let start := ofListed .forks [0] [2]
  have checked := LrTable.check_eq_ok_iff.mp check_forks
  have valid : LrTable.forks.IsStack start.states := LrTable.isStack_initial (by decide)
  obtain ⟨searched, found⟩ : ∃ searched,
      start.findRepair 9 = .ok (.ok (some ⟨0, .continuation [0], 1⟩), searched) := by
    refine ⟨?searched, ?found⟩
    case found => conv => lhs; cbv
  obtain ⟨token, report, repaired, markers, recovered, reported, told, count, marked, mirrors,
    waits⟩ := recover_continuation_ok found rfl
  have advances : LrTable.forks.Advances [some 0] LrTable.forks.markerNumber.toNat
      (.shifted 1 [some 4, some 1, some 0]) := ⟨9, rfl⟩
  refine ⟨token, report, repaired, check_forks, valid, ⟨searched, found⟩, recovered, reported, told,
    ?_, ?_⟩
  · have resolves : LrTable.forks.Resolves [some 0] [1] [some 4, some 1, some 0] :=
      .cons advances (.nil _)
    have count : markers.length = [1].length := count
    obtain ⟨after, rest, shifts, -⟩ :=
      shiftsAs_of_resolves checked valid count marked mirrors waits resolves
    exact ⟨after, shifts⟩
  · rintro ⟨after, shifts⟩
    obtain ⟨last, rest, resolves, -⟩ :=
      resolves_of_shiftsAs checked valid count marked mirrors waits shifts
    cases resolves with
    | cons other rest => cases advances.unique other

end Parse

end TableDriven
