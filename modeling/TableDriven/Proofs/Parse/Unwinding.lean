import TableDriven.Proofs.Parse.History
import TableDriven.Proofs.Parse.Settle
import TableDriven.Proofs.Repair.Markers
import TableDriven.Proofs.Trial.Unwinding

/-! # Where a marker leads

The main loop follows the unwinding table for as long as it takes to find out what a marker stands
for (`leads_of_unwinds`), while a search gives up after so many reductions as the stack is long and
the table has states (`marker_leads_within`).  Terms with signs show that such a limit can cut an
unwinding short: with two reductions for every sign, eight signs are too many.
-/

namespace TableDriven

open TableDriven.Parser

namespace Parse

variable {σ ρ φ V ε : Type} [TokenSource σ V ε] [Resolver ρ σ V ε] [ValueFactory φ V ε]
  {table : LrTable} {stack last : StateStack} {feed next : Feed σ ρ V ε}
  {parse : Parse σ ρ φ V ε} {token : Token V} {count symbol : Nat}

/-- In front of a marker the main loop makes the reduction that the unwinding table asks for. -/
theorem step_of_unwinds {state production : Nat} {landed : StateStack} (checked : table.Checked)
    (valid : table.IsStack stack) (mirrors : parse.Mirrors table stack feed)
    (delivers : feed.Delivers token next) (marked : token.number = table.marker)
    (row : table.topRow? stack = some state)
    (asks : table.unwind state = .ok (.reduce production))
    (lands : table.Lands stack production (.landed landed)) :
    table.IsStack landed ∧ ∃ fuel after, parse.step fuel = .ok (none, after) ∧
      after.Mirrors table landed (next.takeJournal.2.pushBack token) := by
  obtain ⟨fuel, lands⟩ := lands
  obtain ⟨enough, taken⟩ := delivers
  obtain ⟨top, below, shape, known, found⟩ := valid.topRow?_eq
  cases row.symm.trans found
  obtain ⟨unwinding, asked, admits⟩ := checked.unwind_ok known
  cases asks.symm.trans asked
  have reducible := valid.reducible admits
  refine ⟨LrTable.land_isStack checked reducible lands, max fuel enough, ?_⟩
  -- The token is fetched and put back before the reduction is made.
  obtain ⟨fetched, got, mirrors⟩ := nextToken_ok mirrors (taken _ (Nat.le_max_right fuel enough))
  have alike := reduce_alike checked reducible (mirrors.pushBack token) (max fuel enough)
  rw [LrTable.land_mono lands (Nat.le_max_left fuel enough)] at alike
  obtain ⟨⟨ending, after⟩, reduced, related⟩ := alike.of_ok_left
  cases related with
  | landed mirrored =>
    have resolved : table.resolve state token.number = .ok (.reduce production) := by
      rw [marked, LrTable.resolve_marker, asks]
    refine ⟨after, ?_, mirrored⟩
    simp only [step, turn, got, mirrors.top_ok shape, mirrors.table, resolved, ok_bind, reduced]
    rfl

/-- With a marker in front the main loop comes to wherever the unwinding table leads, and the marker
is still in front. -/
theorem reaches_of_unwinds (unwinds : table.Unwinds count stack last) (checked : table.Checked)
    (valid : table.IsStack stack) (mirrors : parse.Mirrors table stack feed)
    (delivers : feed.Delivers token next) (marked : token.number = table.marker) :
    ∃ after front rest, parse.Reaches after ∧ table.IsStack last ∧ after.Mirrors table last front ∧
      front.Delivers token rest := by
  induction unwinds generalizing parse feed next with
  | done stack => exact ⟨parse, feed, next, .start, valid, mirrors, delivers⟩
  | reduced row asks lands _ ih =>
    obtain ⟨valid, fuel, middle, stepped, mirrors⟩ :=
      step_of_unwinds checked valid mirrors delivers marked row asks lands
    have again : (next.takeJournal.2.pushBack token).Delivers token next.takeJournal.2 :=
      ⟨0, fun _ _ => rfl⟩
    obtain ⟨after, front, rest, reaches, further⟩ := ih valid mirrors again
    exact ⟨after, front, rest, (Reaches.step .start stepped).trans reaches, further⟩

/-- The main loop takes a marker for the terminal that the unwinding table leads to, however many
reductions there are on the way. -/
theorem leads_of_unwinds (unwinds : table.Unwinds count stack last)
    (names : table.Unwound last (.terminal symbol last)) (checked : table.Checked)
    (valid : table.IsStack stack) (mirrors : parse.Mirrors table stack feed)
    (delivers : feed.Delivers token next) (marked : token.number = table.marker) :
    ∃ after action decided, parse.Reaches after ∧ after.states = last ∧
      after.Faces token symbol action decided := by
  obtain ⟨after, front, rest, reaches, valid, mirrors, fuel, taken⟩ :=
    reaches_of_unwinds unwinds checked valid mirrors delivers marked
  obtain ⟨fetched, fetches, mirrored⟩ := nextToken_ok mirrors (taken fuel (Nat.le_refl _))
  obtain ⟨top, below, shape, known, found⟩ := valid.topRow?_eq
  cases names with
  | terminal row names =>
    cases row.symm.trans found
    obtain ⟨action, decides, -⟩ := checked.action_ok known symbol
    rw [← mirrored.table] at names decides
    have resolved : fetched.table.resolve top token.number = .ok (.shift symbol) := by
      rw [marked, ← mirrored.table, LrTable.resolve_marker, names]
    exact ⟨after, action, _, reaches, mirrors.states,
      .named fetches (mirrored.top_ok shape) resolved decides⟩

/-- **How far the search follows a marker.**  The search comes to the end of the unwinding exactly
if that takes no more reductions than the stack is long and the table has states: to the terminal
that is named there, with the stack behind the reductions, or to nothing if a reduction fails or
accepts.  Otherwise it is lost.  The main loop, with a marker in front, takes it for the terminal
that is named at the end, however far that is. -/
theorem marker_leads_within (accepted : parse.table.check = .ok ())
    (valid : parse.table.IsStack parse.states) :
    (∀ expectation, parse.table.Expects parse.states expectation ↔
      (∃ count last, count ≤ parse.states.length + parse.table.stateCount ∧
        parse.table.Unwinds count parse.states last ∧ parse.table.Unwound last expectation) ∨
      expectation = .lost ∧ ∃ last,
        parse.table.Unwinds (parse.states.length + parse.table.stateCount + 1) parse.states last) ∧
      ∀ count last symbol, parse.table.Unwinds count parse.states last →
        parse.table.Unwound last (.terminal symbol last) →
          ∀ token next, parse.feed.Delivers token next → token.number = parse.table.marker →
            ∃ after action decided, parse.Reaches after ∧ after.states = last ∧
              after.Faces token symbol action decided := by
  have checked := LrTable.check_eq_ok_iff.mp accepted
  refine ⟨fun expectation => LrTable.expects_iff, ?_⟩
  intro count last symbol unwinds names token next delivers marked
  exact leads_of_unwinds unwinds names checked valid ⟨rfl, rfl, rfl⟩ delivers marked

end Parse

/-- Terms with any number of signs, each ended by a semicolon: the grammar `S' → S $`, `S → E ;`,
`E → T`, `T → - E`, `T → x` with symbols `x`, `-`, `;`, `$`, `S`, `E`, `T`, `S'`.  Behind a term
there are two reductions for every sign in front of it before the unwinding table names the `;`. -/
def LrTable.signed : LrTable where
  symbolCount := 8
  productionLhs := #[7, 4, 5, 6, 6]
  productionRhsLength := #[2, 2, 1, 2, 1]
  productionParam := #[0, 1, 2, 3, 4]
  maxInsertion := 1
  maxDeletion := 0
  validationLength := 1
  singlePointInsertions := #[]
  insertionCosts := #[1, 1, 1, 1, 1, 1, 1, 1]
  deletionCosts := #[1, 1, 1, 1, 1, 1, 1, 1]
  goalProduction := 0
  eofSymbol := 3
  actions := #[
    #[9, 11, 10, 10, 14, 13, 12, 10, 10],
    #[9, 11, 10, 10, 10, 15, 12, 10, 10],
    #[10, 10, 2, 10, 10, 10, 10, 10, 10],
    #[10, 10, 6, 10, 10, 10, 10, 10, 10],
    #[10, 10, 10, 5, 10, 10, 10, 10, 10],
    #[10, 10, 3, 10, 10, 10, 10, 10, 10]]
  unwinding := #[5, 5, 2, 7, 8, 3]
  symbolNames := #[]
  linkNames := #[]

namespace Parse

theorem check_signed : LrTable.signed.check = .ok () := rfl

/-- Behind a term with any number of signs. -/
theorem isStack_signed (signs : Nat) :
    LrTable.signed.IsStack (some 2 :: List.replicate signs (some 1) ++ [some 0]) := by
  have signed : LrTable.signed.IsStack (List.replicate signs (some 1) ++ [some 0]) := by
    induction signs with
    | zero => exact LrTable.isStack_initial (by decide)
    | succ signs ih => exact ih.push (by decide)
  exact signed.push (by decide)

/-- Behind a term with two signs the search finds the semicolon, and the main loop takes a marker
for it. -/
theorem marker_leads_within_signed :
    LrTable.signed.Expects [some 2, some 1, some 1, some 0] (.terminal 2 [some 3, some 0]) ∧
      ∃ token after action decided, (ofListed .signed [2, 1, 1, 0] [8]).Reaches after ∧
        after.states = [some 3, some 0] ∧ after.Faces token 2 action decided := by
  let start := ofListed .signed [2, 1, 1, 0] [8]
  have accepted : start.table.check = .ok () := check_signed
  have valid : start.table.IsStack start.states := isStack_signed 2
  obtain ⟨expects, leads⟩ := marker_leads_within accepted valid
  have found : LrTable.signed.Expects start.states (.terminal 2 [some 3, some 0]) := ⟨9, rfl⟩
  obtain ⟨count, last, few, unwinds, names⟩ | ⟨lost, -⟩ := (expects _).mp found
  case inr => cases lost
  obtain rfl : last = [some 3, some 0] := by
    cases names
    rfl
  obtain ⟨next, delivers⟩ : ∃ next, start.feed.Delivers ⟨8, none, none, ⟨1, 1⟩⟩ next := by
    refine ⟨?next, 1, fun fuel some => ?taken⟩
    case taken =>
      obtain ⟨fuel, rfl⟩ : ∃ less, fuel = less + 1 := ⟨fuel - 1, by omega⟩
      rfl
  obtain ⟨after, action, decided, reaches, states, faces⟩ :=
    leads count _ 2 unwinds names _ next delivers rfl
  exact ⟨(expects _).mpr (.inl ⟨count, _, few, unwinds, names⟩), _, after, action, decided,
    reaches, states, faces⟩

/-- Behind a term with eight signs the unwinding table leads to the semicolon, but the search is
lost on the way. -/
theorem lost_of_eight_signs : ∃ count, LrTable.signed.check = .ok () ∧
    LrTable.signed.IsStack (some 2 :: List.replicate 8 (some 1) ++ [some 0]) ∧
      LrTable.signed.Unwinds count (some 2 :: List.replicate 8 (some 1) ++ [some 0])
        [some 3, some 0] ∧
      LrTable.signed.Unwound [some 3, some 0] (.terminal 2 [some 3, some 0]) ∧
      LrTable.signed.Expects (some 2 :: List.replicate 8 (some 1) ++ [some 0]) .lost ∧
      ¬LrTable.signed.Expects (some 2 :: List.replicate 8 (some 1) ++ [some 0])
        (.terminal 2 [some 3, some 0]) := by
  let stack : StateStack := some 2 :: List.replicate 8 (some 1) ++ [some 0]
  have unlimited : LrTable.signed.unwindWithin 9 18 stack = .ok (.terminal 2 [some 3, some 0]) := rfl
  have lost : LrTable.signed.Expects stack .lost := ⟨9, rfl⟩
  obtain ⟨count, last, -, unwinds, names⟩ | ⟨other, -⟩ :=
    LrTable.unwinds_of_unwindWithin unlimited
  case inr => cases other
  obtain rfl : last = [some 3, some 0] := by
    cases names
    rfl
  exact ⟨count, check_signed, isStack_signed 8, unwinds, names, lost,
    fun found => nomatch lost.unique found⟩

end Parse

end TableDriven
