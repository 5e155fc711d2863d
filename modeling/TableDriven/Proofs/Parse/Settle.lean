import TableDriven.Proofs.Parse.Listed
import TableDriven.Proofs.Parse.Reduce
import TableDriven.Proofs.Trial.Fuel

/-! # Settling a token

`Parse.settle` takes turns until something becomes of the next token: it is shifted, it is a
syntax error, or the parse ends.  It is the main loop as far as that token is concerned
(`SettlesAs.run_eq`).  `LrTable.advance` tries the same on the states alone, and
`settles_iff_advances` says that the trial refines the engine.

The engine puts the token back for every reduction and fetches it again, while the trial keeps it.
The two are therefore compared on a parse whose token has just been put back.
-/

namespace TableDriven

open TableDriven.Parser
open TableDriven.LrTable (Outcome)

namespace Parse

variable {σ ρ φ V ε : Type} [TokenSource σ V ε] [Resolver ρ σ V ε]
  {table : LrTable} {stack : StateStack} {feed next : Feed σ ρ V ε} {parse : Parse σ ρ φ V ε}
  {token : Token V} {fuel enough : Nat}

theorem nextToken_ok (mirrors : parse.Mirrors table stack feed)
    (taken : feed.next fuel = .ok (.ok token, next)) :
    ∃ after, parse.nextToken fuel = .ok (.ok token, after) ∧
      after.Mirrors table stack next.takeJournal.2 := by
  rw [← mirrors.feed] at taken
  refine ⟨parse.withFeed next, ?_, mirrors.table, mirrors.states, rfl⟩
  simp only [nextToken, taken, ok_bind]
  rfl

/-- A token that was put back is the next one. -/
theorem nextToken_pushBack (written : feed.journal = #[])
    (mirrors : parse.Mirrors table stack (feed.pushBack token)) (fuel : Nat) :
    ∃ after, parse.nextToken fuel = .ok (.ok token, after) ∧ after.Mirrors table stack feed := by
  have taken : (feed.pushBack token).next fuel = .ok (.ok token, feed) := rfl
  obtain ⟨after, got, mirrors⟩ := nextToken_ok mirrors taken
  refine ⟨after, got, mirrors.table, mirrors.states, mirrors.feed.trans ?_⟩
  rw [Feed.takeJournal, ← written]

variable [ValueFactory φ V ε]

/-- Takes turns for as long as they are reductions. -/
def settle : Nat → Parse σ ρ φ V ε → Run (Turn V × Parse σ ρ φ V ε)
  | 0, _ => throw .fuel
  | fuel + 1, parse => do
    match ← parse.turn fuel with
    | (.reduced, parse) => settle fuel parse
    | settled => return settled

/-- What the trial of a token comes to, and what becomes of the token, in front of `feed`. -/
inductive Settles (table : LrTable) (feed : Feed σ ρ V ε) (token : Token V) :
    Outcome → Turn V × Parse σ ρ φ V ε → Prop where
  | shifted {stack : StateStack} {after : Parse σ ρ φ V ε} (symbol : Nat)
      (mirrors : after.Mirrors table stack feed) :
      Settles table feed token (.shifted symbol stack) (.shifted symbol, after)
  | accepted {after : Parse σ ρ φ V ε} (value : Option V) :
      Settles table feed token .accepted (.ended (.ok value), after)
  | stuck {stack : StateStack} {after : Parse σ ρ φ V ε}
      (mirrors : after.Mirrors table stack (feed.pushBack token)) :
      Settles table feed token .error (.stuck, after)
  | refused {after : Parse σ ρ φ V ε} (cause : Misbehaviour) :
      Settles table feed token .error (.ended (.error (.table cause)), after)

/-- A reduction in front of a token that was put back, and what comes behind it. -/
theorem settle_reduced_alike {production : Nat} (checked : table.Checked)
    (reducible : table.Reducible stack production)
    (mirrors : parse.Mirrors table stack (feed.pushBack token))
    (later : ∀ (stack : StateStack) (after : Parse σ ρ φ V ε), table.IsStack stack →
      after.Mirrors table stack (feed.pushBack token) → Run.Alike (Settles table feed token)
        (table.advance fuel stack token.number) (after.settle fuel)) :
    Run.Alike (Settles table feed token)
      (table.land fuel stack production >>= fun landing => match landing with
        | .failed => .ok .error
        | .accepted => .ok .accepted
        | .landed stack => table.advance fuel stack token.number)
      ((parse.reduce fuel production >>= fun answer =>
        .ok (Turn.reduced.unless answer.1, answer.2)) >>= fun answer => match answer with
        | (.reduced, parse) => settle fuel parse
        | settled => .ok settled) := by
  rw [bind_assoc]
  refine (reduce_alike checked reducible mirrors fuel).remember.bind ?_
  rintro landing ⟨ending, after⟩ ⟨landed, reduced⟩
  cases reduced with
  | refused cause => exact .answered (.refused cause)
  | accepted value => exact .answered (.accepted value)
  | landed mirrors =>
    exact later _ after (LrTable.land_isStack checked reducible landed) mirrors

/-- A token that was put back settles as its trial says. -/
theorem settle_alike (checked : table.Checked) (valid : table.IsStack stack)
    (written : feed.journal = #[]) (mirrors : parse.Mirrors table stack (feed.pushBack token))
    (fuel : Nat) :
    Run.Alike (Settles table feed token) (table.advance fuel stack token.number)
      (parse.settle fuel) := by
  induction fuel generalizing parse stack with
  | zero => exact .broken _
  | succ fuel ih =>
    -- One round of the trial is one turn of the engine, which fetches the token first.
    obtain ⟨state, below, shape, known, row⟩ := valid.topRow?_eq
    obtain ⟨unwinding, resolved, bounded⟩ := LrTable.resolve_ok checked known token.number
    obtain ⟨fetched, got, mirrors⟩ := nextToken_pushBack written mirrors fuel
    have top := mirrors.top_ok shape
    have later (stack : StateStack) (after : Parse σ ρ φ V ε) (valid : table.IsStack stack)
        (mirrors : after.Mirrors table stack (feed.pushBack token)) :
        Run.Alike (Settles table feed token) (table.advance fuel stack token.number)
          (after.settle fuel) := ih valid mirrors
    simp only [LrTable.advance, settle, turn, row, got, top, mirrors.table, resolved, ok_bind]
    cases unwinding with
    | reduce production =>
      have reducible := valid.reducible (bounded production rfl)
      exact settle_reduced_alike checked reducible (mirrors.pushBack token) later
    | shift symbol =>
      obtain ⟨action, found, admits⟩ := checked.action_ok known symbol
      simp only [found, ok_bind]
      have mirrors := mirrors.note (.decided state (table.symbolLabel symbol) action)
      cases action with
      | shift next => exact .answered (.shifted symbol (mirrors.shift (some next) token))
      | reduce production =>
        have reducible := valid.reducible admits
        exact settle_reduced_alike checked reducible (mirrors.pushBack token) later
      | error => exact .answered (.stuck (mirrors.pushBack token))
      | shiftReduce production =>
        -- The cell that the shift leaves has no state, and the reduction takes it off.
        have reducible := valid.reducible_covered admits none
        have reduced := reduce_alike checked reducible (mirrors.shift none token) fuel
        dsimp only
        rw [bind_assoc]
        refine reduced.bind ?_
        rintro landing ⟨ending, after⟩ reduced
        cases reduced with
        | refused cause => exact .answered (.refused cause)
        | accepted value => exact .answered (.accepted value)
        | landed mirrors => exact .answered (.shifted symbol mirrors)

omit [ValueFactory φ V ε] in
/-- A token that waits is fetched without fuel. -/
theorem nextToken_eq_of_waits (waits : parse.feed.queue.toList ≠ []) (fuel enough : Nat) :
    parse.nextToken fuel = parse.nextToken enough := by
  have same : parse.feed.next fuel = parse.feed.next enough := by
    unfold Feed.next
    split
    next => rfl
    next nothing => exact absurd ((Queue.pop?_eq_none_iff _).mp nothing) waits
  simp only [nextToken, same]

theorem turn_mono {answer : Turn V × Parse σ ρ φ V ε}
    (fetch : parse.nextToken fuel = parse.nextToken enough)
    (turned : parse.turn fuel = .ok answer) (more : fuel ≤ enough) :
    parse.turn enough = .ok answer := by
  simp only [turn, fetch, bind_eq_ok_iff] at turned ⊢
  obtain ⟨⟨told, fetched⟩, got, turned⟩ := turned
  refine ⟨_, got, ?_⟩
  cases told with
  | error fault => exact turned
  | ok token =>
    simp only [bind_eq_ok_iff] at turned ⊢
    obtain ⟨state, top, unwinding, resolved, turned⟩ := turned
    refine ⟨state, top, unwinding, resolved, ?_⟩
    cases unwinding with
    | reduce production =>
      simp only [bind_eq_ok_iff] at turned ⊢
      obtain ⟨ending, reduced, turned⟩ := turned
      exact ⟨ending, reduce_mono reduced more, turned⟩
    | shift symbol =>
      simp only [bind_eq_ok_iff] at turned ⊢
      obtain ⟨action, found, turned⟩ := turned
      refine ⟨action, found, ?_⟩
      cases action with
      | shift | error => exact turned
      | reduce | shiftReduce =>
        simp only [bind_eq_ok_iff] at turned ⊢
        obtain ⟨ending, reduced, turned⟩ := turned
        exact ⟨ending, reduce_mono reduced more, turned⟩

omit [TokenSource σ V ε] [Resolver ρ σ V ε] [ValueFactory φ V ε] in
theorem waits_pushBack (parse : Parse σ ρ φ V ε) (token : Token V) :
    (parse.pushBack token).feed.queue.toList ≠ [] :=
  List.cons_ne_nil token parse.feed.queue.toList

/-- A turn that makes a reduction leaves its token waiting. -/
theorem waits_of_turn {after : Parse σ ρ φ V ε} (turned : parse.turn fuel = .ok (.reduced, after)) :
    after.feed.queue.toList ≠ [] := by
  obtain ⟨⟨told, fetched⟩, -, turned⟩ := bind_eq_ok_iff.mp turned
  have kept {back : Parse σ ρ φ V ε} {production : Nat} (front : back.feed.queue.toList ≠ [])
      (turned : (back.reduce fuel production >>= fun answer =>
        .ok (Turn.reduced.unless answer.1, answer.2)) = .ok (.reduced, after)) :
      after.feed.queue.toList ≠ [] := by
    obtain ⟨⟨ending, last⟩, reduced, turned⟩ := bind_eq_ok_iff.mp turned
    obtain rfl : last = after := congrArg Prod.snd (Except.ok.inj turned)
    exact reduce_feed reduced ▸ front
  cases told with
  | error fault => cases turned
  | ok token =>
    simp only [bind_eq_ok_iff] at turned
    obtain ⟨state, -, unwinding, -, turned⟩ := turned
    cases unwinding with
    | reduce production => exact kept (waits_pushBack _ token) turned
    | shift symbol =>
      obtain ⟨action, -, turned⟩ := bind_eq_ok_iff.mp turned
      cases action with
      | reduce production => exact kept (waits_pushBack _ token) turned
      | shift | error => cases turned
      | shiftReduce production =>
        obtain ⟨⟨ending, last⟩, -, turned⟩ := bind_eq_ok_iff.mp turned
        cases ending <;> cases turned

theorem settle_mono {settled : Turn V × Parse σ ρ φ V ε} (waits : parse.feed.queue.toList ≠ [])
    (settles : parse.settle fuel = .ok settled) (more : fuel ≤ enough) :
    parse.settle enough = .ok settled := by
  induction fuel generalizing parse enough with
  | zero => contradiction
  | succ fuel ih =>
    obtain ⟨enough, rfl⟩ : ∃ less, enough = less + 1 := ⟨enough - 1, by omega⟩
    have more : fuel ≤ enough := by omega
    obtain ⟨⟨turn, after⟩, turned, settles⟩ := bind_eq_ok_iff.mp settles
    have again := turn_mono (nextToken_eq_of_waits waits fuel enough) turned more
    refine bind_eq_ok_iff.mpr ⟨_, again, ?_⟩
    cases turn with
    | reduced => exact ih (waits_of_turn turned) settles more
    | shifted | stuck | ended => exact settles

/-- What is left of the main loop behind a turn. -/
def resume (fuel : Nat) : Turn V × Parse σ ρ φ V ε → Run (Result V × Parse σ ρ φ V ε)
  | (.shifted _, parse) | (.reduced, parse) => parse.run fuel
  | (.stuck, parse) => do
    match ← parse.recover fuel with
    | (none, parse) => parse.run fuel
    | (some result, parse) => return (result, parse)
  | (.ended result, parse) => return (result, parse)

theorem run_succ_eq (fuel : Nat) (parse : Parse σ ρ φ V ε) :
    parse.run (fuel + 1) = parse.turn fuel >>= resume fuel := by
  simp only [run, step, bind_assoc]
  congr 1
  funext answer
  obtain ⟨turn, after⟩ := answer
  cases turn with
  | stuck =>
    simp only [resume]
    congr 1
    funext answer
    obtain ⟨_ | result, after⟩ := answer <;> rfl
  | shifted symbol | reduced | ended result => rfl

/-- Settling a token is the main loop as far as it deals with that token. -/
theorem run_eq_resume_of_settle {settled : Turn V × Parse σ ρ φ V ε}
    (waits : parse.feed.queue.toList ≠ []) (settles : parse.settle fuel = .ok settled) :
    ∃ spent, ∀ left, fuel ≤ left + spent → parse.run (left + spent) = resume left settled := by
  induction fuel generalizing parse with
  | zero => contradiction
  | succ fuel ih =>
    obtain ⟨⟨turn, after⟩, turned, settles⟩ := bind_eq_ok_iff.mp settles
    have again {enough : Nat} (more : fuel ≤ enough) : parse.turn enough = .ok (turn, after) :=
      turn_mono (nextToken_eq_of_waits waits fuel enough) turned more
    cases turn with
    | reduced =>
      obtain ⟨spent, later⟩ := ih (waits_of_turn turned) settles
      refine ⟨spent + 1, fun left more => ?_⟩
      have more : fuel ≤ left + spent := by omega
      rw [← Nat.add_assoc, run_succ_eq, again more, ok_bind]
      exact later left more
    | shifted symbol | stuck | ended result =>
      cases settles
      refine ⟨1, fun left more => ?_⟩
      rw [run_succ_eq, again (by omega), ok_bind]

/-! ## Refinement -/

/-- What becomes of the next token, whatever fuel is left over. -/
def SettlesAs (parse : Parse σ ρ φ V ε) (settled : Turn V × Parse σ ρ φ V ε) : Prop :=
  ∃ enough, ∀ fuel, enough ≤ fuel → parse.settle fuel = .ok settled

theorem SettlesAs.unique {settled other : Turn V × Parse σ ρ φ V ε}
    (first : parse.SettlesAs settled) (second : parse.SettlesAs other) : settled = other := by
  obtain ⟨fuel, first⟩ := first
  obtain ⟨enough, second⟩ := second
  have first := first _ (Nat.le_max_left fuel enough)
  have second := second _ (Nat.le_max_right fuel enough)
  exact Except.ok.inj (first.symm.trans second)

/-- Fetching a token and putting it back is nothing that the main loop would notice. -/
theorem turn_pushBack_eq (taken : parse.feed.next fuel = .ok (.ok token, next)) :
    ((parse.withFeed next).pushBack token).turn fuel = parse.turn fuel := by
  have got : parse.nextToken fuel = .ok (.ok token, parse.withFeed next) := by
    rw [nextToken, taken]
    rfl
  have again : ((parse.withFeed next).pushBack token).nextToken fuel =
      .ok (.ok token, parse.withFeed next) := by
    have retaken : ((parse.withFeed next).feed.pushBack token).next fuel =
        .ok (.ok token, (parse.withFeed next).feed) := rfl
    simp only [nextToken, pushBack, retaken, ok_bind]
    simp [withFeed, Feed.takeJournal]
  simp only [turn, got, again]

theorem settlesAs_iff_of_delivers {settled : Turn V × Parse σ ρ φ V ε}
    (delivers : parse.feed.Delivers token next) :
    parse.SettlesAs settled ↔
      ∃ fuel, ((parse.withFeed next).pushBack token).settle fuel = .ok settled := by
  obtain ⟨enough, taken⟩ := delivers
  have same (fuel : Nat) (more : enough ≤ fuel) :
      parse.settle (fuel + 1) = ((parse.withFeed next).pushBack token).settle (fuel + 1) := by
    simp only [settle, turn_pushBack_eq (taken fuel more)]
  have waits := waits_pushBack (parse.withFeed next) token
  constructor
  · rintro ⟨least, settles⟩
    refine ⟨max enough least + 1, ?_⟩
    rw [← same _ (by omega)]
    exact settles _ (by omega)
  · rintro ⟨fuel, settles⟩
    refine ⟨max enough fuel + 1, fun most more => ?_⟩
    obtain ⟨most, rfl⟩ : ∃ less, most = less + 1 := ⟨most - 1, by omega⟩
    rw [same _ (by omega)]
    exact settle_mono waits settles (by omega)

/-- With enough fuel the main loop settles the next token and then goes on. -/
theorem SettlesAs.run_eq {settled : Turn V × Parse σ ρ φ V ε} (settles : parse.SettlesAs settled)
    (delivers : parse.feed.Delivers token next) :
    ∃ spent enough, ∀ fuel, enough ≤ fuel → parse.run (fuel + spent) = resume fuel settled := by
  obtain ⟨fuel, settles⟩ := (settlesAs_iff_of_delivers delivers).mp settles
  obtain ⟨spent, runs⟩ := run_eq_resume_of_settle (waits_pushBack _ token) settles
  obtain ⟨enough, taken⟩ := delivers
  refine ⟨spent, max fuel enough + 1, fun left more => ?_⟩
  rw [← runs left (by omega)]
  -- With so much fuel it makes no difference whether the token was put back first.
  obtain ⟨left, rfl⟩ : ∃ less, left = less + 1 := ⟨left - 1, by omega⟩
  rw [Nat.add_right_comm, run_succ_eq, run_succ_eq, turn_pushBack_eq (taken _ (by omega))]

section
variable (checked : table.Checked) (valid : table.IsStack stack)
  (mirrors : parse.Mirrors table stack feed) (delivers : feed.Delivers token next)
include checked valid mirrors delivers

omit delivers in
/-- The token in front, put back, settles as its trial says. -/
theorem settle_pushBack_alike (next : Feed σ ρ V ε) (token : Token V) (fuel : Nat) :
    Run.Alike (Settles table next.takeJournal.2 token) (table.advance fuel stack token.number)
      (((parse.withFeed next).pushBack token).settle fuel) := by
  have fetched : (parse.withFeed next).Mirrors table stack next.takeJournal.2 :=
    ⟨mirrors.table, mirrors.states, rfl⟩
  exact settle_alike checked valid rfl (fetched.pushBack token) fuel

theorem settlesAs_of_advances {outcome : Outcome}
    (advances : table.Advances stack token.number outcome) :
    ∃ settled, parse.SettlesAs settled ∧
      Settles table next.takeJournal.2 token outcome settled := by
  obtain ⟨fuel, advanced⟩ := advances
  have alike := settle_pushBack_alike checked valid mirrors next token fuel
  rw [advanced] at alike
  obtain ⟨settled, settles, related⟩ := alike.of_ok_left
  have delivers := mirrors.feed.symm ▸ delivers
  exact ⟨settled, (settlesAs_iff_of_delivers delivers).mpr ⟨fuel, settles⟩, related⟩

theorem advances_of_settlesAs {settled : Turn V × Parse σ ρ φ V ε}
    (settles : parse.SettlesAs settled) :
    ∃ outcome, table.Advances stack token.number outcome ∧
      Settles table next.takeJournal.2 token outcome settled := by
  obtain ⟨fuel, settles⟩ :=
    (settlesAs_iff_of_delivers (mirrors.feed.symm ▸ delivers)).mp settles
  have alike := settle_pushBack_alike checked valid mirrors next token fuel
  rw [settles] at alike
  obtain ⟨outcome, advanced, related⟩ := alike.of_ok_right
  exact ⟨outcome, ⟨fuel, advanced⟩, related⟩

end

/-- **The trial refines the engine.**  On a checked table a trial of the next token ends exactly
if the main loop settles it, what becomes of the token is what the trial says, and from there the
main loop goes on. -/
theorem settles_iff_advances (accepted : parse.table.check = .ok ())
    (valid : parse.table.IsStack parse.states) (delivers : parse.feed.Delivers token next) :
    ((∃ outcome, parse.table.Advances parse.states token.number outcome) ↔
        ∃ settled, parse.SettlesAs settled) ∧
      (∀ outcome settled, parse.table.Advances parse.states token.number outcome →
        parse.SettlesAs settled →
          Settles parse.table next.takeJournal.2 token outcome settled) ∧
      ∀ settled, parse.SettlesAs settled →
        ∃ spent enough, ∀ fuel, enough ≤ fuel → parse.run (fuel + spent) = resume fuel settled := by
  have checked := LrTable.check_eq_ok_iff.mp accepted
  have mirrors : parse.Mirrors parse.table parse.states parse.feed := ⟨rfl, rfl, rfl⟩
  refine ⟨⟨?_, ?_⟩, ?_, fun settled settles => settles.run_eq delivers⟩
  · rintro ⟨outcome, advances⟩
    obtain ⟨settled, settles, -⟩ := settlesAs_of_advances checked valid mirrors delivers advances
    exact ⟨settled, settles⟩
  · rintro ⟨settled, settles⟩
    obtain ⟨outcome, advances, -⟩ := advances_of_settlesAs checked valid mirrors delivers settles
    exact ⟨outcome, advances⟩
  · intro outcome settled advances settles
    obtain ⟨other, same, related⟩ := settlesAs_of_advances checked valid mirrors delivers advances
    exact settles.unique same ▸ related

/-- The first symbol of a list is shifted. -/
theorem settles_of_advances_lists : ∃ after,
    (Parse.ofListed .lists [0] [0]).SettlesAs (.shifted 0, after) ∧
      after.states = [some 1, some 0] := by
  let start := Parse.ofListed .lists [0] [0]
  have valid : LrTable.lists.IsStack start.states := LrTable.isStack_initial (by decide)
  obtain ⟨next, delivers⟩ : ∃ next, start.feed.Delivers ⟨0, none, none, ⟨1, 1⟩⟩ next := by
    refine ⟨?next, 1, fun fuel some => ?taken⟩
    case taken =>
      obtain ⟨fuel, rfl⟩ : ∃ less, fuel = less + 1 := ⟨fuel - 1, by omega⟩
      rfl
  have advances : LrTable.lists.Advances start.states 0 (.shifted 0 [some 1, some 0]) := ⟨2, rfl⟩
  obtain ⟨same, agrees, -⟩ := settles_iff_advances LrTable.check_lists valid delivers
  obtain ⟨settled, settles⟩ := same.mp ⟨_, advances⟩
  have settled := agrees _ _ advances settles
  cases settled with
  | shifted symbol mirrors => exact ⟨_, settles, mirrors.states⟩

end Parse

end TableDriven
