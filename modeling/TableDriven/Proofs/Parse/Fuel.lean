import TableDriven.Proofs.Parse.Conservation
import TableDriven.Proofs.Repair.Fuel

/-! # Parses with more fuel

What a parse answers does not depend on the fuel that it leaves over, from a look ahead
(`peek_mono`) and the search for a repair (`findRepair_mono`) to a step and a whole parse
(`run_mono`, `Parser.parse_mono`).
-/

namespace TableDriven

open TableDriven.Parser
open TableDriven.Repair (Search)

namespace Parse

variable {σ ρ φ V ε : Type} [TokenSource σ V ε] [Resolver ρ σ V ε] [LawfulTokenSource σ V ε]
  {parse : Parse σ ρ φ V ε} {fuel enough : Nat}

theorem peek_mono {distance : Nat} {answer : Except StreamFault (Token V) × Parse σ ρ φ V ε}
    (peeked : parse.peek fuel distance = .ok answer) (more : fuel ≤ enough) :
    parse.peek enough distance = .ok answer := by
  obtain ⟨fed, looked, told⟩ := bind_eq_ok_iff.mp peeked
  exact bind_eq_ok_iff.mpr ⟨fed, Feed.peek_mono looked more, told⟩

theorem answer_mono {search further : Search α} {result : Except StreamFault α × Parse σ ρ φ V ε}
    (extended : search.Extends further) (answered : parse.answer fuel search = .ok result)
    (more : fuel ≤ enough) : parse.answer enough further = .ok result := by
  induction extended generalizing parse with
  | done => exact answered
  | broken => cases answered
  | @ask question _ _ _ ih =>
    cases question with
    | broken => cases answered
    | lost => exact ih () answered
    | symbol distance =>
      simp only [answer, bind_eq_ok_iff] at answered ⊢
      obtain ⟨⟨told, shown⟩, peeked, answered⟩ := answered
      refine ⟨_, peek_mono peeked more, ?_⟩
      cases told with
      | error fault => exact answered
      | ok token => exact ih token.number answered

theorem findRepair_mono {answer : Except StreamFault (Option Repair) × Parse σ ρ φ V ε}
    (found : parse.findRepair fuel = .ok answer) (more : fuel ≤ enough) :
    parse.findRepair enough = .ok answer := by
  unfold findRepair at found ⊢
  split at found
  next repairs =>
    rw [if_pos repairs]
    obtain ⟨told, answered, found⟩ := bind_eq_ok_iff.mp found
    have extended := Repair.search_extends parse.table more parse.states
    exact bind_eq_ok_iff.mpr ⟨told, answer_mono extended answered more, found⟩
  next off =>
    rw [if_neg off]
    exact found

theorem upcoming_mono {count : Nat} {done : List Nat}
    {answer : Except StreamFault (List Nat) × Parse σ ρ φ V ε}
    (looked : parse.upcoming fuel count done = .ok answer) (more : fuel ≤ enough) :
    parse.upcoming enough count done = .ok answer := by
  induction count generalizing parse done with
  | zero => exact looked
  | succ count ih =>
    obtain ⟨⟨told, shown⟩, peeked, looked⟩ := bind_eq_ok_iff.mp looked
    refine bind_eq_ok_iff.mpr ⟨_, peek_mono peeked more, ?_⟩
    cases told with
    | error fault => exact looked
    | ok token => exact ih looked

theorem skip_mono {count : Nat} {answer : Except StreamFault Unit × Parse σ ρ φ V ε}
    (skipped : parse.skip fuel count = .ok answer) (more : fuel ≤ enough) :
    parse.skip enough count = .ok answer := by
  induction count generalizing parse with
  | zero => exact skipped
  | succ count ih =>
    obtain ⟨⟨told, fetched⟩, taken, skipped⟩ := bind_eq_ok_iff.mp skipped
    refine bind_eq_ok_iff.mpr ⟨_, nextToken_mono taken more, ?_⟩
    cases told with
    | error fault => exact skipped
    | ok token => exact ih skipped

theorem apply_mono {repair : Repair} {answer : Except StreamFault Unit × Parse σ ρ φ V ε}
    (applied : parse.apply fuel repair = .ok answer) (more : fuel ≤ enough) :
    parse.apply enough repair = .ok answer := by
  obtain ⟨⟨told, looked⟩, upcoming, applied⟩ := bind_eq_ok_iff.mp applied
  refine bind_eq_ok_iff.mpr ⟨_, upcoming_mono upcoming more, ?_⟩
  cases told with
  | error fault => exact applied
  | ok deleted =>
    obtain ⟨⟨told, shown⟩, peeked, applied⟩ := bind_eq_ok_iff.mp applied
    refine bind_eq_ok_iff.mpr ⟨_, peek_mono peeked more, ?_⟩
    cases told with
    | error fault => exact applied
    | ok token =>
      obtain ⟨dropped, skipped, applied⟩ := bind_eq_ok_iff.mp applied
      exact bind_eq_ok_iff.mpr ⟨_, skip_mono skipped more, applied⟩

theorem recover_mono {answer : Option (Result V) × Parse σ ρ φ V ε}
    (recovered : parse.recover fuel = .ok answer) (more : fuel ≤ enough) :
    parse.recover enough = .ok answer := by
  obtain ⟨⟨told, searched⟩, found, recovered⟩ := bind_eq_ok_iff.mp recovered
  refine bind_eq_ok_iff.mpr ⟨_, findRepair_mono found more, ?_⟩
  cases told with
  | error fault => exact recovered
  | ok repair =>
    cases repair with
    | none =>
      obtain ⟨shown, peeked, recovered⟩ := bind_eq_ok_iff.mp recovered
      exact bind_eq_ok_iff.mpr ⟨_, peek_mono peeked more, recovered⟩
    | some repair =>
      obtain ⟨repaired, applied, recovered⟩ := bind_eq_ok_iff.mp recovered
      exact bind_eq_ok_iff.mpr ⟨_, apply_mono applied more, recovered⟩

variable [ValueFactory φ V ε]

theorem step_mono {answer : Option (Result V) × Parse σ ρ φ V ε}
    (stepped : parse.step fuel = .ok answer) (more : fuel ≤ enough) :
    parse.step enough = .ok answer := by
  obtain ⟨⟨turn, after⟩, turned, stepped⟩ := bind_eq_ok_iff.mp stepped
  refine bind_eq_ok_iff.mpr ⟨_, turn_eq_of_le turned more, ?_⟩
  cases turn with
  | shifted | reduced | ended => exact stepped
  | stuck => exact recover_mono stepped more

theorem run_mono {answer : Result V × Parse σ ρ φ V ε} (ran : parse.run fuel = .ok answer)
    (more : fuel ≤ enough) : parse.run enough = .ok answer := by
  induction fuel generalizing parse enough with
  | zero => contradiction
  | succ fuel ih =>
    obtain ⟨enough, rfl⟩ : ∃ less, enough = less + 1 := ⟨enough - 1, by omega⟩
    have more : fuel ≤ enough := by omega
    obtain ⟨⟨ending, after⟩, stepped, ran⟩ := bind_eq_ok_iff.mp ran
    refine bind_eq_ok_iff.mpr ⟨_, step_mono stepped more, ?_⟩
    cases ending with
    | none => exact ih ran more
    | some result => exact ran

/-- A step and what comes behind it. -/
theorem run_of_step {next : Parse σ ρ φ V ε} {answer : Result V × Parse σ ρ φ V ε}
    (stepped : parse.step fuel = .ok (none, next)) (ran : next.run enough = .ok answer) :
    parse.run (max fuel enough + 1) = .ok answer := by
  refine bind_eq_ok_iff.mpr ⟨_, step_mono stepped (Nat.le_max_left fuel enough), ?_⟩
  exact run_mono ran (Nat.le_max_right fuel enough)

omit [LawfulTokenSource σ V ε] in
theorem run_of_ended {result : Result V} {last : Parse σ ρ φ V ε}
    (stepped : parse.step fuel = .ok (some result, last)) :
    parse.run (fuel + 1) = .ok (result, last) :=
  bind_eq_ok_iff.mpr ⟨_, stepped, rfl⟩

end Parse

theorem Parser.parse_mono [TokenSource σ V ε] [Resolver ρ σ V ε] [LawfulTokenSource σ V ε]
    [ValueFactory φ V ε] {parser : Parser φ V ε} {feed : Feed σ ρ V ε} {fuel enough : Nat}
    {answer : Parse.Result V × Parser φ V ε × Feed σ ρ V ε}
    (parsed : parser.parse fuel feed = .ok answer) (more : fuel ≤ enough) :
    parser.parse enough feed = .ok answer := by
  obtain ⟨ended, ran, parsed⟩ := bind_eq_ok_iff.mp parsed
  exact bind_eq_ok_iff.mpr ⟨ended, Parse.run_mono ran more, parsed⟩

end TableDriven
