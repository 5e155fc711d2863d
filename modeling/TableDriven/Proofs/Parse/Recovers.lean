import TableDriven.Parser.Parse

/-! # What recovering does

`Recovers` says all that can happen to a parse while a repair is searched and made: tokens are
looked at, taken and put back, some things are noted, and a failure of the feed ends it.  It is read
off the program once (`recovers_findRepair`, `recovers_apply`); what holds on the way is proved of
it.
-/

namespace TableDriven.Parse

open TableDriven.Parser
open TableDriven.Repair (Search)

variable {σ ρ φ V ε : Type} [TokenSource σ V ε] [Resolver ρ σ V ε]
  {parse middle next : Parse σ ρ φ V ε} {told more : List (Token V × Report)}
  {outcome : Except StreamFault Unit} {fuel : Nat} {repair : Repair}

/-- What recovering comes to, one thing after the other, and the repairs that it reports. -/
inductive Recovers : Parse σ ρ φ V ε → List (Token V × Report) → Except StreamFault Unit →
    Parse σ ρ φ V ε → Prop where
  | done {parse : Parse σ ρ φ V ε} : Recovers parse [] (.ok ()) parse
  | lost {parse next : Parse σ ρ φ V ε} {told : List (Token V × Report)}
      {outcome : Except StreamFault Unit} (rest : Recovers (parse.note .lost) told outcome next) :
      Recovers parse told outcome next
  | found {parse next : Parse σ ρ φ V ε} {told : List (Token V × Report)}
      {outcome : Except StreamFault Unit} (repair : Repair)
      (rest : Recovers (parse.note (.found repair)) told outcome next) :
      Recovers parse told outcome next
  | looked {parse middle next : Parse σ ρ φ V ε} {told : List (Token V × Report)}
      {outcome : Except StreamFault Unit} {fuel distance : Nat} {token : Token V}
      (peeked : parse.peek fuel distance = .ok (.ok token, middle))
      (rest : Recovers middle told outcome next) : Recovers parse told outcome next
  | took {parse middle next : Parse σ ρ φ V ε} {told : List (Token V × Report)}
      {outcome : Except StreamFault Unit} {fuel : Nat} {token : Token V}
      (taken : parse.nextToken fuel = .ok (.ok token, middle))
      (rest : Recovers middle told outcome next) : Recovers parse told outcome next
  | putBack {parse next : Parse σ ρ φ V ε} {told : List (Token V × Report)}
      {outcome : Except StreamFault Unit} (token : Token V)
      (rest : Recovers (parse.pushBack token) told outcome next) : Recovers parse told outcome next
  | reported {parse middle next : Parse σ ρ φ V ε} {told : List (Token V × Report)}
      {outcome : Except StreamFault Unit} {fuel distance : Nat} {token : Token V}
      (peeked : parse.peek fuel distance = .ok (.ok token, middle)) (report : Report)
      (rest : Recovers (middle.note (.repaired token report)) told outcome next) :
      Recovers parse ((token, report) :: told) outcome next
  | unseen {parse next : Parse σ ρ φ V ε} {fuel distance : Nat} {fault : StreamFault}
      (peeked : parse.peek fuel distance = .ok (.error fault, next)) :
      Recovers parse [] (.error fault) next
  | untaken {parse next : Parse σ ρ φ V ε} {fuel : Nat} {fault : StreamFault}
      (taken : parse.nextToken fuel = .ok (.error fault, next)) :
      Recovers parse [] (.error fault) next

theorem Recovers.trans (first : parse.Recovers told (.ok ()) middle)
    (second : middle.Recovers more outcome next) : parse.Recovers (told ++ more) outcome next := by
  generalize fine : Except.ok () = ending at first
  induction first with
  | done => exact second
  | lost _ ih => exact .lost (ih second fine)
  | found repair _ ih => exact .found repair (ih second fine)
  | looked peeked _ ih => exact .looked peeked (ih second fine)
  | took taken _ ih => exact .took taken (ih second fine)
  | putBack token _ ih => exact .putBack token (ih second fine)
  | reported peeked report _ ih => exact .reported peeked report (ih second fine)
  | unseen | untaken => cases fine

theorem recovers_answer {search : Search α} {result : Except StreamFault α}
    (answered : parse.answer fuel search = .ok (result, next)) :
    parse.Recovers [] (result.map fun _ => ()) next := by
  induction search generalizing parse with
  | done result =>
    cases answered
    exact .done
  | ask probe further ih =>
    cases probe with
    | broken why => cases answered
    | lost => exact .lost (ih () answered)
    | symbol distance =>
      simp only [answer, bind_eq_ok_iff] at answered
      obtain ⟨⟨seen, middle⟩, peeked, answered⟩ := answered
      cases seen with
      | error fault =>
        cases answered
        exact .unseen peeked
      | ok token => exact .looked peeked (ih _ answered)

theorem recovers_findRepair {found : Except StreamFault (Option Repair)}
    (searched : parse.findRepair fuel = .ok (found, next)) :
    parse.Recovers [] (found.map fun _ => ()) next := by
  unfold findRepair at searched
  split at searched
  next =>
    obtain ⟨⟨result, middle⟩, answered, searched⟩ := bind_eq_ok_iff.mp searched
    have first := recovers_answer answered
    split at searched
    next repair last same =>
      cases same
      cases searched
      exact first.trans (.found repair .done)
    next =>
      cases searched
      exact first
  next =>
    cases searched
    exact .done

theorem recovers_upcoming {answer : Except StreamFault (List Nat)} {count : Nat} {done : List Nat}
    (looked : parse.upcoming fuel count done = .ok (answer, next)) :
    parse.Recovers [] (answer.map fun _ => ()) next := by
  induction count generalizing parse done with
  | zero =>
    cases looked
    exact .done
  | succ count ih =>
    obtain ⟨⟨seen, middle⟩, peeked, looked⟩ := bind_eq_ok_iff.mp looked
    cases seen with
    | error fault =>
      cases looked
      exact .unseen peeked
    | ok token => exact .looked peeked (ih looked)

theorem recovers_skip {answer : Except StreamFault Unit} {count : Nat}
    (skipped : parse.skip fuel count = .ok (answer, next)) : parse.Recovers [] answer next := by
  induction count generalizing parse with
  | zero =>
    cases skipped
    exact .done
  | succ count ih =>
    obtain ⟨⟨seen, middle⟩, taken, skipped⟩ := bind_eq_ok_iff.mp skipped
    cases seen with
    | error fault =>
      cases skipped
      exact .untaken taken
    | ok token => exact .took taken (ih skipped)

theorem recovers_foldl_pushBack (parse : Parse σ ρ φ V ε) (tokens : List (Token V)) :
    parse.Recovers [] (.ok ()) (tokens.foldl Parse.pushBack parse) := by
  induction tokens generalizing parse with
  | nil => exact .done
  | cons token tokens ih => exact .putBack token (ih _)

/-- A repair that is made is reported. -/
theorem recovers_apply (applied : parse.apply fuel repair = .ok (.ok (), next)) :
    ∃ token deleted, parse.Recovers [(token, .ofRepair repair deleted)] (.ok ()) next := by
  obtain ⟨⟨answer, looked⟩, upcoming, applied⟩ := bind_eq_ok_iff.mp applied
  cases answer with
  | error fault => cases applied
  | ok deleted =>
    obtain ⟨⟨answer, shown⟩, peeked, applied⟩ := bind_eq_ok_iff.mp applied
    cases answer with
    | error fault => cases applied
    | ok token =>
      obtain ⟨⟨answer, dropped⟩, skipped, applied⟩ := bind_eq_ok_iff.mp applied
      cases answer with
      | error fault => cases applied
      | ok done =>
        cases applied
        have drops := (recovers_skip skipped).trans
          (recovers_foldl_pushBack dropped (dropped.inserted token repair.insertion))
        exact ⟨token, deleted, (recovers_upcoming upcoming).trans (.reported peeked _ drops)⟩

end TableDriven.Parse
