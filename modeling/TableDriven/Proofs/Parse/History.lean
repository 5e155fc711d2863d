import TableDriven.Proofs.Parse.Apply
import TableDriven.Proofs.Parse.Reduce

/-! # Histories

What a parse has done: the tokens that it shifted, the productions that it reduced by and the
repairs that it made, in order.  `Chains` says all that a reduction can do to a parse, `Turns` what
the next token can, and `Does` what a step can; `exists_chains`, `exists_turns` and `exists_does`
read them off the program.  `Runs` strings the steps of the main loop together, and everything
that the main loop reaches has such a history (`Reaches.exists_runs`, `exists_runs_of_run`).
-/

namespace TableDriven

open TableDriven.Parser

namespace Parse

variable {σ ρ φ V ε : Type} {fuel : Nat}

/-- Something that a parse does with its input or its stack.  A repair is of the error at a token,
and some tokens were deleted for it. -/
inductive Event (V : Type) where
  | shifted (token : Token V)
  | reduced (production : Nat)
  | repaired (token : Token V) (repair : Repair) (deleted : List (Token V))

namespace Event

def token? : Event V → Option (Token V)
  | .shifted token => some token
  | .reduced _ | .repaired .. => none

def production? : Event V → Option Nat
  | .reduced production => some production
  | .shifted _ | .repaired .. => none

/-- The tokens that were shifted. -/
def tokens (events : List (Event V)) : List (Token V) := events.filterMap token?

/-- The productions that were reduced by. -/
def productions (events : List (Event V)) : List Nat := events.filterMap production?

@[simp] theorem tokens_append (first second : List (Event V)) :
    tokens (first ++ second) = tokens first ++ tokens second :=
  List.filterMap_append

@[simp] theorem productions_append (first second : List (Event V)) :
    productions (first ++ second) = productions first ++ productions second :=
  List.filterMap_append

@[simp] theorem tokens_nil : tokens ([] : List (Event V)) = [] := rfl

@[simp] theorem productions_nil : productions ([] : List (Event V)) = [] := rfl

section
variable (token : Token V) (production : Nat) (repair : Repair) (deleted : List (Token V))
  (events : List (Event V))

@[simp] theorem tokens_cons_shifted :
    tokens (.shifted token :: events) = token :: tokens events := rfl

@[simp] theorem tokens_cons_reduced : tokens (.reduced production :: events) = tokens events := rfl

@[simp] theorem tokens_cons_repaired :
    tokens (.repaired token repair deleted :: events) = tokens events := rfl

@[simp] theorem productions_cons_shifted :
    productions (.shifted token :: events) = productions events := rfl

@[simp] theorem productions_cons_reduced :
    productions (.reduced production :: events) = production :: productions events := rfl

@[simp] theorem productions_cons_repaired :
    productions (.repaired token repair deleted :: events) = productions events := rfl

end

end Event

section
variable [ValueFactory φ V ε] {parse : Parse σ ρ φ V ε} {production : Nat}

/-- A value is made by a production, and what it is made of is taken off the stack. -/
inductive Pops (parse : Parse σ ρ φ V ε) (production : Nat) :
    Option V → Parse σ ρ φ V ε → Prop where
  | intro {length : Nat} {value : Option V} {made : Parse σ ρ φ V ε}
      (reduces : parse.table.rhsLength production = .ok length)
      (left : parse.stack.drop length ≠ [])
      (produced : parse.produce production length = .ok (value, made)) :
      Pops parse production value { made with stack := made.stack.drop length }

/-- A reduction by one production and by those that gotos shift and reduce by. -/
inductive Chains : Parse σ ρ φ V ε → Nat → List Nat → Option (Result V) × Parse σ ρ φ V ε → Prop where
  | popsInitial {parse : Parse σ ρ φ V ε} {production length : Nat}
      (reduces : parse.table.rhsLength production = .ok length)
      (nothing : parse.stack.drop length = []) :
      Chains parse production [] (some (.error (.table (.popsInitial production))), parse)
  | accepted {parse popped : Parse σ ρ φ V ε} {production : Nat} {value : Option V}
      (pops : parse.Pops production value popped) (goal : production = popped.table.goal) :
      Chains parse production [production] (some (.ok value), popped.note .accepted)
  | noGoto {parse popped : Parse σ ρ φ V ε} {production : Nat} {value : Option V}
      (pops : parse.Pops production value popped) (other : production ≠ popped.table.goal)
      (cause : Misbehaviour) :
      Chains parse production [production] (some (.error (.table cause)), popped)
  | landed {parse popped : Parse σ ρ φ V ε} {production state : Nat} {value : Option V}
      (pops : parse.Pops production value popped) (other : production ≠ popped.table.goal)
      (went : popped.table.goto (popped.stack.head?.bind Cell.state) production =
        .ok (.shift state)) :
      Chains parse production [production] (none, popped.push (some state) value)
  | chained {parse popped : Parse σ ρ φ V ε} {production further : Nat} {value : Option V}
      {productions : List Nat} {answer : Option (Result V) × Parse σ ρ φ V ε}
      (pops : parse.Pops production value popped) (other : production ≠ popped.table.goal)
      (went : popped.table.goto (popped.stack.head?.bind Cell.state) production =
        .ok (.shiftReduce further))
      (rest : Chains (popped.push none value) further productions answer) :
      Chains parse production (production :: productions) answer

theorem exists_chains {answer : Option (Result V) × Parse σ ρ φ V ε}
    (reduced : parse.reduce fuel production = .ok answer) :
    ∃ productions, parse.Chains production productions answer := by
  induction fuel generalizing parse production with
  | zero => contradiction
  | succ fuel ih =>
    simp only [reduce, bind_eq_ok_iff] at reduced
    obtain ⟨length, reduces, reduced⟩ := reduced
    split at reduced
    next nothing =>
      cases reduced
      exact ⟨_, .popsInitial reduces nothing⟩
    next cell below left =>
      obtain ⟨⟨value, made⟩, produced, reduced⟩ := bind_eq_ok_iff.mp reduced
      have pops : parse.Pops production value { made with stack := made.stack.drop length } :=
        .intro reduces (left ▸ List.cons_ne_nil cell below) produced
      dsimp only at reduced
      split at reduced
      next goal =>
        cases reduced
        exact ⟨_, .accepted pops goal⟩
      next other =>
        obtain ⟨action, went, reduced⟩ := bind_eq_ok_iff.mp reduced
        cases action with
        | shift state =>
          cases reduced
          exact ⟨_, .landed pops other went⟩
        | shiftReduce further =>
          obtain ⟨productions, rest⟩ := ih reduced
          exact ⟨_, .chained pops other went rest⟩
        | reduce | error =>
          simp only [bind_eq_ok_iff] at reduced
          obtain ⟨lhs, -, top, -, reduced⟩ := reduced
          cases reduced
          exact ⟨_, .noGoto pops other _⟩

end

/-! ## Turns -/

/-- How the parse ends with a turn, if it does. -/
def Turn.ending : Turn V → Option (Result V)
  | .ended result => some result
  | .shifted _ | .reduced | .stuck => none

@[simp] theorem Turn.ending_shifted_unless (symbol : Nat) (ending : Option (Result V)) :
    ((Turn.shifted symbol).unless ending).ending = ending := by
  cases ending <;> rfl

@[simp] theorem Turn.ending_reduced_unless (ending : Option (Result V)) :
    (Turn.reduced.unless ending).ending = ending := by
  cases ending <;> rfl

section
variable [TokenSource σ V ε] [Resolver ρ σ V ε] {parse : Parse σ ρ φ V ε}

/-- The next token and the action that the state on top has for it, or for the symbol that it
stands for. -/
inductive Faces (parse : Parse σ ρ φ V ε) (token : Token V) :
    Nat → Action → Parse σ ρ φ V ε → Prop where
  | unwound {fuel state production : Nat} {fetched : Parse σ ρ φ V ε}
      (fetches : parse.nextToken fuel = .ok (.ok token, fetched)) (top : fetched.top = .ok state)
      (resolved : fetched.table.resolve state token.number = .ok (.reduce production)) :
      Faces parse token token.number (.reduce production) fetched
  | named {fuel state symbol : Nat} {action : Action} {fetched : Parse σ ρ φ V ε}
      (fetches : parse.nextToken fuel = .ok (.ok token, fetched)) (top : fetched.top = .ok state)
      (resolved : fetched.table.resolve state token.number = .ok (.shift symbol))
      (found : fetched.table.action state symbol = .ok action) :
      Faces parse token symbol action
        (fetched.note (.decided state (fetched.table.symbolLabel symbol) action))

theorem Faces.tells {token : Token V} {symbol : Nat} {action : Action}
    {decided : Parse σ ρ φ V ε} (faces : parse.Faces token symbol action decided) :
    parse.Tells [] decided := by
  cases faces with
  | unwound fetches => exact tells_nextToken fetches
  | named fetches => exact (tells_nextToken fetches).trans (tells_note _ _)

variable [ValueFactory φ V ε]

/-- What becomes of the next token. -/
inductive Turns (parse : Parse σ ρ φ V ε) : List (Event V) → Turn V × Parse σ ρ φ V ε → Prop where
  | failed {fuel : Nat} {fault : StreamFault} {after : Parse σ ρ φ V ε}
      (failed : parse.nextToken fuel = .ok (.error fault, after)) :
      Turns parse [] (.ended (.error (.ofStream fault)), after)
  | shifted {token : Token V} {symbol state : Nat} {decided : Parse σ ρ φ V ε}
      (faces : parse.Faces token symbol (.shift state) decided) :
      Turns parse [.shifted token] (.shifted symbol, decided.shift (some state) token)
  | shiftReduced {token : Token V} {symbol production : Nat} {productions : List Nat}
      {turn : Turn V} {ending : Option (Result V)} {decided after : Parse σ ρ φ V ε}
      (faces : parse.Faces token symbol (.shiftReduce production) decided)
      (chains : (decided.shift none token).Chains production productions (ending, after))
      (same : turn = (Turn.shifted symbol).unless ending) :
      Turns parse (.shifted token :: productions.map .reduced) (turn, after)
  | reduced {token : Token V} {symbol production : Nat} {productions : List Nat} {turn : Turn V}
      {ending : Option (Result V)} {decided after : Parse σ ρ φ V ε}
      (faces : parse.Faces token symbol (.reduce production) decided)
      (chains : (decided.pushBack token).Chains production productions (ending, after))
      (same : turn = Turn.reduced.unless ending) :
      Turns parse (productions.map .reduced) (turn, after)
  | stuck {token : Token V} {symbol : Nat} {decided : Parse σ ρ φ V ε}
      (faces : parse.Faces token symbol .error decided) :
      Turns parse [] (.stuck, decided.pushBack token)

theorem exists_turns {answer : Turn V × Parse σ ρ φ V ε} (turned : parse.turn fuel = .ok answer) :
    ∃ events, parse.Turns events answer := by
  obtain ⟨⟨told, fetched⟩, fetches, turned⟩ := bind_eq_ok_iff.mp turned
  cases told with
  | error fault =>
    cases turned
    exact ⟨_, .failed fetches⟩
  | ok token =>
    obtain ⟨state, top, turned⟩ := bind_eq_ok_iff.mp turned
    obtain ⟨unwinding, resolved, turned⟩ := bind_eq_ok_iff.mp turned
    cases unwinding with
    | reduce production =>
      obtain ⟨⟨ending, after⟩, reduced, turned⟩ := bind_eq_ok_iff.mp turned
      obtain ⟨productions, chains⟩ := exists_chains reduced
      cases turned
      exact ⟨_, .reduced (.unwound fetches top resolved) chains rfl⟩
    | shift symbol =>
      obtain ⟨action, found, turned⟩ := bind_eq_ok_iff.mp turned
      have faces : parse.Faces token symbol action _ := .named fetches top resolved found
      cases action with
      | shift next =>
        cases turned
        exact ⟨_, .shifted faces⟩
      | error =>
        cases turned
        exact ⟨_, .stuck faces⟩
      | shiftReduce production =>
        obtain ⟨⟨ending, after⟩, reduced, turned⟩ := bind_eq_ok_iff.mp turned
        obtain ⟨productions, chains⟩ := exists_chains reduced
        cases turned
        exact ⟨_, .shiftReduced faces chains rfl⟩
      | reduce production =>
        obtain ⟨⟨ending, after⟩, reduced, turned⟩ := bind_eq_ok_iff.mp turned
        obtain ⟨productions, chains⟩ := exists_chains reduced
        cases turned
        exact ⟨_, .reduced faces chains rfl⟩

/-- What a step of the main loop does. -/
inductive Does (parse : Parse σ ρ φ V ε) :
    List (Event V) → Option (Result V) × Parse σ ρ φ V ε → Prop where
  | shifted {fuel symbol : Nat} {events : List (Event V)} {next : Parse σ ρ φ V ε}
      (turned : parse.turn fuel = .ok (.shifted symbol, next))
      (turns : parse.Turns events (.shifted symbol, next)) : Does parse events (none, next)
  | reduced {fuel : Nat} {events : List (Event V)} {next : Parse σ ρ φ V ε}
      (turned : parse.turn fuel = .ok (.reduced, next))
      (turns : parse.Turns events (.reduced, next)) : Does parse events (none, next)
  | ended {events : List (Event V)} {result : Result V} {last : Parse σ ρ φ V ε}
      (turns : parse.Turns events (.ended result, last)) : Does parse events (some result, last)
  | repaired {fuel : Nat} {waiting searched next : Parse σ ρ φ V ε} {token : Token V}
      {repair : Repair} (turned : parse.turn fuel = .ok (.stuck, waiting))
      (turns : parse.Turns [] (.stuck, waiting))
      (found : waiting.findRepair fuel = .ok (.ok (some repair), searched))
      (front : searched.feed.queue.toList.head? = some token)
      (applied : searched.apply fuel repair = .ok (.ok (), next)) :
      Does parse
        [.repaired token repair (searched.feed.queue.toList.take repair.deletions)] (none, next)
  | abandoned {waiting last : Parse σ ρ φ V ε} {fault : ParseFault}
      (turns : parse.Turns [] (.stuck, waiting)) (tells : waiting.Tells [] last) :
      Does parse [] (some (.error fault), last)

omit [ValueFactory φ V ε] in
/-- Recovering makes a repair, or it fails and reports none. -/
theorem recover_cases {answer : Option (Result V) × Parse σ ρ φ V ε}
    (recovered : parse.recover fuel = .ok answer) :
    (∃ fault, answer.1 = some (.error fault) ∧ parse.Tells [] answer.2) ∨
      ∃ repair searched next, answer = (none, next) ∧
        parse.findRepair fuel = .ok (.ok (some repair), searched) ∧
        searched.apply fuel repair = .ok (.ok (), next) := by
  obtain ⟨⟨told, searched⟩, found, recovered⟩ := bind_eq_ok_iff.mp recovered
  have search := (recovers_findRepair found).tells
  cases told with
  | error fault =>
    cases recovered
    exact .inl ⟨_, rfl, search⟩
  | ok choice =>
    cases choice with
    | none =>
      obtain ⟨⟨told, shown⟩, peeked, recovered⟩ := bind_eq_ok_iff.mp recovered
      have looks := search.trans (tells_peek peeked)
      cases told with
      | error fault =>
        cases recovered
        exact .inl ⟨_, rfl, looks⟩
      | ok token =>
        cases recovered
        exact .inl ⟨_, rfl, looks.trans (tells_note shown (.unrepaired token))⟩
    | some repair =>
      obtain ⟨⟨told, next⟩, applied, recovered⟩ := bind_eq_ok_iff.mp recovered
      obtain ⟨token, repaired, -, made, -⟩ := apply_ok_of_found found
      cases applied.symm.trans made
      cases recovered
      exact .inr ⟨repair, searched, next, rfl, found, applied⟩

theorem exists_does {answer : Option (Result V) × Parse σ ρ φ V ε}
    (stepped : parse.step fuel = .ok answer) : ∃ events, parse.Does events answer := by
  obtain ⟨⟨turn, waiting⟩, turned, stepped⟩ := bind_eq_ok_iff.mp stepped
  obtain ⟨events, turns⟩ := exists_turns turned
  cases turn with
  | shifted symbol =>
    cases stepped
    exact ⟨_, .shifted turned turns⟩
  | reduced =>
    cases stepped
    exact ⟨_, .reduced turned turns⟩
  | ended result =>
    cases stepped
    exact ⟨_, .ended turns⟩
  | stuck =>
    have quiet : parse.Turns [] (.stuck, waiting) := by
      cases turns with
      | stuck faces => exact .stuck faces
      | shiftReduced _ _ same | reduced _ _ same => cases ‹Option _› <;> cases same
    obtain ⟨ending, next⟩ := answer
    obtain ⟨fault, failed, tells⟩ | ⟨repair, searched, next, same, found, applied⟩ :=
      recover_cases stepped
    · cases failed
      exact ⟨_, .abandoned quiet tells⟩
    · cases same
      obtain ⟨token, -, front, -⟩ := apply_ok_of_found found
      exact ⟨_, .repaired turned quiet found front applied⟩

omit [ValueFactory φ V ε] in
/-- Making a repair that was found reports it and changes nothing but the feed. -/
theorem tells_of_applied {waiting searched next : Parse σ ρ φ V ε} {token : Token V}
    {repair : Repair} (found : waiting.findRepair fuel = .ok (.ok (some repair), searched))
    (front : searched.feed.queue.toList.head? = some token)
    (applied : searched.apply fuel repair = .ok (.ok (), next)) :
    waiting.Tells [(token, .ofRepair repair
      ((searched.feed.queue.toList.take repair.deletions).map Token.number))] next := by
  obtain ⟨other, repaired, first, made, tells, -⟩ := apply_ok_of_found found
  cases front.symm.trans first
  cases applied.symm.trans made
  exact (recovers_findRepair found).tells.trans tells

/-- The main loop comes from one parse to another. -/
inductive Reaches (start : Parse σ ρ φ V ε) : Parse σ ρ φ V ε → Prop where
  | start : Reaches start start
  | step {fuel : Nat} {parse next : Parse σ ρ φ V ε} (reaches : Reaches start parse)
      (stepped : parse.step fuel = .ok (none, next)) : Reaches start next

/-- The main loop comes from one parse to another, and this is what it does on the way. -/
inductive Runs (start : Parse σ ρ φ V ε) : List (Event V) → Parse σ ρ φ V ε → Prop where
  | start : Runs start [] start
  | step {fuel : Nat} {events more : List (Event V)} {parse next : Parse σ ρ φ V ε}
      (runs : Runs start events parse) (stepped : parse.step fuel = .ok (none, next))
      (does : parse.Does more (none, next)) : Runs start (events ++ more) next

variable {start : Parse σ ρ φ V ε}

theorem Reaches.exists_runs (reaches : start.Reaches parse) : ∃ events, start.Runs events parse := by
  induction reaches with
  | start => exact ⟨[], .start⟩
  | step _ stepped ih =>
    obtain ⟨events, runs⟩ := ih
    obtain ⟨more, does⟩ := exists_does stepped
    exact ⟨_, .step runs stepped does⟩

theorem Runs.reaches {events : List (Event V)} (runs : start.Runs events parse) :
    start.Reaches parse := by
  induction runs with
  | start => exact .start
  | step _ stepped _ ih => exact .step ih stepped

theorem Reaches.trans {last : Parse σ ρ φ V ε} (first : start.Reaches parse)
    (second : parse.Reaches last) : start.Reaches last := by
  induction second with
  | start => exact first
  | step _ stepped ih => exact .step ih stepped

/-- A parse that ends has come to its last step. -/
theorem exists_reaches_of_run {result : Result V} {last : Parse σ ρ φ V ε}
    (ran : start.run fuel = .ok (result, last)) :
    ∃ parse enough, start.Reaches parse ∧ parse.step enough = .ok (some result, last) := by
  induction fuel generalizing start with
  | zero => contradiction
  | succ fuel ih =>
    obtain ⟨⟨ending, next⟩, stepped, ran⟩ := bind_eq_ok_iff.mp ran
    cases ending with
    | some ending =>
      cases ran
      exact ⟨start, fuel, .start, stepped⟩
    | none =>
      obtain ⟨parse, enough, reaches, ended⟩ := ih ran
      exact ⟨parse, enough, (Reaches.step .start stepped).trans reaches, ended⟩

/-- Whether the main loop makes some steps and then is where it is asked to be. -/
def reachesIn (fuel : Nat) (asked : Parse σ ρ φ V ε → Bool) : Nat → Parse σ ρ φ V ε → Bool
  | 0, parse => asked parse
  | count + 1, parse =>
    (parse.step fuel).answers fun answer => answer.1.isNone && reachesIn fuel asked count answer.2

theorem exists_reaches_of_reachesIn {asked : Parse σ ρ φ V ε → Bool} {count : Nat}
    (told : start.reachesIn fuel asked count = true) :
    ∃ parse, start.Reaches parse ∧ asked parse = true := by
  induction count generalizing start with
  | zero => exact ⟨start, .start, told⟩
  | succ count ih =>
    obtain ⟨⟨_ | _, next⟩, stepped, told⟩ := Run.exists_of_answers told
    case some => cases told
    obtain ⟨parse, reaches, told⟩ := ih told
    exact ⟨parse, (Reaches.step .start stepped).trans reaches, told⟩

end

end Parse

end TableDriven
