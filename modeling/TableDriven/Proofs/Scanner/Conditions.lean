import Mathlib.Data.List.Basic
import TableDriven.Proofs.Scanner.Longest

/-! # Rounds and start conditions

A round takes its trail under the start condition in force when it begins, but each reverse run on
the trail begins under the one in force when its token is tried, and a factory that rejects a
candidate may have switched to another by then.  So a round is governed by one start condition for
all inputs and factories exactly if the table cannot tell the difference: behind a candidate,
every other token is found alike under all start conditions (`governed_iff_unswayed`).  That holds
if the reverse automaton begins in one state under all of them (`Unswayed.of_uniform`), and it fails
for the table of `turning`.
-/

namespace TableDriven

namespace Lexicon

section
variable [ScanUnit U] (lexicon : Lexicon)

/-- The length of the match of `token` at the end of a trail, with the reverse run begun under
`condition`. -/
def lengthOn (condition token : Nat) (trail : Trail U) : Option Nat :=
  match (lexicon.context? token).value with
  | none => some trail.length
  | some context => (lexicon.split condition context trail).value

/-- What is found on trails under a start condition, in the order in which it is tried. -/
def matchesOn (condition : Nat) (tried : List (Nat × Trail U)) : List Candidate :=
  tried.filterMap fun attempt =>
    (lexicon.lengthOn condition attempt.1 attempt.2).map (⟨attempt.1, ·⟩)

end

/-- Behind a candidate of a round, every start condition finds the other tokens as the one does
under which the round began. -/
def Unswayed (U : Type) [ScanUnit U] (lexicon : Lexicon) : Prop :=
  ∀ {begun inForce state token other : Nat} {trail part shorter : Trail U},
    begun < lexicon.conditions → inForce < lexicon.conditions →
    lexicon.Traced (lexicon.forward.initial begun).value trail state →
    List.Sublist [(token, part), (other, shorter)] (lexicon.attempts trail) →
    (lexicon.lengthOn begun token part).isSome →
    lexicon.lengthOn inForce other shorter = lexicon.lengthOn begun other shorter

variable [ScanUnit U] {lexicon : Lexicon} {condition token : Nat} {trail : Trail U}

/-- A table whose reverse automaton begins in one state under all start conditions is such. -/
theorem Unswayed.of_uniform
    (uniform : ∀ {first second : Nat}, first < lexicon.conditions → second < lexicon.conditions →
      lexicon.reverse.initial first = lexicon.reverse.initial second) : lexicon.Unswayed U := by
  intro begun inForce state token other trail part shorter known knownToo _ _ _
  simp only [lengthOn, split, uniform knownToo known]

variable (checked : lexicon.Checked) (inForce : condition < lexicon.conditions)
include checked inForce

/-- On a trail of its own start condition, a match has the length that it has in the text. -/
theorem lengthOn_eq {state : Nat} (known : token < lexicon.tokenCount)
    (traced : lexicon.Traced (lexicon.forward.initial condition).value trail state) :
    lexicon.lengthOn condition token trail = lexicon.lengthOf condition token trail.text := by
  obtain ⟨context, looked, numbered⟩ := checked.context?_ok known
  simp only [lengthOn, lengthOf, looked, Run.value]
  cases context with
  | none => simp
  | some context =>
    simp only [split_eq checked inForce (numbered context rfl) traced, Trail.length_text]

omit inForce in
theorem token_lt {start state : Nat} {part : Trail U} (begins : start < lexicon.forward.stateCount)
    (traced : lexicon.Traced start trail state) (tried : (token, part) ∈ lexicon.attempts trail) :
    token < lexicon.tokenCount := by
  obtain ⟨behind, traced, -, -, member⟩ := mem_attempts traced tried
  obtain ⟨code, coded, known⟩ := checked.forward.code_ok (traced.state_lt checked begins)
  obtain ⟨tokens, listed, below⟩ := checked.forward.tokens_ok known
  simp only [coded, listed, Run.value] at member
  exact below token member

omit [ScanUnit U] checked inForce in
theorem text_ne_nil {part : Trail U} (tried : (token, part) ∈ lexicon.attempts trail) :
    trail.text ≠ [] := by
  intro none
  obtain rfl : trail = [] := by simpa [Trail.text] using none
  cases tried

omit checked inForce in
/-- A run may be picked up behind a trail. -/
theorem Traced.reads {input : Content U} {start state : Nat} {final : Trail U}
    (traced : lexicon.Traced start trail state) (read : trail.text = input.take trail.length)
    (rest : lexicon.Reads input state trail final) : lexicon.Reads input start [] final := by
  induction traced with
  | start => exact rest
  | @step trail state next unit traced goes ih =>
    have whole : (trail.text ++ [unit]).length = trail.length + 1 := by simp
    have here : (trail.text ++ [unit])[trail.length]? = some unit := by
      simp
    rw [Trail.text_cons, List.length_cons] at read
    have found : input.get? trail.length = some unit := by
      rw [← here, read, Stream'.Seq.getElem?_take, if_pos (Nat.lt_succ_self _)]
    refine ih ?_ (.step found goes rest)
    rw [← Content.take_take (Nat.le_succ trail.length), ← read]
    exact (List.take_left' (Trail.length_text trail)).symm

omit checked inForce in
/-- A trail is what a run over its text leaves. -/
theorem Traced.reads_text {start state : Nat} (traced : lexicon.Traced start trail state) :
    lexicon.Reads (.ofList trail.text) start [] trail := by
  refine traced.reads ?_ (.ended fun unit found => ?_)
  · rw [Content.take_ofList, ← Trail.length_text, List.take_length]
  · rw [Stream'.Seq.ofList_get?, List.getElem?_eq_none (Trail.length_text trail).le] at found
    cases found

end Lexicon

namespace Scanner

/-! ## Turns -/

/-- A candidate without what its scanner adds to it. -/
def Match.bare (candidate : Match U) : Lexicon.Candidate := ⟨candidate.token, candidate.text.length⟩

variable [ScanUnit U]

section
variable {scanner middle after : Scanner σ φ U ε} {token : Nat} {part : Trail U}

/-- A match is looked for under the start condition in force. -/
theorem matchLength_eq_lengthOn {start state : Nat} (ready : scanner.Ready)
    (known : token < scanner.lexicon.tokenCount) (traced : scanner.lexicon.Traced start part state)
    (begins : start < scanner.lexicon.forward.stateCount) (nonempty : part ≠ []) :
    scanner.matchLength part token =
      .ok (scanner.lexicon.lengthOn scanner.condition token part) := by
  obtain ⟨found, fits, -⟩ := matchLength_ok ready known traced begins nonempty
  obtain ⟨context, looked, -⟩ := ready.checked.context?_ok known
  rw [fits]
  simp only [matchLength, looked, ok_bind] at fits
  simp only [Lexicon.lengthOn, looked, Run.value]
  cases context with
  | none => exact fits.symm
  | some context => simp only [fits]

variable [TokenFactory φ U V ε] {tried first second : List (Nat × Trail U)}
  {events : List (Event U V)} {choice : Option (Choice V)}

/-- Of candidates none of which is taken, the first ones are not taken either. -/
theorem Tries.split (tries : Tries (first ++ second) scanner events none after) :
    ∃ (tried more : List (Event U V)) (middle : Scanner σ φ U ε),
      Tries first scanner tried none middle ∧ Tries second middle more none after := by
  induction first generalizing scanner events with
  | nil => exact ⟨[], events, scanner, .done, tries⟩
  | cons attempt first ih =>
    cases tries with
    | absent fails rest =>
      obtain ⟨tried, more, middle, front, back⟩ := ih rest
      exact ⟨tried, more, middle, .absent fails front, back⟩
    | rejected fits ruled rest =>
      obtain ⟨tried, more, middle, front, back⟩ := ih rest
      exact ⟨_, more, middle, .rejected fits ruled front, back⟩

/-- What precedes the first candidate leaves the scanner as it is. -/
theorem Tries.unmoved (tries : Tries tried scanner events none after) :
    after = scanner ∨ ∃ attempt ∈ tried, ∃ length,
      scanner.matchLength attempt.2 attempt.1 = .ok (some length) := by
  generalize nothing : (none : Option (Choice V)) = missing at tries
  induction tries with
  | done => exact .inl rfl
  | absent _ _ ih =>
    obtain same | ⟨attempt, member, found⟩ := ih nothing
    · exact .inl same
    · exact .inr ⟨attempt, .tail _ member, found⟩
  | rejected fits => exact .inr ⟨_, .head _, _, fits⟩
  | taken => cases nothing

/-- What is offered, if every match is found as under one start condition. -/
theorem Tries.offers_prefix {start bound condition : Nat}
    (tries : Tries tried scanner events choice after) (ready : scanner.Ready)
    (begins : start < scanner.lexicon.forward.stateCount)
    (along : scanner.lexicon.Along start bound tried)
    (full : ∀ length ≤ bound, (scanner.window.front length).length = length)
    (found : ∀ {before behind : List (Nat × Trail U)} {token : Nat} {part : Trail U}
      {events : List (Event U V)} {middle : Scanner σ φ U ε},
      tried = before ++ (token, part) :: behind → Tries before scanner events none middle →
      middle.matchLength part token = .ok (scanner.lexicon.lengthOn condition token part)) :
    (Event.offers events).map Match.bare <+: scanner.lexicon.matchesOn condition tried ∧
      (choice = none →
        (Event.offers events).map Match.bare = scanner.lexicon.matchesOn condition tried) := by
  induction tries with
  | done => exact ⟨List.prefix_rfl, fun _ => rfl⟩
  | absent fails _ ih =>
    have here := Except.ok.inj (fails.symm.trans (found (List.nil_append _).symm .done))
    simp only [Lexicon.matchesOn, List.filterMap_cons, ← here, Option.map_none]
    exact ih ready begins along.tail full fun split tries =>
      found (congrArg (_ :: ·) split) (.absent fails tries)
  | @rejected scanner middle after token length part tried events choice fits ruled _ ih =>
    have here := Except.ok.inj (fits.symm.trans (found (List.nil_append _).symm .done))
    have within := (matchLength_le ready begins along fits).2
    have rules := rules_of_consult ruled
    have lexicon := rules.lexicon_eq
    have rest := ih (rules.ready ready) (lexicon ▸ begins) (lexicon ▸ along.tail)
      (by rwa [rules.window_eq]) fun split tries => by
        rw [lexicon]
        exact found (congrArg (_ :: ·) split) (.rejected fits ruled tries)
    have bare : (scanner.candidate token length).bare = ⟨token, length⟩ :=
      congrArg (Lexicon.Candidate.mk token) (full length within)
    have offers : (Event.offers (scanner.offering token length :: events)).map Match.bare =
        ⟨token, length⟩ :: (Event.offers events).map Match.bare := by
      rw [← bare]
      rfl
    rw [lexicon] at rest
    simp only [offers, Lexicon.matchesOn, List.filterMap_cons, ← here, Option.map_some]
    exact ⟨List.cons_prefix_cons.mpr ⟨rfl, rest.1⟩, fun none => congrArg _ (rest.2 none)⟩
  | @taken scanner after token length part tried choice fits ruled =>
    have here := Except.ok.inj (fits.symm.trans (found (List.nil_append _).symm .done))
    have within := (matchLength_le ready begins along fits).2
    have bare : (scanner.candidate token length).bare = ⟨token, length⟩ :=
      congrArg (Lexicon.Candidate.mk token) (full length within)
    have offers : (Event.offers [(scanner.offering token length : Event U V)]).map Match.bare =
        [⟨token, length⟩] := by
      rw [← bare]
      rfl
    simp only [offers, Lexicon.matchesOn, List.filterMap_cons, ← here, Option.map_some]
    exact ⟨List.cons_prefix_cons.mpr ⟨rfl, List.nil_prefix⟩, fun none => by cases none⟩

end

variable [UnitSource σ U ε] [TokenFactory φ U V ε] {scanner : Scanner σ φ U ε} {units : List U}

/-- In a round, the turn of `token` comes on a part of the trail: what was tried before is absent
or rejected, and the scanner is in the state `middle`. -/
inductive ComesTo (scanner : Scanner σ φ U ε) (token : Nat) (part : Trail U)
    (middle : Scanner σ φ U ε) : Prop where
  | turn {fuel : Nat} {filled looked : Scanner σ φ U ε} {trail : Trail U}
      {before behind : List (Nat × Trail U)} {events : List (Event U V)}
      (read : (if scanner.window.length = 0 then scanner.fillMore fuel
        else pure (.ok true, scanner)) = .ok (.ok true, filled))
      (ran : filled.forward fuel = .ok (.ok trail, looked))
      (attempts : looked.lexicon.attempts trail = before ++ (token, part) :: behind)
      (tries : Tries before looked events none middle) : ComesTo scanner token part middle

/-- A round over `units` is governed by the start condition in force when it begins: what is tried
is found as under that condition, and what is offered are the first of its candidates, all of them
if none is taken. -/
structure Governed (scanner : Scanner σ φ U ε) (units : List U) : Prop where
  found : ∀ {token : Nat} {part : Trail U} {middle : Scanner σ φ U ε},
    scanner.ComesTo token part middle →
    middle.matchLength part token = .ok (scanner.lexicon.lengthOn scanner.condition token part)
  offers : ∀ {events : List (Event U V)} {piece : Piece U V} {after : Scanner σ φ U ε},
    scanner.Scans events piece after →
    (Event.offers events).map Match.bare <+: scanner.lexicon.candidates scanner.condition units
  all : ∀ {events : List (Event U V)} {unit : U} {after : Scanner σ φ U ε},
    scanner.Scans events (.unmatched unit) after →
    (Event.offers events).map Match.bare = scanner.lexicon.candidates scanner.condition units

section
variable {looked middle : Scanner σ φ U ε} {trail part : Trail U} {state token : Nat}
  {before behind : List (Nat × Trail U)} {events : List (Event U V)}

omit [UnitSource σ U ε] [TokenFactory φ U V ε] in
/-- What a ready scanner finds when the turn of a token comes. -/
theorem Ready.matchLength_attempt (ready : scanner.Ready) {start : Nat}
    (begins : start < scanner.lexicon.forward.stateCount)
    (traced : scanner.lexicon.Traced start trail state)
    (tried : (token, part) ∈ scanner.lexicon.attempts trail) :
    scanner.matchLength part token =
      .ok (scanner.lexicon.lengthOn scanner.condition token part) := by
  obtain ⟨behind, reached, nonempty, -, -⟩ := Lexicon.mem_attempts traced tried
  exact matchLength_eq_lengthOn ready (Lexicon.token_lt ready.checked begins traced tried) reached
    begins nonempty

omit [UnitSource σ U ε] in
/-- Where the table cannot tell, the start condition that was switched to does not matter. -/
theorem matchLength_of_unswayed (unswayed : looked.lexicon.Unswayed U) (ready : looked.Ready)
    (traced : looked.lexicon.Traced looked.start trail state)
    (attempts : looked.lexicon.attempts trail = before ++ (token, part) :: behind)
    (tries : Tries before looked events none middle) :
    middle.matchLength part token =
      .ok (looked.lexicon.lengthOn looked.condition token part) := by
  have tried : (token, part) ∈ looked.lexicon.attempts trail := by simp [attempts]
  obtain rfl | ⟨⟨first, longer⟩, member, length, fits⟩ := tries.unmoved
  · exact ready.matchLength_attempt ready.start_lt traced tried
  · have lexicon : middle.lexicon = looked.lexicon := by rw [tries.frame.1]
    have still := tries.ready ready
    have inForce : middle.condition < looked.lexicon.conditions := lexicon ▸ still.inForce
    have earlier : (first, longer) ∈ looked.lexicon.attempts trail := by simp [attempts, member]
    have found : looked.lexicon.lengthOn looked.condition first longer = some length :=
      Except.ok.inj ((ready.matchLength_attempt ready.start_lt traced earlier).symm.trans fits)
    have order : List.Sublist [(first, longer), (token, part)]
        (looked.lexicon.attempts trail) := by
      rw [attempts]
      exact .append (List.singleton_sublist.mpr member) (.cons_cons _ (List.nil_sublist _))
    rw [still.matchLength_attempt (lexicon ▸ ready.start_lt) (lexicon ▸ traced) (lexicon ▸ tried),
      lexicon]
    exact congrArg Except.ok
      (unswayed ready.inForce inForce traced order (by rw [found]; rfl))

omit [UnitSource σ U ε] [TokenFactory φ U V ε] in
/-- What is found under its own start condition on the trail of the forward run are the
candidates. -/
theorem Reaches.matchesOn_attempts (reaches : scanner.Reaches (.ofList units) trail)
    (ready : scanner.Ready) :
    scanner.lexicon.matchesOn scanner.condition (scanner.lexicon.attempts trail) =
      scanner.lexicon.candidates scanner.condition units := by
  obtain ⟨state, traced⟩ := reaches.traced
  rw [← reaches.matching_attempts, matching, Lexicon.matchesOn]
  refine List.filterMap_congr fun attempt tried => ?_
  obtain ⟨behind, reached, -⟩ := Lexicon.mem_attempts traced tried
  rw [Lexicon.lengthOn_eq ready.checked ready.inForce
    (Lexicon.token_lt ready.checked ready.start_lt traced tried) reached]

end

section
variable [LawfulUnitSource σ U ε]

/-- Where the table cannot tell, the candidates of the start condition are offered. -/
theorem Scans.offers_of_unswayed {events : List (Event U V)} {piece : Piece U V}
    {after : Scanner σ φ U ε} (scans : scanner.Scans events piece after)
    (unswayed : scanner.lexicon.Unswayed U) (ready : scanner.Ready)
    (has : scanner.Has (.ofList units)) :
    (Event.offers events).map Match.bare <+:
        scanner.lexicon.candidates scanner.condition units ∧
      ∀ unit, piece = .unmatched unit → (Event.offers events).map Match.bare =
        scanner.lexicon.candidates scanner.condition units := by
  cases scans.resolved has ready with
  | ended nothing => exact ⟨List.nil_prefix, fun unit same => by cases same⟩
  | @piece looked ruled after trail tried choice something reaches looks within tries =>
    have still := ready.of_bearing looks.bearing
    have reached := reaches.of_bearing looks.bearing
    have lexicon : looked.lexicon = scanner.lexicon := congrArg Bearing.lexicon looks.bearing
    have condition : looked.condition = scanner.condition :=
      congrArg Bearing.condition looks.bearing
    obtain ⟨state, traced⟩ := reached.traced
    have full (length : Nat) (short : length ≤ trail.length) :
        (looked.window.front length).length = length := by
      have inside := short.trans within
      rw [looks.has.front_eq inside, looks.has.length_take_of_le inside]
    have listed := Tries.offers_prefix (lexicon ▸ tries) still still.start_lt reached.along full
      fun split tries => matchLength_of_unswayed (lexicon ▸ unswayed) still traced split tries
    rw [reached.matchesOn_attempts still, lexicon, condition] at listed
    have last (piece : Piece U V) :
        Event.offers (tried ++ [ruled.bearing.event piece]) = Event.offers tried := by
      cases piece <;> simp [Event.offers, Event.offer?, Bearing.event]
    rw [last]
    refine ⟨listed.1, fun unit skips => listed.2 ?_⟩
    cases choice with
    | none => rfl
    | some choice => cases choice <;> cases skips

/-- Where the table cannot tell, every token is found as under the start condition. -/
theorem ComesTo.found_of_unswayed {token : Nat} {part : Trail U} {middle : Scanner σ φ U ε}
    (comes : scanner.ComesTo token part middle) (unswayed : scanner.lexicon.Unswayed U)
    (ready : scanner.Ready) (has : scanner.Has (.ofList units)) :
    middle.matchLength part token =
      .ok (scanner.lexicon.lengthOn scanner.condition token part) := by
  obtain @⟨_, filled, looked, trail, _, _, _, read, ran, attempts, tries⟩ := comes
  obtain ⟨more, other, same, looks, -⟩ := fillIf_sound has (Nat.zero_le _) eq_comm read
  cases same
  obtain ⟨_, _, same, done⟩ := forward_sound looks.has (ready.of_bearing looks.bearing) ran
  cases same
  have bearing := done.bearing.trans looks.bearing
  have lexicon : looked.lexicon = scanner.lexicon := congrArg Bearing.lexicon bearing
  have condition : looked.condition = scanner.condition := congrArg Bearing.condition bearing
  obtain ⟨state, traced⟩ := (done.reaches.of_bearing done.bearing).traced
  rw [← lexicon, ← condition]
  exact matchLength_of_unswayed (lexicon ▸ unswayed) (ready.of_bearing bearing) traced attempts
    tries

/-- Where the table cannot tell, every round is governed by one start condition. -/
theorem governed_of_unswayed (unswayed : scanner.lexicon.Unswayed U) (ready : scanner.Ready)
    (has : scanner.Has (.ofList units)) : scanner.Governed units where
  found comes := comes.found_of_unswayed unswayed ready has
  offers scans := (scans.offers_of_unswayed unswayed ready has).1
  all scans := (scans.offers_of_unswayed unswayed ready has).2 _ rfl

/-- A round over a unit comes to trying what its forward run has found. -/
theorem tries_ok {input : Content U} {trail : Trail U} (has : scanner.Has input)
    (ready : scanner.Ready) (reaches : scanner.Reaches input trail)
    (something : (input.get? 0).isSome) :
    ∃ (fuel : Nat) (filled looked ruled : Scanner σ φ U ε) (tried : List (Event U V))
      (choice : Option (Choice V)),
      (if scanner.window.length = 0 then scanner.fillMore fuel else pure (.ok true, scanner)) =
          .ok (.ok true, filled) ∧
        filled.forward fuel = .ok (.ok trail, looked) ∧ looked.bearing = scanner.bearing ∧
        Tries (looked.lexicon.attempts trail) looked tried choice ruled := by
  obtain ⟨enough, more, filled, read, looks, told, -⟩ :=
    fillIf_ok has (Nat.zero_le _) (eq_comm (a := scanner.window.length) (b := 0))
  obtain rfl : more = true := told.trans something
  obtain ⟨sufficient, looked, ran, done⟩ :=
    forward_ok looks.has (ready.of_bearing looks.bearing) (reaches.of_bearing looks.bearing)
  have bearing := done.bearing.trans looks.bearing
  have still := ready.of_bearing bearing
  obtain ⟨state, traced⟩ := (reaches.of_bearing bearing).traced
  obtain ⟨tried, choice, ruled, -, tries⟩ := select_ok (V := V) still traced still.start_lt
  exact ⟨max enough sufficient, filled, looked, ruled, tried, choice,
    fillIf_mono read (Nat.le_max_left _ _), forward_mono ran (Nat.le_max_right _ _), bearing, tries⟩

end

/-! ## Factories that change their mind -/

/-- A factory that rejects whatever it is shown and switches to a start condition. -/
structure Diversion where
  target : Nat

instance : TokenFactory Diversion U Unit ε where
  consult factory candidate :=
    (⟨.reject, candidate.number, none, some factory.target⟩, factory, [])

omit [UnitSource σ U ε] [TokenFactory φ U V ε]

section
variable {scanner other after : Scanner σ Diversion U ε} {target : Nat}
  {tried : List (Nat × Trail U)} {events : List (Event U Unit)} {choice : Option (Choice Unit)}

/-- Every token has a factory that switches to `target`. -/
def Diverts (target : Nat) (scanner : Scanner σ Diversion U ε) : Prop :=
  target < scanner.lexicon.conditions ∧
    ∀ token < scanner.lexicon.tokenCount, scanner.factory? token = some ⟨target⟩

omit [ScanUnit U] in
theorem Diverts.of_bearing (diverts : scanner.Diverts target)
    (bearing : other.bearing = scanner.bearing) : other.Diverts target := by
  have lexicon : other.lexicon = scanner.lexicon := congrArg Bearing.lexicon bearing
  rw [Diverts, lexicon]
  exact ⟨diverts.1, fun token below => factory?_congr bearing token ▸ diverts.2 token below⟩

omit [ScanUnit U] in
theorem Diverts.rules {token length : Nat} (diverts : scanner.Diverts target)
    (known : token < scanner.lexicon.tokenCount)
    (rules : scanner.Rules token length choice after) :
    choice = none ∧ after.condition = target ∧ after.Diverts target := by
  have mine := diverts.2 token known
  cases rules with
  | assembled alone => cases alone.symm.trans mine
  | ruled found ruled =>
    cases found.symm.trans mine
    cases ruled
    refine ⟨rfl, if_pos diverts.1, diverts.1, fun other below => ?_⟩
    have same := diverts.2 other below
    simp only [factory?] at same ⊢
    rw [Array.getElem?_setIfInBounds]
    split
    next here =>
      subst here
      have stored : token < scanner.factories.size := by
        by_contra outside
        simp [Array.getElem?_eq_none (Nat.le_of_not_lt outside)] at same
      rw [if_pos stored]
      rfl
    next => exact same

/-- Nothing is taken, and behind the first candidate the start condition is the other one. -/
theorem Diverts.tries (tries : Tries tried scanner events choice after)
    (diverts : scanner.Diverts target) (known : ∀ attempt ∈ tried,
      attempt.1 < scanner.lexicon.tokenCount) : choice = none ∧
      (scanner.condition = target ∨ (∃ attempt ∈ tried, ∃ length,
        scanner.matchLength attempt.2 attempt.1 = .ok (some length)) →
        after.condition = target) := by
  induction tries with
  | done =>
    refine ⟨rfl, fun reached => ?_⟩
    obtain reached | ⟨attempt, member, -⟩ := reached
    · exact reached
    · cases member
  | absent fails _ ih =>
    obtain ⟨none, ends⟩ := ih diverts fun attempt member => known attempt (.tail _ member)
    refine ⟨none, fun reached => ends ?_⟩
    obtain reached | ⟨attempt, member, length, fits⟩ := reached
    · exact .inl reached
    · obtain rfl | member := List.mem_cons.mp member
      · cases fails.symm.trans fits
      · exact .inr ⟨attempt, member, length, fits⟩
  | rejected _ ruled _ ih =>
    have rules := rules_of_consult ruled
    obtain ⟨-, switched, still⟩ := diverts.rules (known _ (.head _)) rules
    obtain ⟨none, ends⟩ := ih still fun attempt member =>
      rules.lexicon_eq ▸ known attempt (.tail _ member)
    exact ⟨none, fun _ => ends (.inl switched)⟩
  | taken _ ruled =>
    obtain ⟨none, -⟩ := diverts.rules (known _ (.head _)) (rules_of_consult ruled)
    cases none

end

/-- A scanner in front of `units` under a start condition, with factories that switch to another. -/
def diverting (lexicon : Lexicon) (begun target : Nat) (units : List U) :
    Scanner (Script U) Diversion U Empty :=
  { openSource
      { (create lexicon 0 0 0 : Scanner (Script U) Diversion U Empty) with
        factories := Array.replicate lexicon.tokenCount (some ⟨target⟩) }
      (.ofSteps [.read units]) none with condition := begun }

section
variable {lexicon : Lexicon} {begun target : Nat}

theorem diverts_diverting (known : target < lexicon.conditions) (units : List U) :
    (diverting lexicon begun target units).Diverts target := by
  refine ⟨known, fun token below => ?_⟩
  change token < lexicon.tokenCount at below
  change (Array.replicate lexicon.tokenCount (some (Diversion.mk target)))[token]?.join = _
  simp [below]

theorem has_diverting {units : List U} (some : units ≠ []) :
    (diverting lexicon begun target units).Has (.ofList units) := by
  have whole : (Script.ofSteps [.read units]).units = units := by
    simp [Script.units, Script.ofSteps, ScriptStep.units]
  have hands : ∀ step ∈ (Script.ofSteps [.read units]).steps, step.units ≠ [] := by
    simpa [Script.ofSteps, ScriptStep.units] using some
  have delivers : UnitSource.Delivers Empty (Script.ofSteps [.read units]) (.ofList units) := by
    have delivers : UnitSource.Delivers Empty (Script.ofSteps [.read units]) _ :=
      Script.delivers hands
    rwa [whole] at delivers
  exact (has_openSource _ none delivers).congr rfl rfl rfl

end

/-- Behind a candidate, the turn of every other token comes under the other start condition. -/
theorem comesTo_diverting {lexicon : Lexicon} {begun target state token other : Nat}
    {trail part shorter : Trail U} {before between behind : List (Nat × Trail U)}
    (checked : lexicon.Checked) (knownBegun : begun < lexicon.conditions)
    (known : target < lexicon.conditions)
    (traced : lexicon.Traced (lexicon.forward.initial begun).value trail state)
    (split : lexicon.attempts trail = before ++ between ++ (other, shorter) :: behind)
    (earlier : (token, part) ∈ before) (present : (lexicon.lengthOn begun token part).isSome) :
    ∃ middle : Scanner (Script U) Diversion U Empty,
      (diverting lexicon begun target trail.text).ComesTo other shorter middle ∧
        middle.lexicon = lexicon ∧ middle.condition = target := by
  have ready : (diverting lexicon begun target trail.text).Ready := ⟨checked, knownBegun⟩
  have reaches : (diverting lexicon begun target trail.text).Reaches (.ofList trail.text) trail :=
    traced.reads_text
  have last : (other, shorter) ∈ lexicon.attempts trail := by simp [split]
  have nonempty := Lexicon.text_ne_nil last
  have something : ((.ofList trail.text : Content U).get? 0).isSome := by
    rw [Stream'.Seq.ofList_get?, isSome_getElem?]
    exact List.length_pos_of_ne_nil nonempty
  obtain ⟨fuel, filled, looked, ruled, events, choice, read, ran, bearing, tries⟩ :=
    tries_ok (has_diverting nonempty) ready reaches something
  have lexical : looked.lexicon = lexicon := congrArg Bearing.lexicon bearing
  have condition : looked.condition = begun := congrArg Bearing.condition bearing
  have still := ready.of_bearing bearing
  have diverts := (diverts_diverting known _).of_bearing bearing
  have along : looked.lexicon.Traced looked.start trail state := by
    rw [start, lexical, condition]
    exact traced
  have tokens : ∀ attempt ∈ looked.lexicon.attempts trail,
      attempt.1 < looked.lexicon.tokenCount :=
    fun attempt member => Lexicon.token_lt still.checked still.start_lt along member
  have none := (diverts.tries tries tokens).1
  subst none
  rw [← lexical] at split
  have first : (token, part) ∈ looked.lexicon.attempts trail := by simp [split, earlier]
  rw [split] at tries
  obtain ⟨tried, more, middle, front, -⟩ := tries.split
  have switches := (diverts.tries front fun attempt member =>
    tokens attempt (split ▸ List.mem_append_left _ member)).2
  obtain ⟨length, fits⟩ := Option.isSome_iff_exists.mp present
  refine ⟨middle, .turn read ran split front, ?_, switches (.inr ?_)⟩
  · rw [front.frame.1]
    exact lexical
  · refine ⟨_, List.mem_append_left _ earlier, length, ?_⟩
    rw [still.matchLength_attempt still.start_lt along first, lexical, condition, fits]

/-- A table is governed by one start condition in every round, whatever the input and the factories,
exactly if it cannot tell the start conditions apart behind a candidate. -/
theorem governed_iff_unswayed {U : Type} [ScanUnit U] {lexicon : Lexicon}
    (accepted : lexicon.check = .ok ()) :
    lexicon.Unswayed U ↔ ∀ {σ φ V ε : Type} [UnitSource σ U ε] [LawfulUnitSource σ U ε]
      [TokenFactory φ U V ε] {scanner : Scanner σ φ U ε} {units : List U},
      scanner.lexicon = lexicon → scanner.condition < lexicon.conditions →
      scanner.Has (.ofList units) → scanner.Governed units := by
  have checked := Lexicon.check_eq_ok_iff.mp accepted
  constructor
  · rintro unswayed σ φ V ε _ _ _ scanner units rfl inForce has
    exact governed_of_unswayed unswayed ⟨checked, inForce⟩ has
  · intro governs begun inForce state token other trail part shorter knownBegun known traced order
      present
    obtain ⟨before, rest, split, earlier, later⟩ := List.cons_sublist_iff.mp order
    obtain ⟨between, behind, rfl⟩ := List.append_of_mem (List.singleton_sublist.mp later)
    rw [← List.append_assoc] at split
    have tried : (other, shorter) ∈ lexicon.attempts trail := by simp [split]
    obtain ⟨middle, comes, lexical, switched⟩ :=
      comesTo_diverting checked knownBegun known traced split earlier present
    have ready : (diverting lexicon begun inForce trail.text).Ready := ⟨checked, knownBegun⟩
    have begins : (lexicon.forward.initial begun).value < lexicon.forward.stateCount :=
      ready.start_lt
    have still : middle.Ready := ⟨lexical ▸ checked, by rw [lexical, switched]; exact known⟩
    have governed :=
      (governs rfl knownBegun (has_diverting (Lexicon.text_ne_nil tried))).found comes
    rw [still.matchLength_attempt (lexical ▸ begins) (lexical ▸ traced) (lexical ▸ tried), lexical,
      switched] at governed
    exact Except.ok.inj governed

/-- The texts 1 2 and, in front of a 2, 1.  Under the second start condition there is no right
context. -/
def forgetful : Lexicon where
  categoryCount := 3
  categories := #[0, 1, 2]
  tokenParams := #[-1, -1]
  tokenContexts := #[-1, 0]
  tokenNames := #[]
  conditionCount := 2
  contextCount := 1
  forward := {
    initialStates := #[1, 1]
    transitions := #[#[0, 0, 0], #[0, 2, 0], #[0, 0, 3], #[0, 0, 0]]
    codes := #[0, 1, 2, 3]
    tokenLists := #[#[], #[], #[], #[0, 1]]
    contextSplits := #[#[false], #[false], #[true], #[false]] }
  reverse := {
    initialStates := #[1, 3]
    transitions := #[#[0, 0, 0], #[0, 0, 2], #[0, 0, 0], #[0, 0, 0]]
    codes := #[0, 1, 2, 1]
    tokenLists := #[#[], #[], #[]]
    contextSplits := #[#[false], #[false], #[true]] }

theorem governed_iff_unswayed_forgetful : forgetful.check = .ok () ∧
    (forgetful.Unswayed UInt8 ↔ ∀ {σ φ V ε : Type} [UnitSource σ UInt8 ε]
      [LawfulUnitSource σ UInt8 ε] [TokenFactory φ UInt8 V ε] {scanner : Scanner σ φ UInt8 ε}
      {units : List UInt8}, scanner.lexicon = forgetful →
      scanner.condition < forgetful.conditions → scanner.Has (.ofList units) →
      scanner.Governed units) := by
  have accepted : forgetful.check = .ok () := by decide +kernel
  exact ⟨accepted, governed_iff_unswayed accepted⟩

/-- A scanner that rejects the first token and switches to the second start condition. -/
def turning : Scanner (Script UInt8) Diversion UInt8 Empty :=
  ((create forgetful 9 0 8).setFactory 0 ⟨1⟩).openSource (.ofSteps [.read [1, 2]]) none

/-- The second token is not found any more. -/
theorem scans_turning : ∃ events after, turning.Scans events (.unmatched 1) after ∧
    (Event.offers events).map Match.bare = [⟨0, 2⟩] := by
  obtain ⟨filled, looked, middle, after, read, ran, attempts, fits, ruled, absent, settled, bare⟩ :
      ∃ filled looked middle after,
        (if turning.window.length = 0 then turning.fillMore 4 else pure (.ok true, turning)) =
          .ok (.ok true, filled) ∧
        filled.forward 4 = .ok (.ok [(2, 3), (1, 2)], looked) ∧
        looked.lexicon.attempts [((2 : UInt8), 3), (1, 2)] =
          [(0, [(2, 3), (1, 2)]), (1, [(2, 3), (1, 2)])] ∧
        looked.matchLength [(2, 3), (1, 2)] 0 = .ok (some 2) ∧
        looked.consult 0 2 = .ok (none, middle) ∧
        middle.matchLength [(2, 3), (1, 2)] 1 = .ok none ∧
        middle.settle none = .ok (.unmatched 1, after) ∧
        (looked.candidate 0 2).bare = ⟨0, 2⟩ :=
    ⟨_, _, _, _, rfl, rfl, rfl, rfl, rfl, rfl, rfl, by decide +kernel⟩
  have tries : Tries (looked.lexicon.attempts [((2 : UInt8), 3), (1, 2)]) looked
      [looked.offering 0 2] none middle :=
    attempts ▸ .rejected fits ruled (.absent absent .done)
  exact ⟨_, after, .piece read ran tries settled, congrArg (fun found => [found]) bare⟩

theorem not_governed_turning :
    turning.lexicon.check = .ok () ∧ turning.condition < turning.lexicon.conditions ∧
      turning.Has (.ofList [1, 2]) ∧
      turning.lexicon.candidates turning.condition [(1 : UInt8), 2] = [⟨0, 2⟩, ⟨1, 1⟩] ∧
      (∃ events after, turning.Scans events (.unmatched 1) after ∧
        (Event.offers events).map Match.bare = [⟨0, 2⟩]) ∧
      ¬ turning.Governed [1, 2] := by
  have delivers : UnitSource.Delivers Empty (Script.ofSteps [.read [(1 : UInt8), 2]])
      (.ofList [1, 2]) :=
    Script.delivers (by decide)
  have listed : turning.lexicon.candidates turning.condition [(1 : UInt8), 2] =
      [⟨0, 2⟩, ⟨1, 1⟩] := by decide +kernel
  refine ⟨by decide +kernel, by decide +kernel, has_openSource _ _ delivers, listed, scans_turning,
    fun governed => ?_⟩
  obtain ⟨events, after, scans, offers⟩ := scans_turning
  have all := governed.all scans
  rw [offers, listed] at all
  cases all

end Scanner

end TableDriven
