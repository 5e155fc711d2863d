import TableDriven.Calculator.Evaluate
import TableDriven.Proofs.Scanner.History

/-! # Longest match with right context

A round offers the candidates of the remaining input as `Lexicon.candidates` lists them, without
looking at any window: the longest match first, and of one length in the order of the tokens.  It
goes on until one is taken, which is then the piece that it consumes (`round_offers_candidates`).
Factories may do what they like, but one that rejects must keep to the start condition: the rest of
the round would look for right contexts under the new one.
-/

namespace TableDriven.Scanner

/-- Factories that never both switch to another start condition and reject, and stay so. -/
structure Steady (U ε : Type) [TokenFactory φ U V ε] (keeps : φ → Prop) : Prop where
  stays : ∀ {factory next : φ} {candidate : Match U} {ruling : Ruling V} {notes : List ε},
    keeps factory → TokenFactory.consult factory candidate = (ruling, next, notes) → keeps next
  rejects : ∀ {factory next : φ} {candidate : Match U} {ruling : Ruling V} {notes : List ε},
    keeps factory → TokenFactory.consult factory candidate = (ruling, next, notes) →
    ruling.verdict = .reject → ∀ condition ∈ ruling.condition,
    candidate.allows condition = true → condition = candidate.condition

/-- All factories of the scanner are such. -/
def Keeps (keeps : φ → Prop) (scanner : Scanner σ φ U ε) : Prop :=
  ∀ token, ∀ factory ∈ scanner.factory? token, keeps factory

theorem Keeps.of_bearing {scanner : Scanner σ φ U ε} {other : Scanner τ φ U ε} {keeps : φ → Prop}
    (all : scanner.Keeps keeps) (bearing : other.bearing = scanner.bearing) :
    other.Keeps keeps := by
  intro token factory found
  exact all token factory (factory?_congr bearing token ▸ found)

/-- A rejected candidate leaves the start condition and steady factories. -/
theorem Rules.steady [TokenFactory φ U V ε] {scanner after : Scanner σ φ U ε} {keeps : φ → Prop}
    {token length : Nat} (rules : scanner.Rules token length none after)
    (steady : Steady U ε keeps) (all : scanner.Keeps keeps) :
    after.condition = scanner.condition ∧ after.Keeps keeps := by
  generalize nothing : (none : Option (Choice V)) = choice at rules
  cases rules with
  | assembled => cases nothing
  | @ruled factory next ruling notes found ruled =>
    have kept := all token factory found
    have rejected : ruling.verdict = .reject := by
      cases said : ruling.verdict <;> simp_all [Ruling.choice?]
    refine ⟨?_, fun other stored member => ?_⟩
    · simp only [switched]
      split
      next => rfl
      next condition asked =>
        split
        next known =>
          exact steady.rejects kept ruled rejected condition asked (decide_eq_true known)
        next => rfl
    · simp only [factory?, Array.getElem?_setIfInBounds] at member
      split at member
      next =>
        split at member
        next => exact Option.some.inj member ▸ steady.stays kept ruled
        next => cases member
      next => exact all other stored member

/-- A candidate that `units` begin with, as its factory sees it. -/
def shown (scanner : Scanner σ φ U ε) (units : List U) (candidate : Lexicon.Candidate) :
    Match U where
  token := candidate.token
  param := (scanner.lexicon.param candidate.token).value
  number := defaultNumber candidate.token (scanner.lexicon.param candidate.token).value
  text := units.take candidate.length
  position := scanner.position
  condition := scanner.condition
  conditionCount := scanner.lexicon.conditions

variable [ScanUnit U]

/-- What is tried, as far as it is a candidate. -/
def matching (lexicon : Lexicon) (condition : Nat) (tried : List (Nat × Trail U)) :
    List Lexicon.Candidate :=
  tried.filterMap fun attempt =>
    (lexicon.lengthOf condition attempt.1 (Trail.text attempt.2)).map (⟨attempt.1, ·⟩)

/-- The candidates are offered one after the other, and the first that is taken is the last. -/
inductive Offered (scanner : Scanner σ φ U ε) (units : List U) :
    List Lexicon.Candidate → List (Match U) → Option (Choice V) → Prop where
  | all {candidates : List Lexicon.Candidate} :
      Offered scanner units candidates (candidates.map (scanner.shown units)) none
  | taken {rejected untried : List Lexicon.Candidate} {candidate : Lexicon.Candidate}
      {choice : Choice V} (length : choice.length = candidate.length) :
      Offered scanner units (rejected ++ candidate :: untried)
        ((rejected ++ [candidate]).map (scanner.shown units)) (some choice)

section
variable {scanner middle after : Scanner σ φ U ε} {units : List U}
  {candidates : List Lexicon.Candidate} {offers : List (Match U)} {choice : Option (Choice V)}

omit [ScanUnit U] in
theorem shown_congr {other : Scanner τ φ U ε} (bearing : scanner.bearing.lexicon = other.lexicon)
    (condition : scanner.bearing.condition = other.condition)
    (position : scanner.bearing.position = other.position) :
    scanner.shown units = other.shown units := by
  funext candidate
  simp only [Scanner.bearing] at bearing condition position
  simp only [shown, bearing, condition, position]

omit [ScanUnit U] in
theorem Offered.congr {other : Scanner τ φ U ε}
    (offered : scanner.Offered units candidates offers choice)
    (same : scanner.shown units = other.shown units) :
    other.Offered units candidates offers choice := by
  cases offered with
  | all => exact same ▸ .all
  | taken length => exact same ▸ .taken length

omit [ScanUnit U] in
theorem Offered.first {candidate : Lexicon.Candidate} {untried : List Lexicon.Candidate}
    {choice : Choice V} (length : choice.length = candidate.length) :
    scanner.Offered units (candidate :: untried) [scanner.shown units candidate] (some choice) := by
  have taken : scanner.Offered units ([] ++ candidate :: untried)
      (([] ++ [candidate]).map (scanner.shown units)) (some choice) := .taken length
  exact taken

omit [ScanUnit U] in
theorem Offered.cons (offered : scanner.Offered units candidates offers choice)
    (candidate : Lexicon.Candidate) :
    scanner.Offered units (candidate :: candidates) (scanner.shown units candidate :: offers)
      choice := by
  cases offered with
  | all => exact .all
  | @taken rejected untried taken choice length =>
    have more : scanner.Offered units (candidate :: rejected ++ taken :: untried)
      ((candidate :: rejected ++ [taken]).map (scanner.shown units)) _ := .taken length
    exact more

variable [TokenFactory φ U V ε] {keeps : φ → Prop} {tried : List (Nat × Trail U)} {bound : Nat}
  {events : List (Event U V)}

/-- Steady factories are offered the candidates under one start condition. -/
theorem Tries.offered (tries : Tries tried scanner events choice after) (ready : scanner.Ready)
    (along : scanner.lexicon.Along scanner.start bound tried) (steady : Steady U ε keeps)
    (all : scanner.Keeps keeps)
    (text : ∀ length, length ≤ bound → scanner.window.front length = units.take length) :
    scanner.Offered units (matching scanner.lexicon scanner.condition tried)
      (Event.offers events) choice := by
  induction tries with
  | done => exact .all
  | absent fails _ ih =>
    obtain ⟨-, -, state, traced⟩ := along _ _ (.head _)
    have length := matchLength_eq ready traced fails
    simp only [matching, List.filterMap_cons, length]
    exact ih ready along.tail all text
  | @rejected scanner middle after token length part tried events choice fits ruled _ ih =>
    obtain ⟨-, -, state, traced⟩ := along _ _ (.head _)
    have found := matchLength_eq ready traced fits
    have within := (matchLength_le ready ready.start_lt along fits).2
    have rules := rules_of_consult ruled
    obtain ⟨condition, stillAll⟩ := rules.steady steady all
    have lexicon := rules.lexicon_eq
    have same : middle.shown units = scanner.shown units :=
      shown_congr lexicon condition (by rw [rules.frame]; rfl)
    have start : middle.start = scanner.start := by rw [start, lexicon, condition]; rfl
    have rest := ih (rules.ready ready) (by rw [lexicon, start]; exact along.tail) stillAll
      (by rwa [rules.window_eq])
    rw [lexicon, condition] at rest
    have here : scanner.candidate token length = scanner.shown units ⟨token, length⟩ := by
      rw [candidate, text length within, shown]
    have offers : Event.offers (scanner.offering token length :: events) =
        scanner.shown units ⟨token, length⟩ :: Event.offers events := by
      rw [← here]
      rfl
    simp only [matching, List.filterMap_cons, found, offers]
    exact (rest.congr same).cons ⟨token, length⟩
  | @taken scanner after token length part tried choice fits ruled =>
    obtain ⟨-, -, state, traced⟩ := along _ _ (.head _)
    have found := matchLength_eq ready traced fits
    have within := (matchLength_le ready ready.start_lt along fits).2
    have here : scanner.candidate token length = scanner.shown units ⟨token, length⟩ := by
      rw [candidate, text length within, shown]
    have offers : Event.offers [(scanner.offering token length : Event U V)] =
        [scanner.shown units ⟨token, length⟩] := by
      rw [← here]
      rfl
    simp only [matching, List.filterMap_cons, found, offers]
    exact .first ((rules_of_consult ruled).length_eq choice rfl)

end

/-! ## Rounds -/

/-- The text of a match that is consumed. -/
def Piece.matched? : Piece U V → Option (List U)
  | .token text _ | .discarded text => some text
  | .unmatched _ | .eof _ => none

/-- What a round offers of `units`, and the piece that it ends with: all candidates, and one unit
is skipped, or those up to the first that is taken, and the piece is its text. -/
inductive Finds (scanner : Scanner σ φ U ε) (units : List U) :
    List (Match U) → Piece U V → Prop where
  | matched {rejected untried : List Lexicon.Candidate} {candidate : Lexicon.Candidate}
      {piece : Piece U V}
      (candidates : scanner.lexicon.candidates scanner.condition units =
        rejected ++ candidate :: untried)
      (consumes : piece.matched? = some (units.take candidate.length)) :
      Finds scanner units ((rejected ++ [candidate]).map (scanner.shown units)) piece
  | unmatched {unit : U} {rest : List U} (begins : units = unit :: rest) :
      Finds scanner units
        ((scanner.lexicon.candidates scanner.condition units).map (scanner.shown units))
        (.unmatched unit)
  | ended (nothing : units = []) : Finds scanner units [] (.eof scanner.bearing.eof)

section
variable [TokenFactory φ U V ε] {scanner after : Scanner σ φ U ε}
  {units : List U} {keeps : φ → Prop} {trail : Trail U} {piece : Piece U V}
  {events : List (Event U V)}

omit [TokenFactory φ U V ε] in
/-- On the trail of the forward run, what is tried is what the input may begin with. -/
theorem Reaches.matching_attempts (reaches : scanner.Reaches (.ofList units) trail) :
    matching scanner.lexicon scanner.condition (scanner.lexicon.attempts trail) =
      scanner.lexicon.candidates scanner.condition units := by
  obtain ⟨read, state, traced, stuck⟩ := Lexicon.Reads.furthest reaches .start rfl
  rw [Content.take_ofList] at read
  have split : units = trail.text ++ units.drop trail.length := by
    rw [read, List.take_append_drop]
  have reach := Lexicon.reach_eq split traced.stateBehind_eq fun unit first =>
    stuck unit (by simpa using first)
  rw [Trail.length_text] at reach
  rw [matching, Lexicon.filterMap_attempts traced split, Lexicon.candidates, reach]

variable [UnitSource σ U ε]

theorem Resolved.finds (resolved : Resolved (.ofList units) scanner events piece after)
    (ready : scanner.Ready) (steady : Steady U ε keeps) (all : scanner.Keeps keeps) :
    scanner.Finds units (Event.offers events) piece := by
  cases resolved with
  | ended nothing => exact .ended (by simpa using nothing)
  | @piece looked ruled after trail tried choice something reaches looks within tries =>
    have still := ready.of_bearing looks.bearing
    have same : looked.shown units = scanner.shown units := by
      obtain ⟨lexicon, -, -, -, -, -, condition, position⟩ := Bearing.mk.inj looks.bearing
      exact shown_congr lexicon condition position
    have text (length : Nat) (short : length ≤ trail.length) :
        looked.window.front length = units.take length := by
      rw [looks.has.front_eq (short.trans within), Content.take_ofList]
    have reachesStill := reaches.of_bearing looks.bearing
    have lexicon : looked.lexicon = scanner.lexicon := congrArg Bearing.lexicon looks.bearing
    have condition : looked.condition = scanner.condition :=
      congrArg Bearing.condition looks.bearing
    have offered := Tries.offered (lexicon ▸ tries) still reachesStill.along steady
      (all.of_bearing looks.bearing) text
    rw [reachesStill.matching_attempts, lexicon, condition] at offered
    have last (piece : Piece U V) :
        Event.offers (tried ++ [ruled.bearing.event piece]) = Event.offers tried := by
      cases piece <;> simp [Event.offers, Event.offer?, Bearing.event]
    rw [last, Content.take_ofList]
    replace offered := offered.congr same
    generalize candidates : scanner.lexicon.candidates scanner.condition units = listed at offered
    generalize Event.offers tried = offers at offered ⊢
    cases offered with
    | all =>
      obtain ⟨unit, first⟩ := Option.isSome_iff_exists.mp something
      cases units with
      | nil => cases first
      | cons unit rest => exact candidates ▸ .unmatched rfl
    | @taken rejected untried candidate choice length =>
      refine .matched candidates ?_
      cases choice <;>
        simpa [Bearing.piece, Piece.matched?, consumed] using congrArg units.take length

/-- A round offers what the remaining input may begin with under the start condition in force: the
longest match first, then the shorter ones, and of one length in the order of the tokens.  The first
candidate that is not rejected is consumed; if there is none, one unit is skipped. -/
theorem round_offers_candidates [LawfulUnitSource σ U ε]
    (accepted : scanner.lexicon.check = .ok ())
    (inForce : scanner.condition < scanner.lexicon.conditions)
    (has : scanner.Has (.ofList units)) (steady : Steady U ε keeps) (all : scanner.Keeps keeps) :
    ∃ fuel piece after, scanner.round fuel = .ok (.ok piece, after) ∧
      (∃ events, scanner.Scans events piece after) ∧
      ∀ events, scanner.Scans events piece after →
        scanner.Finds units (Event.offers events) piece := by
  have ready : scanner.Ready := ⟨Lexicon.check_eq_ok_iff.mp accepted, inForce⟩
  obtain ⟨trail, reads⟩ := Lexicon.Reads.exists_of_terminates units scanner.start []
  obtain ⟨fuel, events, piece, after, rounded, scans⟩ := round_ok has ready reads
  exact ⟨fuel, piece, after, rounded, ⟨events, scans⟩,
    fun events scans => (scans.resolved has ready).finds ready steady all⟩

end

/-- Two tokens with the text 1, the first of them only in front of a 2. -/
def lookahead : Lexicon where
  categoryCount := 3
  categories := #[0, 1, 2]
  tokenParams := #[-1, -1]
  tokenContexts := #[0, -1]
  tokenNames := #[]
  conditionCount := 1
  contextCount := 1
  forward := {
    initialStates := #[1]
    transitions := #[#[0, 0, 0], #[0, 2, 0], #[0, 0, 3], #[0, 0, 0]]
    codes := #[0, 1, 2, 3]
    tokenLists := #[#[], #[], #[1], #[0]]
    contextSplits := #[#[false], #[false], #[true], #[false]] }
  reverse := {
    initialStates := #[1]
    transitions := #[#[0, 0, 0], #[0, 0, 2], #[0, 0, 0]]
    codes := #[0, 1, 2]
    tokenLists := #[#[], #[], #[]]
    contextSplits := #[#[false], #[false], #[true]] }

/-- A scanner that drops the first of them and delivers the second. -/
def looking : Scanner (Script UInt8) Calculator.Spelling UInt8 Empty :=
  ((create lookahead 9 0 8).setFactory 0 .blank).openSource
    (.ofSteps [.read [1, 2], .line [1]]) none

theorem steady_spelling : Steady UInt8 Empty fun _ : Calculator.Spelling => True where
  stays _ _ := trivial
  rejects := by
    intro factory next candidate ruling notes _ ruled rejected
    cases factory <;> cases ruled <;> cases rejected

theorem round_offers_candidates_looking :
    looking.lexicon.check = .ok () ∧ looking.condition < looking.lexicon.conditions ∧
      looking.Has (.ofList [1, 2, 1]) ∧
      looking.lexicon.candidates looking.condition [(1 : UInt8), 2, 1] = [⟨0, 1⟩, ⟨1, 1⟩] ∧
      ∃ fuel piece after, looking.round fuel = .ok (.ok piece, after) ∧
        (∃ events, looking.Scans events piece after) ∧
        ∀ events, looking.Scans events piece after →
          looking.Finds [1, 2, 1] (Event.offers events) piece := by
  have accepted : looking.lexicon.check = .ok () := by decide +kernel
  have inForce : looking.condition < looking.lexicon.conditions := by decide +kernel
  have delivers : UnitSource.Delivers Empty (Script.ofSteps [.read [1, 2], .line [(1 : UInt8)]])
      (.ofList [1, 2, 1]) :=
    Script.delivers (by decide)
  have has : looking.Has (.ofList [1, 2, 1]) := has_openSource _ _ delivers
  exact ⟨accepted, inForce, has, by decide +kernel,
    round_offers_candidates accepted inForce has steady_spelling fun _ _ _ => trivial⟩

end TableDriven.Scanner
