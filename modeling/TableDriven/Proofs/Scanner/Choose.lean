import TableDriven.Proofs.Scanner.Consult

/-! # Choosing among candidates

What a scanner does is told by its events: the candidates that it offers and the pieces that it
consumes, in order.  `Tries` says what becomes of the candidates on a trail, each of them a call of
the program, and `select_ok` reads it off.  Scanners that decide alike choose alike, whatever stands
behind the units that they look at (`Tries.alike`).
-/

namespace TableDriven.Scanner

/-- Something that a scanner does with its input.  A candidate is offered to its factory if it has
one. -/
inductive Event (U V : Type) where
  | offered (candidate : Match U) (isAsked : Bool)
  | delivered (text : List U) (token : Token V)
  | discarded (text : List U) (position : Position)
  | unmatched (unit : U) (position : Position)
  | ended (token : Token V) (isReported : Bool)

namespace Event

/-- The units that are consumed. -/
def text : Event U V → List U
  | .delivered text _ | .discarded text _ => text
  | .unmatched unit _ => [unit]
  | .offered .. | .ended .. => []

def position : Event U V → Position
  | .offered candidate _ => candidate.position
  | .delivered _ token | .ended token _ => token.position
  | .discarded _ position | .unmatched _ position => position

def offer? : Event U V → Option (Match U)
  | .offered candidate _ => some candidate
  | .delivered .. | .discarded .. | .unmatched .. | .ended .. => none

def report? : Event U V → Option (Report U)
  | .unmatched unit position => some (.unmatched unit position)
  | .ended token isReported => if isReported then some (.eof token.position) else none
  | .offered .. | .delivered .. | .discarded .. => none

/-- The units that are consumed, in order. -/
def texts (events : List (Event U V)) : List U := events.flatMap text

/-- The candidates that are offered. -/
def offers (events : List (Event U V)) : List (Match U) := events.filterMap offer?

/-- What the client is told. -/
def reports (events : List (Event U V)) : List (Report U) := events.filterMap report?

section
variable (first second : List (Event U V))

@[simp] theorem texts_append : texts (first ++ second) = texts first ++ texts second :=
  List.flatMap_append

@[simp] theorem reports_append : reports (first ++ second) = reports first ++ reports second :=
  List.filterMap_append

@[simp] theorem texts_nil : texts ([] : List (Event U V)) = [] := rfl

@[simp] theorem offers_nil : offers ([] : List (Event U V)) = [] := rfl

@[simp] theorem reports_nil : reports ([] : List (Event U V)) = [] := rfl

@[simp] theorem texts_singleton (event : Event U V) : texts [event] = event.text := by simp [texts]

@[simp] theorem reports_singleton (event : Event U V) :
    reports [event] = event.report?.toList := by
  cases told : event.report? <;> simp [reports, told]

end

end Event

variable [ScanUnit U] [TokenFactory φ U V ε] {scanner middle after : Scanner σ φ U ε}

/-! ## Candidates -/

/-- The event that a candidate is offered. -/
def offering (scanner : Scanner σ φ U ε) (token length : Nat) : Event U V :=
  .offered (scanner.candidate token length) (scanner.factory? token).isSome

/-- What becomes of candidates that are tried one after the other: each may be absent, rejected or
taken. -/
inductive Tries : List (Nat × Trail U) → Scanner σ φ U ε → List (Event U V) →
    Option (Choice V) → Scanner σ φ U ε → Prop where
  | done {scanner : Scanner σ φ U ε} : Tries [] scanner [] none scanner
  | absent {scanner after : Scanner σ φ U ε} {token : Nat} {part : Trail U}
      {tried : List (Nat × Trail U)} {events : List (Event U V)} {choice : Option (Choice V)}
      (fails : scanner.matchLength part token = .ok none)
      (rest : Tries tried scanner events choice after) :
      Tries ((token, part) :: tried) scanner events choice after
  | rejected {scanner middle after : Scanner σ φ U ε} {token length : Nat} {part : Trail U}
      {tried : List (Nat × Trail U)} {events : List (Event U V)} {choice : Option (Choice V)}
      (fits : scanner.matchLength part token = .ok (some length))
      (ruled : scanner.consult token length = .ok (none, middle))
      (rest : Tries tried middle events choice after) :
      Tries ((token, part) :: tried) scanner (scanner.offering token length :: events) choice after
  | taken {scanner after : Scanner σ φ U ε} {token length : Nat} {part : Trail U}
      {tried : List (Nat × Trail U)} {choice : Choice V}
      (fits : scanner.matchLength part token = .ok (some length))
      (ruled : scanner.consult token length = .ok (some choice, after)) :
      Tries ((token, part) :: tried) scanner [scanner.offering token length] (some choice) after

namespace Tries

variable {tried first second : List (Nat × Trail U)} {events more : List (Event U V)}
  {choice : Option (Choice V)}

theorem append (tries : Tries first scanner events none middle)
    (rest : Tries second middle more choice after) :
    Tries (first ++ second) scanner (events ++ more) choice after := by
  generalize nothing : (none : Option (Choice V)) = missing at tries
  induction tries with
  | done => exact rest
  | absent fails _ ih => exact .absent fails (ih rest nothing)
  | rejected fits ruled _ ih => exact .rejected fits ruled (ih rest nothing)
  | taken => cases nothing

theorem append_taken {taken : Choice V} (tries : Tries first scanner events (some taken) after) :
    Tries (first ++ second) scanner events (some taken) after := by
  generalize something : some taken = found at tries
  induction tries with
  | done => cases something
  | absent fails _ ih => exact .absent fails (ih something)
  | rejected fits ruled _ ih => exact .rejected fits ruled (ih something)
  | taken fits ruled => exact .taken fits ruled

/-- Only the factories, the start condition and the journal change, and the client is told
nothing. -/
theorem frame (tries : Tries tried scanner events choice after) :
    after = { scanner with
      factories := after.factories
      condition := after.condition
      journal := after.journal } ∧ after.reports = scanner.reports := by
  induction tries with
  | done => exact ⟨rfl, rfl⟩
  | absent _ _ ih => exact ih
  | rejected _ ruled _ ih =>
    have rules := rules_of_consult ruled
    exact ⟨ih.1.trans (by rw [rules.frame]), ih.2.trans rules.reports_eq⟩
  | taken _ ruled =>
    have rules := rules_of_consult ruled
    exact ⟨rules.frame, rules.reports_eq⟩

theorem ready (tries : Tries tried scanner events choice after) (ready : scanner.Ready) :
    after.Ready := by
  induction tries with
  | done => exact ready
  | absent _ _ ih => exact ih ready
  | rejected _ ruled _ ih => exact ih ((rules_of_consult ruled).ready ready)
  | taken _ ruled => exact (rules_of_consult ruled).ready ready

/-- Every event is an offer at the position of the scanner. -/
theorem offered_of_mem (tries : Tries tried scanner events choice after) {event : Event U V}
    (member : event ∈ events) :
    ∃ candidate isAsked, event = .offered candidate isAsked ∧
      candidate.position = scanner.position := by
  induction tries with
  | done => cases member
  | absent _ _ ih => exact ih member
  | rejected _ ruled _ ih =>
    cases member with
    | head => exact ⟨_, _, rfl, rfl⟩
    | tail _ member =>
      obtain ⟨candidate, isAsked, same, here⟩ := ih member
      refine ⟨candidate, isAsked, same, here.trans ?_⟩
      rw [(rules_of_consult ruled).frame]
  | taken =>
    cases List.mem_singleton.mp member
    exact ⟨_, _, rfl, rfl⟩

theorem texts_eq (tries : Tries tried scanner events choice after) : Event.texts events = [] := by
  refine List.flatMap_eq_nil_iff.mpr fun event member => ?_
  obtain ⟨candidate, isAsked, rfl, -⟩ := tries.offered_of_mem member
  rfl

theorem reports_eq (tries : Tries tried scanner events choice after) :
    Event.reports events = [] := by
  refine List.filterMap_eq_nil_iff.mpr fun event member => ?_
  obtain ⟨candidate, isAsked, rfl, -⟩ := tries.offered_of_mem member
  rfl

/-- What is taken has some units, and no more than there were to try. -/
theorem length_ok {start bound : Nat} (tries : Tries tried scanner events choice after)
    (ready : scanner.Ready) (begins : start < scanner.lexicon.forward.stateCount)
    (along : scanner.lexicon.Along start bound tried) :
    ∀ taken ∈ choice, 1 ≤ taken.length ∧ taken.length ≤ bound := by
  induction tries with
  | done => simp
  | absent _ _ ih => exact ih ready begins along.tail
  | rejected _ ruled _ ih =>
    have rules := rules_of_consult ruled
    have same := rules.lexicon_eq
    exact ih (rules.ready ready) (same ▸ begins) (same ▸ along.tail)
  | @taken scanner after token length part tried choice fits ruled =>
    have size := (rules_of_consult ruled).length_eq choice rfl
    simp only [Option.mem_def, Option.some.injEq, forall_eq', size]
    exact matchLength_le ready begins along fits

/-- Scanners that decide alike and have the same units in front of them do the same. -/
theorem alike {other last : Scanner τ φ U ε} {others : List (Event U V)}
    {chosen : Option (Choice V)} {start bound : Nat}
    (tries : Tries tried scanner events choice after)
    (second : Tries tried other others chosen last)
    (ready : scanner.Ready) (begins : start < scanner.lexicon.forward.stateCount)
    (along : scanner.lexicon.Along start bound tried) (bearing : scanner.bearing = other.bearing)
    (same : ∀ length, length ≤ bound → scanner.window.front length = other.window.front length) :
    events = others ∧ choice = chosen ∧ after.bearing = last.bearing := by
  induction tries generalizing other others with
  | done =>
    cases second
    exact ⟨rfl, rfl, bearing⟩
  | absent fails _ ih =>
    have length := matchLength_congr bearing
    cases second with
    | absent _ second => exact ih second ready begins along.tail bearing same
    | rejected fits => cases (fails.symm.trans (length ..)).trans fits
    | taken fits => cases (fails.symm.trans (length ..)).trans fits
  | @rejected scanner middle after token _ part tried events choice fits ruled _ ih =>
    have length := matchLength_congr bearing part token
    have candidate := candidate_congr bearing token
      (same _ (matchLength_le ready begins along fits).2)
    have rules := rules_of_consult ruled
    cases second with
    | absent fails => cases (fits.symm.trans length).trans fails
    | rejected found told second =>
      cases (fits.symm.trans length).trans found
      have others := rules_of_consult told
      obtain ⟨-, further⟩ := rules.alike others bearing candidate
      have lexicon := rules.lexicon_eq
      obtain ⟨events, choice, last⟩ := ih second (rules.ready ready) (lexicon ▸ begins)
        (lexicon ▸ along.tail) further (by rwa [rules.window_eq, others.window_eq])
      exact ⟨by rw [events, offering, offering, candidate, factory?_congr bearing], choice, last⟩
    | taken found told =>
      cases (fits.symm.trans length).trans found
      cases (rules.alike (rules_of_consult told) bearing candidate).1
  | @taken scanner after token _ part tried choice fits ruled =>
    have length := matchLength_congr bearing part token
    have candidate := candidate_congr bearing token
      (same _ (matchLength_le ready begins along fits).2)
    have rules := rules_of_consult ruled
    cases second with
    | absent fails => cases (fits.symm.trans length).trans fails
    | rejected found told =>
      cases (fits.symm.trans length).trans found
      cases (rules.alike (rules_of_consult told) bearing candidate).1
    | taken found told =>
      cases (fits.symm.trans length).trans found
      have both := rules.alike (rules_of_consult told) bearing candidate
      exact ⟨by rw [offering, offering, candidate, factory?_congr bearing], both⟩

end Tries

/-- A scanner offers all tokens behind a trail in order. -/
theorem offer_ok {part : Trail U} {start state : Nat} {tokens : List Nat} (ready : scanner.Ready)
    (known : ∀ token ∈ tokens, token < scanner.lexicon.tokenCount)
    (traced : scanner.lexicon.Traced start part state)
    (begins : start < scanner.lexicon.forward.stateCount) (nonempty : part ≠ []) :
    ∃ (events : List (Event U V)) (choice : Option (Choice V)) (after : Scanner σ φ U ε),
      offer part tokens scanner = .ok (choice, after) ∧
      Tries (tokens.map (·, part)) scanner events choice after := by
  induction tokens generalizing scanner with
  | nil => exact ⟨[], none, scanner, rfl, .done⟩
  | cons token tokens ih =>
    have here := known token (.head _)
    have others : ∀ token ∈ tokens, token < scanner.lexicon.tokenCount :=
      fun token member => known token (.tail _ member)
    obtain ⟨found, fits, -⟩ := matchLength_ok ready here traced begins nonempty
    simp only [offer, fits, ok_bind]
    cases found with
    | none =>
      obtain ⟨events, choice, after, offered, tries⟩ := ih ready others traced begins
      exact ⟨events, choice, after, offered, .absent fits tries⟩
    | some length =>
      obtain ⟨choice, ruled, consulted, rules⟩ :=
        consult_ok (V := V) length here
      simp only [consulted, ok_bind]
      cases choice with
      | some choice =>
        exact ⟨_, some choice, ruled, rfl, .taken fits consulted⟩
      | none =>
        have same := rules.lexicon_eq
        obtain ⟨events, choice, after, offered, tries⟩ := ih (rules.ready ready)
          (same ▸ others) (same ▸ traced) (same ▸ begins)
        exact ⟨_, choice, after, offered, .rejected fits consulted tries⟩

theorem select_ok {trail : Trail U} {start state : Nat} (ready : scanner.Ready)
    (traced : scanner.lexicon.Traced start trail state)
    (begins : start < scanner.lexicon.forward.stateCount) :
    ∃ (events : List (Event U V)) (choice : Option (Choice V)) (after : Scanner σ φ U ε),
      select trail scanner = .ok (choice, after) ∧
      Tries (scanner.lexicon.attempts trail) scanner events choice after := by
  generalize fixed : scanner.lexicon = lexicon at traced begins ⊢
  induction traced generalizing scanner with
  | start => exact ⟨[], none, scanner, rfl, .done⟩
  | @step shorter middle state unit traced goes ih =>
    have whole := Lexicon.Traced.step traced goes
    obtain ⟨checked, inForce⟩ := id ready
    rw [fixed] at checked
    obtain ⟨code, coded, below⟩ := checked.forward.code_ok (whole.state_lt checked begins)
    obtain ⟨tokens, listed, known⟩ := checked.forward.tokens_ok below
    simp only [coded, Run.value] at whole ⊢
    obtain ⟨events, choice, after, offered, tries⟩ :=
      offer_ok (V := V) ready (fixed ▸ known) (fixed ▸ whole) (fixed ▸ begins) (by simp)
    simp only [select, Lexicon.attempts, fixed, listed, Run.value, ok_bind, offered]
    cases choice with
    | some taken => exact ⟨events, some taken, after, rfl, tries.append_taken⟩
    | none =>
      obtain ⟨frame, -⟩ := tries.frame
      have same : after.lexicon = lexicon := by rw [frame, ← fixed]
      obtain ⟨others, choice, last, selected, rest⟩ := ih (tries.ready ready) same
      exact ⟨_, choice, last, selected, tries.append rest⟩

end TableDriven.Scanner
