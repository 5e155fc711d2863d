import TableDriven.Proofs.Scanner.Forward

/-! # Asking the factories

`Scanner.Rules` says what becomes of one candidate: without a factory it is assembled, otherwise its
factory rules on it and may switch the start condition (`consult_ok`).  `Scanner.Tries` strings
the candidates of a trail together, up to the first that is taken, and `select_ok` reads it off
the program, for any factories.
-/

namespace TableDriven.Scanner

variable [TokenFactory φ U V ε]

/-- A candidate of `length` units, as its factory sees it. -/
def candidate (scanner : Scanner σ φ U ε) (token length : Nat) : Match U where
  token := token
  param := (scanner.lexicon.param token).value
  number := defaultNumber token (scanner.lexicon.param token).value
  text := scanner.window.front length
  position := scanner.position
  condition := scanner.condition
  conditionCount := scanner.lexicon.conditions

def factory? (scanner : Scanner σ φ U ε) (token : Nat) : Option φ :=
  scanner.factories[token]?.join

section
variable {scanner : Scanner σ φ U ε} {other : Scanner τ φ U ε}

theorem factory?_congr (bearing : scanner.bearing = other.bearing) (token : Nat) :
    scanner.factory? token = other.factory? token := by
  obtain ⟨-, -, -, factories, -⟩ := Bearing.mk.inj bearing
  simp only [factory?, factories]

theorem candidate_congr (bearing : scanner.bearing = other.bearing) (token : Nat) {length : Nat}
    (front : scanner.window.front length = other.window.front length) :
    scanner.candidate token length = other.candidate token length := by
  obtain ⟨lexicon, -, -, -, -, -, condition, position⟩ := Bearing.mk.inj bearing
  simp only [candidate, lexicon, condition, position, front]

end

/-- The units that a choice consumes. -/
def Choice.length : Choice V → Nat
  | .token length .. | .discard length => length

/-- What a ruling makes of a candidate of `length` units. -/
def Ruling.choice? (ruling : Ruling V) (length : Nat) : Option (Choice V) :=
  match ruling.verdict with
  | .assemble => some (.token length ruling.number ruling.value)
  | .discard => some (.discard length)
  | .reject => none

/-- The start condition in force after a factory asked for one. -/
def switched (scanner : Scanner σ φ U ε) (asked : Option Nat) : Nat :=
  match asked with
  | none => scanner.condition
  | some condition =>
    if condition < scanner.lexicon.conditions then condition else scanner.condition

omit [TokenFactory φ U V ε] in
theorem setCondition_snd (scanner : Scanner σ φ U ε) (condition : Nat) :
    (scanner.setCondition condition).2 =
      { scanner with condition := scanner.switched (some condition) } := by
  simp only [setCondition, switched]
  split <;> rfl

/-- What becomes of a candidate. -/
inductive Rules (scanner : Scanner σ φ U ε) (token length : Nat) :
    Option (Choice V) → Scanner σ φ U ε → Prop where
  | assembled (alone : scanner.factory? token = none) :
      Rules scanner token length
        (some (.token length (scanner.candidate token length).number none)) scanner
  | ruled {factory next : φ} {ruling : Ruling V} {notes : List ε}
      (found : scanner.factory? token = some factory)
      (ruled : TokenFactory.consult factory (scanner.candidate token length) =
        (ruling, next, notes)) :
      Rules scanner token length (ruling.choice? length)
        { scanner with
          factories := scanner.factories.setIfInBounds token (some next)
          condition := scanner.switched ruling.condition
          journal := scanner.journal.appendList (notes.map .noted) }

variable {scanner : Scanner σ φ U ε} {token length : Nat}

variable (length) in
theorem consult_ok (known : token < scanner.lexicon.tokenCount) :
    ∃ (choice : Option (Choice V)) (after : Scanner σ φ U ε),
      scanner.consult token length = .ok (choice, after) ∧
      scanner.Rules token length choice after := by
  obtain ⟨param, looked⟩ := Lexicon.Checked.param_ok known
  have alone (unmade : scanner.factory? token = none) :
      scanner.Rules token length (V := V) (some (.token length (defaultNumber token param) none))
        scanner := by
    have rules : scanner.Rules token length (V := V) _ scanner := .assembled unmade
    simpa only [candidate, looked, Run.value] using rules
  simp only [consult, looked, ok_bind]
  cases stored : scanner.factories[token]? with
  | none => exact ⟨_, _, rfl, alone (by simp [factory?, stored])⟩
  | some slot =>
    cases slot with
    | none => exact ⟨_, _, rfl, alone (by simp [factory?, stored])⟩
    | some factory =>
      have found : scanner.factory? token = some factory := by simp [factory?, stored]
      obtain ⟨⟨ruling, next, notes⟩, ruled⟩ :
          ∃ answer,
            TokenFactory.consult (ε := ε) factory (scanner.candidate token length) = answer :=
        ⟨_, rfl⟩
      have rules := Rules.ruled found ruled
      simp only [candidate, looked, Run.value] at ruled
      simp only [ruled, setCondition_snd]
      cases asked : ruling.condition <;> cases said : ruling.verdict <;>
        simp only [Ruling.choice?, switched, asked, said] at rules <;> exact ⟨_, _, rfl, rules⟩

variable {choice : Option (Choice V)} {after : Scanner σ φ U ε}

theorem lt_of_consult (consulted : scanner.consult token length = .ok (choice, after)) :
    token < scanner.lexicon.tokenCount := by
  obtain ⟨param, looked, -⟩ := bind_eq_ok_iff.mp consulted
  obtain ⟨word, stored, -⟩ := bind_eq_ok_iff.mp looked
  exact Run.lt_of_lookup stored

theorem rules_of_consult (consulted : scanner.consult token length = .ok (choice, after)) :
    scanner.Rules token length choice after := by
  obtain ⟨other, last, again, rules⟩ := consult_ok (V := V) length (lt_of_consult consulted)
  cases consulted.symm.trans again
  exact rules

namespace Rules

/-- Only the factories, the start condition and the journal change. -/
theorem frame (rules : scanner.Rules token length choice after) :
    after = { scanner with
      factories := after.factories
      condition := after.condition
      journal := after.journal } := by
  cases rules <;> rfl

theorem reports_eq (rules : scanner.Rules token length choice after) :
    after.reports = scanner.reports := by
  cases rules with
  | assembled => rfl
  | ruled => exact reports_noteAll scanner _

theorem lexicon_eq (rules : scanner.Rules token length choice after) :
    after.lexicon = scanner.lexicon := by
  rw [rules.frame]

theorem window_eq (rules : scanner.Rules token length choice after) :
    after.window = scanner.window := by
  rw [rules.frame]

theorem ready (rules : scanner.Rules token length choice after) (ready : scanner.Ready) :
    after.Ready := by
  refine ⟨rules.lexicon_eq ▸ ready.checked, ?_⟩
  cases rules with
  | assembled => exact ready.inForce
  | ruled =>
    simp only [switched]
    split
    next => exact ready.inForce
    next => split <;> [assumption; exact ready.inForce]

theorem length_eq (rules : scanner.Rules token length choice after) :
    ∀ taken ∈ choice, taken.length = length := by
  cases rules with
  | assembled => simp [Choice.length]
  | @ruled _ _ ruling => cases said : ruling.verdict <;> simp [Ruling.choice?, said, Choice.length]

/-- What becomes of a candidate depends on the candidate and its factory alone. -/
theorem alike {other last : Scanner τ φ U ε} {chosen : Option (Choice V)}
    (rules : scanner.Rules token length choice after)
    (second : other.Rules token length chosen last) (bearing : scanner.bearing = other.bearing)
    (same : scanner.candidate token length = other.candidate token length) :
    choice = chosen ∧ after.bearing = last.bearing := by
  have factory := factory?_congr bearing token
  cases rules with
  | assembled alone =>
    cases second with
    | assembled => exact ⟨by rw [same], bearing⟩
    | ruled found => cases (alone.symm.trans factory).trans found
  | ruled found ruled =>
    cases second with
    | assembled alone => cases (found.symm.trans factory).trans alone
    | ruled seen told =>
      cases (found.symm.trans factory).trans seen
      cases (ruled.symm.trans (same ▸ rfl)).trans told
      obtain ⟨lexicon, symbol, tab, factories, file, reported, condition, position⟩ :=
        Bearing.mk.inj bearing
      refine ⟨rfl, ?_⟩
      simp only [Scanner.bearing, switched, lexicon, symbol, tab, factories, file, reported,
        condition, position]

end Rules

section
variable [ScanUnit U] {trail : Trail U} {start state : Nat}

theorem matchLength_ok (ready : scanner.Ready)
    (known : token < scanner.lexicon.tokenCount) (traced : scanner.lexicon.Traced start trail state)
    (begins : start < scanner.lexicon.forward.stateCount) (nonempty : trail ≠ []) :
    ∃ found, scanner.matchLength trail token = .ok found ∧
      ∀ length ∈ found, 1 ≤ length ∧ length ≤ trail.length := by
  obtain ⟨context, looked, numbered⟩ := ready.checked.context?_ok known
  simp only [matchLength, looked, ok_bind]
  cases context with
  | none =>
    have positive := List.length_pos_iff.mpr nonempty
    exact ⟨some trail.length, rfl, by simp; omega⟩
  | some context =>
    obtain ⟨initial, found, within⟩ := ready.checked.reverse.initial_ok ready.inForce
    simp only [Lexicon.split, found, ok_bind]
    exact Lexicon.splitFrom_ok ready.checked (numbered context rfl) traced begins within

theorem lt_of_matchLength {found : Option Nat} (checked : scanner.lexicon.Checked)
    (fits : scanner.matchLength trail token = .ok found) : token < scanner.lexicon.tokenCount := by
  obtain ⟨context, looked, -⟩ := bind_eq_ok_iff.mp fits
  obtain ⟨word, stored, -⟩ := bind_eq_ok_iff.mp looked
  exact checked.contexts_size ▸ Run.lt_of_lookup stored

theorem matchLength_le {bound : Nat} {tried : List (Nat × Trail U)} (ready : scanner.Ready)
    (begins : start < scanner.lexicon.forward.stateCount)
    (along : scanner.lexicon.Along start bound ((token, trail) :: tried))
    (fits : scanner.matchLength trail token = .ok (some length)) : 1 ≤ length ∧ length ≤ bound := by
  obtain ⟨nonempty, short, state, traced⟩ := along token trail (.head _)
  have known := lt_of_matchLength ready.checked fits
  obtain ⟨found, same, within⟩ := matchLength_ok ready known traced begins nonempty
  cases fits.symm.trans same
  have fits := within length rfl
  omega

theorem matchLength_congr {other : Scanner τ φ U ε} (bearing : scanner.bearing = other.bearing)
    (trail : Trail U) (token : Nat) :
    scanner.matchLength trail token = other.matchLength trail token := by
  obtain ⟨lexicon, -, -, -, -, -, condition, -⟩ := Bearing.mk.inj bearing
  simp only [matchLength, lexicon, condition]

/-- On the trail of the start condition in force, it is the length of the token in the text. -/
theorem matchLength_eq {found : Option Nat} (ready : scanner.Ready)
    (traced : scanner.lexicon.Traced scanner.start trail state)
    (fits : scanner.matchLength trail token = .ok found) :
    scanner.lexicon.lengthOf scanner.condition token trail.text = found := by
  refine Except.ok.inj (Eq.trans ?_ fits)
  obtain ⟨context, looked, numbered⟩ :=
    ready.checked.context?_ok (lt_of_matchLength ready.checked fits)
  simp only [matchLength, Lexicon.lengthOf, looked, ok_bind, Run.value]
  cases context with
  | none => simp
  | some context =>
    simp only [Trail.length_text]
    exact (Lexicon.split_eq ready.checked ready.inForce (numbered context rfl) traced).symm

end

end TableDriven.Scanner
