import TableDriven.Proofs.Lexicon.Candidates
import TableDriven.Proofs.Scanner.Fill

/-! # The forward run

`Lexicon.Reads` is the run of the forward automaton over an input, without a window.  The scanner
runs just that, however its input comes (`forward_sound`, `forward_ok`).  The run leaves the trail
of the longest beginning that the automaton gets over, and over an input that ends it ends, too.
-/

namespace TableDriven

namespace Lexicon

variable [ScanUnit U] {lexicon : Lexicon} {input : Content U}

/-- The run of the forward automaton over `input`, which is in `state` behind `trail`, ends with
the trail `final`. -/
inductive Reads (lexicon : Lexicon) (input : Content U) : Nat → Trail U → Trail U → Prop where
  | ended {state : Nat} {trail : Trail U}
      (stuck : ∀ unit, input.get? trail.length = some unit →
        lexicon.step? lexicon.forward state unit = none) : Reads lexicon input state trail trail
  | step {state next : Nat} {trail final : Trail U} {unit : U}
      (found : input.get? trail.length = some unit)
      (goes : lexicon.step? lexicon.forward state unit = some next)
      (rest : Reads lexicon input next ((unit, (lexicon.forward.code next).value) :: trail) final) :
      Reads lexicon input state trail final

namespace Reads

variable {start state : Nat} {trail final : Trail U}

theorem unique {other : Trail U} (reads : lexicon.Reads input state trail final)
    (second : lexicon.Reads input state trail other) : final = other := by
  induction reads with
  | ended stuck =>
    cases second with
    | ended => rfl
    | step found goes => cases (stuck _ found).symm.trans goes
  | step found goes _ ih =>
    cases second with
    | ended stuck => cases (stuck _ found).symm.trans goes
    | step seen went rest =>
      cases found.symm.trans seen
      cases goes.symm.trans went
      exact ih rest

/-- A run leaves the trail of what it read, and the next unit, if there is one, ends it. -/
theorem furthest (reads : lexicon.Reads input state trail final)
    (traced : lexicon.Traced start trail state) (read : trail.text = input.take trail.length) :
    final.text = input.take final.length ∧ ∃ last, lexicon.Traced start final last ∧
      ∀ unit, input.get? final.length = some unit →
        lexicon.step? lexicon.forward last unit = none := by
  induction reads with
  | ended stuck => exact ⟨read, _, traced, stuck⟩
  | @step state next trail final unit found goes _ ih =>
    refine ih (.step traced goes) ?_
    have whole : (input.take trail.length).length = trail.length := by
      rw [← read, Trail.length_text]
    have one : (input.drop trail.length).take 1 = [unit] := Content.take_one (by simpa using found)
    rw [Trail.text_cons, List.length_cons, Content.take_add _ _ whole, one, read]

/-- A run over an input that ends comes to an end. -/
theorem exists_of_terminates (units : List U) (state : Nat) (trail : Trail U) :
    ∃ final, lexicon.Reads (.ofList units) state trail final := by
  by_cases stuck : ∀ unit, (Stream'.Seq.ofList units).get? trail.length = some unit →
      lexicon.step? lexicon.forward state unit = none
  · exact ⟨trail, .ended stuck⟩
  · obtain ⟨unit, found, goes⟩ : ∃ unit, (Stream'.Seq.ofList units).get? trail.length = some unit ∧
        lexicon.step? lexicon.forward state unit ≠ none := by simpa using stuck
    obtain ⟨next, goes⟩ := Option.ne_none_iff_exists'.mp goes
    have inside : trail.length < units.length := by
      obtain ⟨inside, -⟩ := List.getElem?_eq_some_iff.mp (by simpa using found)
      exact inside
    obtain ⟨final, rest⟩ := exists_of_terminates units next
      ((unit, (lexicon.forward.code next).value) :: trail)
    exact ⟨final, .step found goes rest⟩
termination_by units.length - trail.length

end Reads

end Lexicon

namespace Scanner

section
variable {scanner : Scanner σ φ U ε}

/-- The table is checked, and the start condition is one of its own. -/
structure Ready (scanner : Scanner σ φ U ε) : Prop where
  checked : scanner.lexicon.Checked
  inForce : scanner.condition < scanner.lexicon.conditions

section
variable {other : Scanner τ φ U ε}

theorem Ready.congr (ready : scanner.Ready) (lexicon : other.bearing.lexicon = scanner.lexicon)
    (condition : other.bearing.condition = scanner.condition) : other.Ready := by
  change other.lexicon = scanner.lexicon at lexicon
  change other.condition = scanner.condition at condition
  exact ⟨lexicon ▸ ready.checked, by rw [lexicon, condition]; exact ready.inForce⟩

theorem Ready.of_bearing (ready : scanner.Ready) (bearing : other.bearing = scanner.bearing) :
    other.Ready :=
  ready.congr (by rw [bearing]; rfl) (by rw [bearing]; rfl)

end

variable [ScanUnit U] {input : Content U} {trail : Trail U}

/-- The state in which the forward automaton begins. -/
def start (scanner : Scanner σ φ U ε) : Nat :=
  (scanner.lexicon.forward.initial scanner.condition).value

/-- The forward run over `input`, under the start condition in force, ends with `trail`. -/
def Reaches (input : Content U) (scanner : Scanner σ φ U ε) (trail : Trail U) : Prop :=
  scanner.lexicon.Reads input scanner.start [] trail

omit [ScanUnit U] in
theorem start_congr {other : Scanner τ φ U ε} (bearing : other.bearing = scanner.bearing) :
    other.start = scanner.start := by
  obtain ⟨lexicon, -, -, -, -, -, condition, -⟩ := Bearing.mk.inj bearing
  rw [start, start, lexicon, condition]

theorem Reaches.of_bearing {other : Scanner τ φ U ε} (reaches : scanner.Reaches input trail)
    (bearing : other.bearing = scanner.bearing) : other.Reaches input trail := by
  have lexicon : other.lexicon = scanner.lexicon := congrArg Bearing.lexicon bearing
  rw [Reaches, start_congr bearing, lexicon]
  exact reaches

end

variable [ScanUnit U] [UnitSource σ U ε] {scanner : Scanner σ φ U ε} {input : Content U}
  {state : Nat} {trail final : Trail U}

theorem ready_openSource {source : σ} {file : Option String} (checked : scanner.lexicon.Checked) :
    (scanner.openSource source file).Ready := by
  have bearing := bearing_openSource scanner source file
  have lexicon : (scanner.openSource source file).lexicon = scanner.lexicon :=
    congrArg Bearing.lexicon bearing
  have condition : (scanner.openSource source file).condition = 0 :=
    congrArg Bearing.condition bearing
  exact ⟨lexicon ▸ checked, by rw [lexicon, condition]; exact checked.conditions_pos⟩

/-- What the forward run of a scanner comes to. -/
structure Ran (input : Content U) (scanner : Scanner σ φ U ε) (trail : Trail U)
    (after : Scanner σ φ U ε) : Prop extends LooksAhead input scanner after where
  reaches : scanner.Reaches input trail
  within : trail.length ≤ after.window.length

variable [LawfulUnitSource σ U ε]

theorem forwardFrom_sound (has : scanner.Has input) (checked : scanner.lexicon.Checked)
    (known : state < scanner.lexicon.forward.stateCount)
    (within : trail.length ≤ scanner.window.length) {fuel : Nat}
    {result : Except IoFault (Trail U) × Scanner σ φ U ε}
    (ran : scanner.forwardFrom fuel state trail.length trail = .ok result) :
    ∃ final after, result = (.ok final, after) ∧ scanner.lexicon.Reads input state trail final ∧
      LooksAhead input scanner after ∧ final.length ≤ after.window.length := by
  induction fuel generalizing scanner state trail with
  | zero => cases ran
  | succ fuel ih =>
    rw [forwardFrom, fillIf_bind] at ran
    obtain ⟨filled, read, ran⟩ := bind_eq_ok_iff.mp ran
    obtain ⟨more, after, rfl, looks, told, grows⟩ := fillIf_sound has within Iff.rfl read
    have same : after.lexicon = scanner.lexicon := congrArg Bearing.lexicon looks.bearing
    cases more with
    | false =>
      cases Except.ok.inj ran
      refine ⟨trail, after, rfl, .ended fun unit found => ?_, looks, within.trans looks.keeps⟩
      simp [found] at told
    | true =>
      obtain ⟨unit, found⟩ := Option.isSome_iff_exists.mp told.symm
      have inside := grows rfl
      have stands : after.window.unitAt trail.length = .ok unit :=
        Window.unitAt_eq ((looks.has.getElem?_units inside).trans found)
      simp only [stands, ok_bind, same, Lexicon.advance?_eq checked known] at ran
      cases goes : scanner.lexicon.step? scanner.lexicon.forward state unit with
      | none =>
        simp only [goes] at ran
        cases Except.ok.inj ran
        refine ⟨trail, after, rfl, .ended fun other seen => ?_, looks, Nat.le_of_lt inside⟩
        cases found.symm.trans seen
        exact goes
      | some next =>
        have below := Lexicon.step?_lt checked.forward checked known goes
        obtain ⟨code, coded, -⟩ := checked.forward.code_ok below
        simp only [goes, coded, ok_bind] at ran
        have longer : ((unit, code) :: trail).length ≤ after.window.length := inside
        obtain ⟨final, last, rfl, reads, further, short⟩ :=
          ih looks.has (same ▸ checked) (same ▸ below) longer ran
        refine ⟨final, last, rfl, .step found goes ?_, looks.trans further, short⟩
        rw [same] at reads
        simpa [coded, Run.value] using reads

theorem forwardFrom_ok (reads : scanner.lexicon.Reads input state trail final)
    (has : scanner.Has input) (checked : scanner.lexicon.Checked)
    (known : state < scanner.lexicon.forward.stateCount)
    (within : trail.length ≤ scanner.window.length) :
    ∃ fuel after, scanner.forwardFrom fuel state trail.length trail = .ok (.ok final, after) := by
  generalize fixed : scanner.lexicon = lexicon at reads checked known
  induction reads generalizing scanner with
  | @ended state trail stuck =>
    obtain ⟨fuel, more, after, read, looks, told, grows⟩ := fillIf_ok has within Iff.rfl
    have same : after.lexicon = lexicon := (congrArg Bearing.lexicon looks.bearing).trans fixed
    refine ⟨fuel + 1, after, ?_⟩
    rw [forwardFrom, fillIf_bind, read, ok_bind]
    cases more with
    | false => rfl
    | true =>
      obtain ⟨unit, found⟩ := Option.isSome_iff_exists.mp told.symm
      have stands : after.window.unitAt trail.length = .ok unit :=
        Window.unitAt_eq ((looks.has.getElem?_units (grows rfl)).trans found)
      simp [stands, same, Lexicon.advance?_eq checked known, stuck unit found]
  | @step state next trail final unit found goes _ ih =>
    obtain ⟨fuel, more, after, read, looks, told, grows⟩ := fillIf_ok has within Iff.rfl
    have same : after.lexicon = lexicon := (congrArg Bearing.lexicon looks.bearing).trans fixed
    have below := Lexicon.step?_lt checked.forward checked known goes
    obtain ⟨code, coded, -⟩ := checked.forward.code_ok below
    have goesOn : more = true := by simpa [found] using told
    have inside := grows goesOn
    have stands : after.window.unitAt trail.length = .ok unit :=
      Window.unitAt_eq ((looks.has.getElem?_units inside).trans found)
    obtain ⟨later, last, ran⟩ := ih looks.has inside same below
    refine ⟨max fuel later + 1, last, ?_⟩
    rw [forwardFrom, fillIf_bind, fillIf_mono read (Nat.le_max_left _ _), ok_bind, goesOn]
    simp only [stands, ok_bind, same, Lexicon.advance?_eq checked known, goes, coded]
    simp only [coded, Run.value] at ran
    exact forwardFrom_mono ran (Nat.le_max_right _ _)

section
variable (has : scanner.Has input) (ready : scanner.Ready)
include has ready

theorem forward_sound {fuel : Nat} {result : Except IoFault (Trail U) × Scanner σ φ U ε}
    (ran : scanner.forward fuel = .ok result) :
    ∃ trail after, result = (.ok trail, after) ∧ Ran input scanner trail after := by
  obtain ⟨initial, looked, known⟩ := ready.checked.forward.initial_ok ready.inForce
  simp only [forward, looked, ok_bind] at ran
  change scanner.forwardFrom fuel initial ([] : Trail U).length [] = .ok result at ran
  obtain ⟨trail, after, rfl, reads, looks, within⟩ :=
    forwardFrom_sound has ready.checked known (Nat.zero_le _) ran
  exact ⟨trail, after, rfl, looks, by simpa [Reaches, start, looked, Run.value] using reads, within⟩

theorem forward_ok (reaches : scanner.Reaches input trail) :
    ∃ fuel after, scanner.forward fuel = .ok (.ok trail, after) ∧
      Ran input scanner trail after := by
  obtain ⟨initial, looked, known⟩ := ready.checked.forward.initial_ok ready.inForce
  rw [Reaches, start, looked] at reaches
  obtain ⟨fuel, after, ran⟩ := forwardFrom_ok reaches has ready.checked known (Nat.zero_le _)
  replace ran : scanner.forward fuel = .ok (.ok trail, after) := by
    rw [forward, looked]
    exact ran
  obtain ⟨other, last, same, done⟩ := forward_sound has ready ran
  cases same
  exact ⟨fuel, after, ran, done⟩

end

end Scanner

end TableDriven
