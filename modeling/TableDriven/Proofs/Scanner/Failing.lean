import TableDriven.Proofs.Input.Fails
import TableDriven.Proofs.Scanner.History

/-! # Rounds in front of a failure

`Scanner.Lacks` says that a scanner has `units` in front of it behind which its source fails.  A
round of such a scanner either fails, and then the scanner is left without a source
(`Scanner.Broken`), or it decides by the units that there are (`Scanner.Decided`): the unit that
ends its forward run is one of them, so whatever stands behind them the run would be the same.
-/

namespace TableDriven

/-- Behind some of the units that an input begins with, the others come next. -/
theorem Content.take_drop {units : List U} {input : Content U} {count : Nat}
    (front : input.take units.length = units) (within : count ≤ units.length) :
    (input.drop count).take (units.drop count).length = units.drop count := by
  have enough : (input.take count).length = count := by
    rw [← Content.take_take within, front, List.length_take, Nat.min_eq_left within]
  have whole : input.take count ++ (input.drop count).take (units.drop count).length = units := by
    rw [← Content.take_add _ _ enough, List.length_drop, Nat.add_sub_cancel' within, front]
  have rest := congrArg (List.drop count) whole
  rwa [List.drop_left' enough] at rest

namespace Lexicon

variable [ScanUnit U] {lexicon : Lexicon}

/-- A run that ends before the units do does not depend on what stands behind them. -/
theorem Reads.extend {units : List U} {input : Content U} {state : Nat} {trail final : Trail U}
    (reads : lexicon.Reads (.ofList units) state trail final) (short : final.length < units.length)
    (front : input.take units.length = units) : lexicon.Reads input state trail final := by
  have same {index : Nat} (inside : index < units.length) :
      input.get? index = (Stream'.Seq.ofList units).get? index := by
    have there := congrArg (·[index]?) front
    rwa [Stream'.Seq.getElem?_take, if_pos inside, ← Stream'.Seq.ofList_get?] at there
  induction reads with
  | ended stuck => exact .ended fun unit found => stuck unit (same short ▸ found)
  | @step state next trail final unit found goes rest ih =>
    obtain ⟨inside, -⟩ := List.getElem?_eq_some_iff.mp (by simpa using found)
    exact .step (same inside ▸ found) goes (ih short)

end Lexicon

namespace Scanner

/-- The scanner has no source and nothing in its window, and it looks for no more. -/
structure Shut (scanner : Scanner σ φ U ε) : Prop where
  source : scanner.source = none
  isExhausted : scanner.isExhausted = true
  window : scanner.window.length = 0

/-- Where a failure leaves a scanner. -/
structure Broken (before after : Scanner σ φ U ε) : Prop extends after.Shut where
  bearing : after.bearing = before.bearing
  reports : after.reports = before.reports

variable {scanner : Scanner σ φ U ε} {units : List U}

theorem Holds.length_le (holds : scanner.Holds (.ofList units)) :
    scanner.window.length ≤ units.length := by
  have full := holds.length_take
  rw [Content.take_ofList, List.length_take] at full
  omega

variable [UnitSource σ U ε]

/-- The scanner has `units` in front of it, and behind those that are not in its window its source
fails. -/
structure Lacks (scanner : Scanner σ φ U ε) (units : List U) : Prop
    extends scanner.Holds (.ofList units) where
  goesOn : scanner.isExhausted = false
  opened : ∃ source, scanner.source = some source ∧
    UnitSource.Fails ε source (units.drop scanner.window.length)

/-- Between two states the scanner has read some of the units and done nothing else. -/
structure Gains (units : List U) (before after : Scanner σ φ U ε) : Prop where
  lacks : after.Lacks units
  keeps : before.window.length ≤ after.window.length
  bearing : after.bearing = before.bearing
  reports : after.reports = before.reports

theorem Gains.refl (lacks : scanner.Lacks units) : Gains units scanner scanner :=
  ⟨lacks, Nat.le_refl _, rfl, rfl⟩

theorem Gains.trans {middle after : Scanner σ φ U ε} (first : Gains units scanner middle)
    (second : Gains units middle after) : Gains units scanner after :=
  ⟨second.lacks, first.keeps.trans second.keeps, second.bearing.trans first.bearing,
    second.reports.trans first.reports⟩

theorem Gains.broken {middle after : Scanner σ φ U ε} (first : Gains units scanner middle)
    (second : middle.Broken after) : scanner.Broken after :=
  ⟨second.toShut, second.bearing.trans first.bearing, second.reports.trans first.reports⟩

variable [ScanUnit U]

/-- A source that was just opened lies ahead, whatever the scanner did before. -/
theorem lacks_openSource {source : σ} (scanner : Scanner σ φ U ε) (file : Option String)
    (fails : UnitSource.Fails ε source units) :
    (scanner.openSource source file).Lacks units where
  sound := Window.sound_reset _ _
  window := Window.units_reset _ _
  goesOn := rfl
  opened := ⟨source, rfl, fails⟩

/-! ## Reading more -/

omit [ScanUnit U] in
/-- What a failure does. -/
theorem broken_fail {source : σ} (opened : scanner.source = some source) (cause : IoFault) :
    scanner.Broken (scanner.fail cause) := by
  have left : (scanner.note (.failed cause)).source = some source := opened
  simp only [fail, close, left]
  refine ⟨⟨rfl, rfl, ?_⟩, rfl, ?_⟩
  · exact Nat.sub_self _
  · change (noteAll _ _).reports = _
    rw [reports_noteAll]
    change (scanner.note (.failed cause)).reports = _
    rw [reports_note]
    exact List.append_nil _

/-- What reading more input comes to: there are more units, or there are none left and it fails. -/
def Grows (units : List U) (before : Scanner σ φ U ε) (answer : Except IoFault Bool)
    (after : Scanner σ φ U ε) : Prop :=
  answer = .ok true ∧ Gains units before after ∧ before.window.length < after.window.length ∨
    ∃ cause, answer = .error cause ∧ before.window.length = units.length ∧ before.Broken after

omit [ScanUnit U] in
theorem Grows.from {before after : Scanner σ φ U ε} {answer : Except IoFault Bool}
    (grows : Grows units before answer after)
    (length : before.window.length = scanner.window.length)
    (bearing : before.bearing = scanner.bearing) (reports : before.reports = scanner.reports) :
    Grows units scanner answer after := by
  obtain ⟨more, gains, longer⟩ | ⟨cause, failed, all, broken⟩ := grows
  · exact .inl ⟨more, ⟨gains.lacks, length ▸ gains.keeps, gains.bearing.trans bearing,
      gains.reports.trans reports⟩, length ▸ longer⟩
  · exact .inr ⟨cause, failed, length ▸ all, broken.toShut, broken.bearing.trans bearing,
      broken.reports.trans reports⟩

variable [LawfulUnitSource σ U ε]

/-- A call of the source, and the calls for larger buffers if it is refused. -/
theorem fillMore_of_falters {room : Nat} {rest : List U} {delivery : Delivery σ U ε}
    (falters : UnitSource.Falters ε (UnitSource.Fails ε) rest room delivery) {source : σ}
    {fuel : Nat} (holds : scanner.Holds (.ofList units)) (goesOn : scanner.isExhausted = false)
    (free : 0 < scanner.window.free) (size : scanner.window.free = room)
    (behind : units.drop scanner.window.length = rest) (opened : scanner.source = some source)
    (filled : UnitSource.fill fuel source scanner.window.free = .ok delivery) :
    ∃ enough answer after, scanner.fillMore enough = .ok (answer, after) ∧
      Grows units scanner answer after := by
  have all (nothing : rest = []) : scanner.window.length = units.length :=
    Nat.le_antisymm holds.length_le (List.drop_eq_nil_iff.mp (behind.trans nothing))
  induction falters generalizing scanner source fuel with
  | @read room count delivery told some fits enough written fails =>
    subst size behind
    have front : delivery.written.take count =
        ((Stream'.Seq.ofList units).drop scanner.window.length).take count := by
      rw [Content.drop_ofList, Content.take_ofList, written]
    obtain ⟨more, last⟩ := holds.read fits enough front
    refine ⟨fuel + 1, .ok true, _, ?_, .inl ⟨rfl, ⟨⟨more, goesOn, delivery.rest, rfl, ?_⟩, ?_, rfl,
      reports_received _ _⟩, ?_⟩⟩
    · rw [fillMore_eq goesOn free opened filled, told]
      simp only [if_pos some, Nat.min_eq_left fits]
    · change UnitSource.Fails ε delivery.rest
        (units.drop ((scanner.received delivery).window.extend count).length)
      rwa [last, ← List.drop_drop]
    · change _ ≤ ((scanner.received delivery).window.extend count).length
      omega
    · change _ < ((scanner.received delivery).window.extend count).length
      omega
  | @failed room delivery cause told nothing =>
    have broken : (scanner.received delivery).Broken ((scanner.received delivery).fail cause) :=
      broken_fail rfl cause
    refine ⟨fuel + 1, _, _, ?_, .inr ⟨cause, rfl, all nothing, broken.toShut, broken.bearing,
      broken.reports.trans (reports_received _ _)⟩⟩
    rw [fillMore_eq goesOn free opened filled, told]
  | @insatiable room wanted delivery told large nothing =>
    subst size
    let cause := IoFault.refused wanted scanner.window.free
    have broken : (scanner.received delivery).Broken ((scanner.received delivery).fail cause) :=
      broken_fail rfl cause
    refine ⟨fuel + 1, .error cause, _, ?_, .inr ⟨cause, rfl, all nothing, broken.toShut,
      broken.bearing, broken.reports.trans (reports_received _ _)⟩⟩
    rw [fillMore_eq goesOn free opened filled, told]
    exact if_neg (Nat.not_lt.mpr large)
  | @refused room wanted delivery fuels next told small again _ ih =>
    subst size
    -- The next call has the room that this one asked for.
    have received := holds.received delivery
    have roomy := received.free_makeRoom wanted
    have length : ((scanner.received delivery).makeRoom wanted).window.length =
        scanner.window.length := length_makeRoom _ wanted
    obtain ⟨enough, answer, after, answered, grows⟩ := ih _ roomy.1
      (received.makeRoom wanted) (by rw [isExhausted_makeRoom]; exact goesOn) roomy.2 rfl
      (by rw [length, behind]) (by rw [source_makeRoom]; rfl) (again _ roomy.1)
      fun nothing => by rw [length]; exact all nothing
    refine ⟨max fuel enough + 1, answer, after, ?_, grows.from length ?_ ?_⟩
    · exact fillMore_of_refused goesOn free opened filled told small answered
    · rw [bearing_makeRoom]
      rfl
    · rw [reports_makeRoom, reports_received]

/-- Reading more input ends. -/
theorem fillMore_fails (lacks : scanner.Lacks units) :
    ∃ fuel answer after, scanner.fillMore fuel = .ok (answer, after) ∧
      Grows units scanner answer after := by
  obtain ⟨source, opened, fails⟩ := lacks.opened
  by_cases full : scanner.window.free = 0
  · have length := length_makeRoom scanner 1
    have free := (lacks.free_makeRoom 1).2
    obtain ⟨fuel, delivery, filled, falters⟩ := fails.fill_ok free
    obtain ⟨enough, answer, after, answered, grows⟩ := fillMore_of_falters falters
      (lacks.makeRoom 1) (by rw [isExhausted_makeRoom]; exact lacks.goesOn) free rfl
      (by rw [length]) (by rw [source_makeRoom]; exact opened) filled
    refine ⟨enough, answer, after, ?_, grows.from length (bearing_makeRoom _ 1)
      (reports_makeRoom _ 1)⟩
    rwa [lacks.toHolds.fillMore_makeRoom lacks.goesOn full] at answered
  · have free := Nat.pos_of_ne_zero full
    obtain ⟨fuel, delivery, filled, falters⟩ := fails.fill_ok free
    exact fillMore_of_falters falters lacks.toHolds lacks.goesOn free rfl rfl opened filled

/-- What reading up to a place comes to: it is reached, or all units are before it. -/
theorem fillIf_fails {short : Prop} [Decidable short] {length : Nat} (lacks : scanner.Lacks units)
    (within : length ≤ scanner.window.length) (need : short ↔ length = scanner.window.length) :
    ∃ fuel answer after,
      (if short then scanner.fillMore fuel else pure (.ok true, scanner)) = .ok (answer, after) ∧
      (answer = .ok true ∧ Gains units scanner after ∧ length < after.window.length ∨
        ∃ cause, answer = .error cause ∧ length = units.length ∧ scanner.Broken after) := by
  by_cases all : length = scanner.window.length
  · obtain ⟨fuel, answer, after, filled, grows⟩ := fillMore_fails lacks
    exact ⟨fuel, answer, after, by rw [if_pos (need.mpr all), filled], all ▸ grows⟩
  · have inside : length < scanner.window.length := by omega
    exact ⟨0, _, scanner, by rw [if_neg (mt need.mp all)]; rfl, .inl ⟨rfl, .refl lacks, inside⟩⟩

/-- What the forward run comes to: it ends at one of the units, or it fails. -/
def Runs (units : List U) (before : Scanner σ φ U ε) (state : Nat) (trail : Trail U)
    (answer : Except IoFault (Trail U)) (after : Scanner σ φ U ε) : Prop :=
  (∃ final, answer = .ok final ∧ before.lexicon.Reads (.ofList units) state trail final ∧
    final.length < units.length ∧ final.length < after.window.length ∧ Gains units before after) ∨
  ∃ cause, answer = .error cause ∧ before.Broken after

theorem forwardFrom_fails {scanner : Scanner σ φ U ε} {state : Nat} {trail : Trail U}
    (lacks : scanner.Lacks units)
    (checked : scanner.lexicon.Checked) (known : state < scanner.lexicon.forward.stateCount)
    (within : trail.length ≤ scanner.window.length) :
    ∃ fuel answer after, scanner.forwardFrom fuel state trail.length trail =
      .ok (answer, after) ∧ Runs units scanner state trail answer after := by
  obtain ⟨fuel, answer, filled, read, outcome⟩ := fillIf_fails lacks within Iff.rfl
  obtain ⟨rfl, gains, inside⟩ | ⟨cause, rfl, all, broken⟩ := outcome
  · have same : filled.lexicon = scanner.lexicon := congrArg Bearing.lexicon gains.bearing
    obtain ⟨unit, found⟩ := Option.isSome_iff_exists.mp (gains.lacks.isSome_get? inside)
    have stands : filled.window.unitAt trail.length = .ok unit :=
      Window.unitAt_eq ((gains.lacks.getElem?_units inside).trans found)
    have behind : trail.length < units.length := inside.trans_le gains.lacks.length_le
    cases goes : scanner.lexicon.step? scanner.lexicon.forward state unit with
    | none =>
      refine ⟨fuel + 1, .ok trail, filled, ?_,
        .inl ⟨trail, rfl, .ended fun other seen => ?_, behind, inside, gains⟩⟩
      · rw [forwardFrom, fillIf_bind, read]
        simp [stands, same, Lexicon.advance?_eq checked known, goes]
      · cases found.symm.trans seen
        exact goes
    | some next =>
      have below := Lexicon.step?_lt checked.forward checked known goes
      obtain ⟨code, coded, -⟩ := checked.forward.code_ok below
      have longer : ((unit, code) :: trail).length ≤ filled.window.length := inside
      obtain ⟨enough, answer, after, ran, outcome⟩ := forwardFrom_fails gains.lacks
        (same ▸ checked) (same ▸ below) longer
      refine ⟨max fuel enough + 1, answer, after, ?_, ?_⟩
      · rw [forwardFrom, fillIf_bind, fillIf_mono read (Nat.le_max_left _ _)]
        simp only [ok_bind, stands, same, Lexicon.advance?_eq checked known, goes, coded]
        exact forwardFrom_mono ran (Nat.le_max_right _ _)
      · obtain ⟨final, rfl, reads, short, last, further⟩ | ⟨cause, rfl, broken⟩ := outcome
        · have step : scanner.lexicon.Reads (.ofList units) state trail final :=
            .step found goes (by simpa [coded, Run.value, same] using reads)
          exact .inl ⟨final, rfl, step, short, last, gains.trans further⟩
        · exact .inr ⟨cause, rfl, gains.broken broken⟩
  · refine ⟨fuel + 1, .error cause, filled, ?_, .inr ⟨cause, rfl, broken⟩⟩
    rw [forwardFrom, fillIf_bind, read]
    rfl
termination_by units.length - trail.length
decreasing_by
  simp only [List.length_cons]
  omega

theorem forward_fails (lacks : scanner.Lacks units) (ready : scanner.Ready) :
    ∃ fuel answer after, scanner.forward fuel = .ok (answer, after) ∧
      Runs units scanner scanner.start [] answer after := by
  obtain ⟨initial, looked, known⟩ := ready.checked.forward.initial_ok ready.inForce
  have within : ([] : Trail U).length ≤ scanner.window.length := Nat.zero_le _
  obtain ⟨fuel, answer, after, ran, outcome⟩ := forwardFrom_fails lacks ready.checked known within
  refine ⟨fuel, answer, after, ?_, ?_⟩
  · rw [forward, looked]
    exact ran
  · rwa [start, looked]

omit [LawfulUnitSource σ U ε] in
/-- Consuming some of the units leaves the others. -/
theorem Lacks.spend {after : Scanner σ φ U ε} {choice : Option (Choice V)}
    (lacks : scanner.Lacks units) (within : consumed choice ≤ scanner.window.length)
    (spent : Spent ((Stream'.Seq.ofList units).take (consumed choice)) scanner choice after) :
    after.Lacks (units.drop (consumed choice)) := by
  obtain ⟨holds, length⟩ := lacks.drop within spent.window
  obtain ⟨source, opened, fails⟩ := lacks.opened
  refine ⟨by rwa [Content.drop_ofList] at holds, spent.isExhausted.trans lacks.goesOn, source,
    spent.source.trans opened, ?_⟩
  rwa [List.drop_drop, Nat.add_comm, length]

variable [TokenFactory φ U V ε] {count : Nat} {events : List (Event U V)} {piece : Piece U V}
  {after : Scanner σ φ U ε}

/-- What a round does that decides by the units in front of it and consumes some of them. -/
inductive Decided (units : List U) (scanner : Scanner σ φ U ε) :
    Nat → List (Event U V) → Piece U V → Scanner σ φ U ε → Prop where
  | piece {looked ruled after : Scanner σ φ U ε} {trail : Trail U} {tried : List (Event U V)}
      {choice : Option (Choice V)} (reaches : scanner.Reaches (.ofList units) trail)
      (short : trail.length < units.length) (gains : Gains units scanner looked)
      (within : trail.length ≤ looked.window.length)
      (tries : Tries (scanner.lexicon.attempts trail) looked tried choice ruled)
      (some : 1 ≤ consumed choice) (full : consumed choice ≤ units.length)
      (lacks : after.Lacks (units.drop (consumed choice)))
      (spent : Spent ((Stream'.Seq.ofList units).take (consumed choice)) ruled choice after) :
      Decided units scanner (consumed choice)
        (tried ++ [ruled.bearing.event
          (ruled.bearing.piece ((Stream'.Seq.ofList units).take (consumed choice)) choice)])
        (ruled.bearing.piece ((Stream'.Seq.ofList units).take (consumed choice)) choice) after

omit [LawfulUnitSource σ U ε] in
/-- What was tried leaves the units in front of the scanner, and what was chosen fits them. -/
theorem Lacks.of_tries {looked ruled : Scanner σ φ U ε} {trail : Trail U}
    {tried : List (Event U V)} {choice : Option (Choice V)} (lacks : looked.Lacks units)
    (ready : looked.Ready) (reaches : looked.Reaches (.ofList units) trail)
    (inside : trail.length < looked.window.length)
    (tries : Tries (looked.lexicon.attempts trail) looked tried choice ruled) :
    ruled.Lacks units ∧ 1 ≤ consumed choice ∧ consumed choice ≤ ruled.window.length := by
  have frame := tries.frame.1
  have window : ruled.window = looked.window := by rw [frame]
  have source : ruled.source = looked.source := by rw [frame]
  have isExhausted : ruled.isExhausted = looked.isExhausted := by rw [frame]
  refine ⟨⟨⟨window ▸ lacks.sound, window ▸ lacks.window⟩, isExhausted.trans lacks.goesOn,
    by rw [window, source]; exact lacks.opened⟩, ?_⟩
  rw [window]
  cases choice with
  | none => exact ⟨Nat.le_refl 1, Nat.zero_lt_of_lt inside⟩
  | some choice =>
    have fits := tries.length_ok ready ready.start_lt reaches.along choice rfl
    exact ⟨fits.1, fits.2.trans (Nat.le_of_lt inside)⟩

/-- A round fails, or it decides by the units in front of the scanner. -/
theorem round_fails (lacks : scanner.Lacks units) (ready : scanner.Ready) :
    ∃ fuel, (∃ (cause : IoFault) (broken : Scanner σ φ U ε),
        scanner.round fuel = .ok (.error cause, broken) ∧ scanner.Broken broken) ∨
      ∃ (count : Nat) (events : List (Event U V)) (piece : Piece U V) (after : Scanner σ φ U ε),
        scanner.round fuel = .ok (.ok piece, after) ∧ scanner.Scans events piece after ∧
        Decided units scanner count events piece after := by
  obtain ⟨fuel, answer, filled, read, outcome⟩ :=
    fillIf_fails lacks (Nat.zero_le _) (eq_comm (a := scanner.window.length) (b := 0))
  obtain ⟨rfl, gains, some⟩ | ⟨cause, rfl, -, broken⟩ := outcome
  · have still := ready.of_bearing gains.bearing
    obtain ⟨enough, answer, looked, forward, outcome⟩ := forward_fails gains.lacks still
    have filledMore := fillIf_mono read (Nat.le_max_left fuel enough)
    have ran := forward_mono forward (Nat.le_max_right fuel enough)
    refine ⟨max fuel enough, ?_⟩
    obtain ⟨trail, rfl, reads, short, inside, more⟩ | ⟨cause, rfl, broken⟩ := outcome
    · have readyStill := still.of_bearing more.bearing
      have reaches : filled.Reaches (.ofList units) trail := reads
      have reached := reaches.of_bearing more.bearing
      obtain ⟨state, traced⟩ := reached.traced
      obtain ⟨tried, choice, ruled, selected, tries⟩ :=
        select_ok (V := V) readyStill traced readyStill.start_lt
      obtain ⟨ruledLacks, one, fits⟩ := more.lacks.of_tries readyStill reached inside tries
      have nonempty : 0 < ruled.window.length := Nat.lt_of_lt_of_le one fits
      obtain ⟨after, settled, spent⟩ := settle_spent (V := V) ruledLacks.toHolds nonempty fits
      have lexicon : looked.lexicon = scanner.lexicon :=
        congrArg Bearing.lexicon (more.bearing.trans gains.bearing)
      refine .inr ⟨_, _, _, after, ?_, .piece filledMore ran tries settled,
        .piece (reaches.of_bearing gains.bearing.symm) short (gains.trans more)
          (Nat.le_of_lt inside) (lexicon ▸ tries) one (fits.trans ruledLacks.length_le)
          (ruledLacks.spend fits spent) spent⟩
      rw [round, fillIf_bind, filledMore]
      simp only [ok_bind, ran, selected, settled]
      rfl
    · refine .inl ⟨cause, looked, ?_, gains.broken broken⟩
      rw [round, fillIf_bind, filledMore]
      simp only [ok_bind, ran]
      rfl
  · refine ⟨fuel, .inl ⟨cause, filled, ?_, broken⟩⟩
    rw [round, fillIf_bind, read]
    rfl

omit [LawfulUnitSource σ U ε] in
/-- Some units are consumed, and the others are still in front of the failure. -/
theorem Decided.rest (decided : Decided units scanner count events piece after) :
    1 ≤ count ∧ count ≤ units.length ∧ after.Lacks (units.drop count) := by
  cases decided with
  | piece _ _ _ _ _ some full lacks => exact ⟨some, full, lacks⟩

omit [LawfulUnitSource σ U ε] in
theorem Decided.ready (decided : Decided units scanner count events piece after)
    (ready : scanner.Ready) : after.Ready := by
  cases decided with
  | piece _ _ gains _ tries _ _ _ spent =>
    have still := tries.ready (ready.of_bearing gains.bearing)
    exact still.congr (by rw [spent.bearing]; rfl) (by rw [spent.bearing]; rfl)

omit [LawfulUnitSource σ U ε] in
theorem Decided.eofSymbol_eq (decided : Decided units scanner count events piece after) :
    after.eofSymbol = scanner.eofSymbol := by
  cases decided with
  | @piece looked ruled _ _ _ _ _ _ gains _ tries _ _ _ spent =>
    have spending : after.eofSymbol = ruled.eofSymbol := congrArg Bearing.eofSymbol spent.bearing
    have looking : looked.eofSymbol = scanner.eofSymbol := congrArg Bearing.eofSymbol gains.bearing
    rw [spending, tries.frame.1, looking]

omit [LawfulUnitSource σ U ε] in
theorem Decided.reports_eq (decided : Decided units scanner count events piece after) :
    after.reports = scanner.reports ++ Event.reports events := by
  cases decided with
  | piece _ _ gains _ tries _ _ _ spent =>
    rw [spent.reports, tries.frame.2, gains.reports, Event.reports_append, tries.reports_eq,
      Event.reports_singleton, List.nil_append]

omit [LawfulUnitSource σ U ε] in
/-- Without an error, whatever stands behind the units, the round does the same. -/
theorem Decided.follows {τ : Type} [UnitSource τ U ε] [LawfulUnitSource τ U ε]
    {clean : Scanner τ φ U ε} {input : Content U}
    (decided : Decided units scanner count events piece after) (ready : scanner.Ready)
    (has : clean.Has input) (bearing : clean.bearing = scanner.bearing)
    (front : input.take units.length = units) :
    ∃ next, clean.Scans events piece next ∧ next.Has (input.drop count) ∧
      next.bearing = after.bearing := by
  have readyToo := ready.of_bearing bearing
  cases decided with
  | @piece looked ruled after trail tried choice reaches short gains within tries some full lacks
      spent =>
    have reachesToo : clean.Reaches input trail := by
      have lexicon : clean.lexicon = scanner.lexicon := congrArg Bearing.lexicon bearing
      rw [Reaches, start_congr bearing, lexicon]
      exact reaches.extend short front
    obtain ⟨fuel, others, other, next, -, scans⟩ := round_ok has readyToo reachesToo
    have taken {count : Nat} (inside : count ≤ units.length) :
        input.take count = (Stream'.Seq.ofList units).take count := by
      rw [← Content.take_take inside, front, Content.take_ofList]
    cases scans.resolved has readyToo with
    | ended nothing =>
      obtain ⟨unit, found⟩ := Content.length_take front rfl (some.trans full)
      cases nothing.symm.trans found
    | @piece lookedToo ruledToo next _ triedToo choiceToo _ again looksToo withinToo triesToo _ _ _
        settled =>
      obtain rfl := Lexicon.Reads.unique reachesToo again
      have lexicon : looked.lexicon = scanner.lexicon := congrArg Bearing.lexicon gains.bearing
      have common : clean.lexicon = scanner.lexicon := congrArg Bearing.lexicon bearing
      rw [← lexicon] at tries
      rw [common, ← lexicon] at triesToo
      have still := ready.of_bearing gains.bearing
      obtain ⟨rfl, rfl, ruledAlike⟩ := tries.alike triesToo still still.start_lt
        (reaches.of_bearing gains.bearing).along
        (gains.bearing.trans (bearing.symm.trans looksToo.bearing.symm)) fun length less => by
          rw [gains.lacks.front_eq (less.trans within),
            looksToo.has.front_eq (less.trans withinToo), taken (less.trans (Nat.le_of_lt short))]
      rw [taken full] at scans
      refine ⟨next, by rw [ruledAlike]; exact scans, settled.has, ?_⟩
      rw [settled.bearing, spent.bearing, ruledAlike, taken full]

end Scanner

end TableDriven
