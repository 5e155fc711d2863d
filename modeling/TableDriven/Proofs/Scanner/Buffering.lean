import TableDriven.Proofs.Scanner.Tiling

/-! # Buffering is invisible

Two scanners that decide alike and have the same input in front of them do the same, in whatever
chunks their sources deliver it and whatever their buffers are like: a round sees the input only,
never the window (`Resolved.alike`), and it ends for one scanner if it does for the other
(`Pulls.transfer`).  What a scanner did before it opened its source is forgotten by then.
-/

namespace TableDriven.Scanner

variable [ScanUnit U] [UnitSource σ U ε] [UnitSource τ U ε] [TokenFactory φ U V ε]
  {scanner after : Scanner σ φ U ε} {other last : Scanner τ φ U ε} {input : Content U}
  {events found : List (Event U V)} {piece another : Piece U V}

/-- Two scanners that decide alike and have the same input in front of them. -/
structure Abreast (input : Content U) (scanner : Scanner σ φ U ε) (other : Scanner τ φ U ε) :
    Prop where
  first : scanner.Has input
  second : other.Has input
  ready : scanner.Ready
  bearing : scanner.bearing = other.bearing

theorem Resolved.alike (resolved : Resolved input scanner events piece after)
    (second : Resolved input other found another last) (ready : scanner.Ready)
    (bearing : scanner.bearing = other.bearing) :
    events = found ∧ piece = another ∧ ∃ count, Abreast (input.drop count) after last := by
  have still := (resolved.goesOn ready).1
  cases resolved with
  | ended nothing has turned =>
    cases second with
    | piece something => simp [nothing] at something
    | ended _ hasToo turnedToo =>
      exact ⟨by rw [bearing], by rw [bearing], 0, has, hasToo, still,
        by rw [turned, turnedToo, bearing]⟩
  | @piece looked ruled after trail tried choice something reaches looks within tries _ _ _
      settled =>
    cases second with
    | ended nothing => simp [nothing] at something
    | piece _ reachesToo looksToo withinToo triesToo _ _ _ settledToo =>
      cases Lexicon.Reads.unique reaches (reachesToo.of_bearing bearing)
      have lexicon : looked.lexicon = scanner.lexicon := congrArg Bearing.lexicon looks.bearing
      have common : other.lexicon = scanner.lexicon := congrArg Bearing.lexicon bearing.symm
      rw [← lexicon] at tries
      rw [common, ← lexicon] at triesToo
      have readyToo := ready.of_bearing looks.bearing
      obtain ⟨rfl, rfl, ruledAlike⟩ := tries.alike triesToo readyToo readyToo.start_lt
        (reaches.of_bearing looks.bearing).along
        (looks.bearing.trans (bearing.trans looksToo.bearing.symm)) fun length short => by
          rw [looks.has.front_eq (short.trans within),
        looksToo.has.front_eq (short.trans withinToo)]
      exact ⟨by rw [ruledAlike], by rw [ruledAlike], _, settled.has, settledToo.has, still,
        by rw [settled.bearing, settledToo.bearing, ruledAlike]⟩

omit [UnitSource τ U ε] in
/-- The forward run of a round that ended, ends. -/
theorem Resolved.reaches (resolved : Resolved input scanner events piece after) :
    ∃ trail, scanner.Reaches input trail := by
  cases resolved with
  | ended nothing => exact ⟨[], .ended fun unit found => by cases nothing.symm.trans found⟩
  | piece _ reaches => exact ⟨_, reaches⟩

variable [LawfulUnitSource σ U ε] [LawfulUnitSource τ U ε] {token : Token V}
  {tokens others : List (Token V)}

/-- A round of one scanner is a round of the other. -/
theorem Scans.transfer (scans : scanner.Scans events piece after)
    (abreast : Abreast input scanner other) :
    ∃ fuel last, other.round fuel = .ok (.ok piece, last) ∧ other.Scans events piece last ∧
      ∃ count, Abreast (input.drop count) after last := by
  have resolved := scans.resolved abreast.first abreast.ready
  obtain ⟨trail, reaches⟩ := resolved.reaches
  have ready := abreast.ready.of_bearing abreast.bearing.symm
  obtain ⟨fuel, found, another, last, rounded, scansToo⟩ :=
    round_ok abreast.second ready (reaches.of_bearing abreast.bearing.symm)
  obtain ⟨rfl, rfl, rest⟩ :=
    resolved.alike (scansToo.resolved abreast.second ready) abreast.ready abreast.bearing
  exact ⟨fuel, last, rounded, scansToo, rest⟩

/-- A call of one scanner is a call of the other. -/
theorem Pulls.transfer (pulls : scanner.Pulls events token after)
    (abreast : Abreast input scanner other) :
    ∃ fuel last, other.next fuel = .ok (.ok token, last) ∧ other.Pulls events token last ∧
      ∃ count, Abreast (input.drop count) after last := by
  induction pulls generalizing input other with
  | last scans ends =>
    obtain ⟨fuel, last, rounded, scansToo, rest⟩ := scans.transfer abreast
    exact ⟨_, last, next_of_round rounded ends, .last scansToo ends, rest⟩
  | further scans silent _ ih =>
    obtain ⟨fuel, middle, rounded, scansToo, count, rest⟩ := scans.transfer abreast
    obtain ⟨enough, last, answered, pulls, more, behind⟩ := ih rest
    exact ⟨_, last, next_of_silent rounded silent answered, .further scansToo silent pulls,
      count + more, Content.drop_drop count more ▸ behind⟩

theorem Calls.transfer (calls : scanner.Calls tokens events after)
    (abreast : Abreast input scanner other) : ∃ last, other.Calls tokens events last := by
  induction calls generalizing input other with
  | done => exact ⟨other, .done⟩
  | call _ pulls _ ih =>
    obtain ⟨fuel, middle, answered, pulls, count, rest⟩ := pulls.transfer abreast
    obtain ⟨last, calls⟩ := ih rest
    exact ⟨last, .call answered pulls calls⟩

theorem Scans.alike (scans : scanner.Scans events piece after)
    (second : other.Scans found another last)
    (abreast : Abreast input scanner other) :
    events = found ∧ piece = another ∧ ∃ count, Abreast (input.drop count) after last :=
  (scans.resolved abreast.first abreast.ready).alike
    (second.resolved abreast.second (abreast.ready.of_bearing abreast.bearing.symm))
    abreast.ready abreast.bearing

/-- Two scanners do the same on the way to their next tokens, which are the same. -/
theorem Pulls.alike {token another : Token V} (pulls : scanner.Pulls events token after)
    (second : other.Pulls found another last) (abreast : Abreast input scanner other) :
    events = found ∧ token = another ∧ ∃ count, Abreast (input.drop count) after last := by
  induction pulls generalizing input other found with
  | last scans ends =>
    cases second with
    | last scansToo endsToo =>
      obtain ⟨rfl, rfl, rest⟩ := scans.alike scansToo abreast
      cases ends.symm.trans endsToo
      exact ⟨rfl, rfl, rest⟩
    | further scansToo silentToo =>
      obtain ⟨-, rfl, -⟩ := scans.alike scansToo abreast
      cases ends.symm.trans silentToo
  | further scans silent _ ih =>
    cases second with
    | last scansToo endsToo =>
      obtain ⟨-, rfl, -⟩ := scans.alike scansToo abreast
      cases silent.symm.trans endsToo
    | further scansToo _ second =>
      obtain ⟨rfl, rfl, count, rest⟩ := scans.alike scansToo abreast
      obtain ⟨rfl, rfl, more, behind⟩ := ih second rest
      exact ⟨rfl, rfl, count + more, Content.drop_drop count more ▸ behind⟩

theorem Calls.alike (calls : scanner.Calls tokens events after)
    (second : other.Calls others found last) (abreast : Abreast input scanner other)
    (length : tokens.length = others.length) : tokens = others ∧ events = found := by
  induction calls generalizing input other others found with
  | done =>
    cases second with
    | done => exact ⟨rfl, rfl⟩
    | call => cases length
  | call _ pulls _ ih =>
    cases second with
    | done => cases length
    | call _ pullsToo second =>
      obtain ⟨rfl, rfl, count, rest⟩ := pulls.alike pullsToo abreast
      obtain ⟨rfl, rfl⟩ := ih second rest (Nat.succ.inj length)
      exact ⟨rfl, rfl⟩

/-- Two scanners with the same table, settings and factories that open sources of the same input do
the same from then on: for each series of calls of one there is one of the other, and series of the
same length yield the same tokens, offers, pieces and reports.  If the input ends, there are series
of every length. -/
theorem calls_eq_of_same_input {first : Scanner σ φ U ε} {second : Scanner τ φ U ε} {source : σ}
    {origin : τ} (file : Option String) (accepted : first.lexicon.check = .ok ())
    (lexicon : first.lexicon = second.lexicon) (eofSymbol : first.eofSymbol = second.eofSymbol)
    (tabWidth : first.tabWidth = second.tabWidth) (factories : first.factories = second.factories)
    (delivers : UnitSource.Delivers ε source input)
    (deliversToo : UnitSource.Delivers ε origin input) :
    (∀ tokens events,
      (∃ last, (first.openSource source file).Calls tokens events last) ↔
        ∃ last, (second.openSource origin file).Calls tokens events last) ∧
    (∀ tokens events last others found final,
      (first.openSource source file).Calls tokens events last →
      (second.openSource origin file).Calls others found final →
      tokens.length = others.length →
      tokens = others ∧ events = found ∧
      last.reports = (first.openSource source file).reports ++ Event.reports events ∧
      final.reports = (second.openSource origin file).reports ++ Event.reports events) ∧
    ∀ units, input = .ofList units → ∀ count, ∃ tokens events last,
      (first.openSource source file).Calls tokens events last ∧ tokens.length = count := by
  have bearing :
      (first.openSource source file).bearing = (second.openSource origin file).bearing := by
    rw [bearing_openSource, bearing_openSource]
    simp only [Scanner.bearing, lexicon, eofSymbol, tabWidth, factories]
  have checked := Lexicon.check_eq_ok_iff.mp accepted
  have abreast : Abreast input (first.openSource source file) (second.openSource origin file) :=
    ⟨has_openSource first file delivers, has_openSource second file deliversToo,
      ready_openSource checked, bearing⟩
  have swapped : Abreast input (second.openSource origin file) (first.openSource source file) :=
    ⟨abreast.second, abreast.first, abreast.ready.of_bearing bearing.symm, bearing.symm⟩
  refine ⟨fun tokens events => ⟨fun calls => ?_, fun calls => ?_⟩,
    fun tokens events last others found final calls second length => ?_,
    fun units same count => calls_ok units (same ▸ abreast.first) abreast.ready count⟩
  · obtain ⟨last, calls⟩ := calls
    exact calls.transfer abreast
  · obtain ⟨last, calls⟩ := calls
    exact calls.transfer swapped
  · obtain ⟨rfl, rfl⟩ := calls.alike second abreast length
    exact ⟨rfl, rfl, (calls.tiled abreast.first abreast.ready).reports,
      (second.tiled abreast.second swapped.ready).reports⟩

/-- The same with another buffer, before it opens anything. -/
def fresh : Scanner (Script UInt8) Calculator.Spelling UInt8 Empty :=
  (create lookahead 9 5000 8).setFactory 0 .blank

theorem calls_eq_of_same_input_looking :
    looking.lexicon.check = .ok () ∧ looking.factories = fresh.factories ∧
    UnitSource.Delivers Empty (Script.ofSteps [.read [(1 : UInt8), 9], .line [1, 2, 10]])
      (.ofList [1, 9, 1, 2, 10]) ∧
    UnitSource.Delivers Empty (Script.ofSteps [.line [(1 : UInt8), 9, 1], .read [2, 10]])
      (.ofList [1, 9, 1, 2, 10]) ∧
    ∀ count, ∃ tokens events last final,
      (looking.openSource (.ofSteps [.read [1, 9], .line [1, 2, 10]]) none).Calls tokens events
        last ∧
      (fresh.openSource (.ofSteps [.line [1, 9, 1], .read [2, 10]]) none).Calls tokens events
        final ∧
      tokens.length = count := by
  have accepted : looking.lexicon.check = .ok () := by decide +kernel
  have factories : looking.factories = fresh.factories := by decide +kernel
  have delivers : UnitSource.Delivers Empty
      (Script.ofSteps [.read [(1 : UInt8), 9], .line [1, 2, 10]]) (.ofList [1, 9, 1, 2, 10]) :=
    Script.delivers (by decide)
  have deliversToo : UnitSource.Delivers Empty
      (Script.ofSteps [.line [(1 : UInt8), 9, 1], .read [2, 10]]) (.ofList [1, 9, 1, 2, 10]) :=
    Script.delivers (by decide)
  have lexicon : looking.lexicon = fresh.lexicon := rfl
  obtain ⟨same, -, answers⟩ := calls_eq_of_same_input none accepted lexicon rfl rfl factories
    delivers deliversToo
  refine ⟨accepted, factories, delivers, deliversToo, fun count => ?_⟩
  obtain ⟨tokens, events, last, calls, length⟩ := answers _ rfl count
  obtain ⟨final, callsToo⟩ := (same tokens events).mp ⟨last, calls⟩
  exact ⟨tokens, events, last, final, calls, callsToo, length⟩

end TableDriven.Scanner
