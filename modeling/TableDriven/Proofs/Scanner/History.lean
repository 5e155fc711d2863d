import TableDriven.Proofs.Scanner.Choose

/-! # What a scanner does

`Scans` says what a round can do, `Pulls` what a call for the next token can, and `Calls` strings
such calls together.  They are made of calls of the program; `round_sound` and `next_sound` read
them off it.  What a round does to a scanner that has an input in front of it is `Resolved`: the
same, without the window.
-/

namespace TableDriven.Scanner

variable [ScanUnit U]

section
variable (bearing : Bearing φ)

/-- The piece that a choice makes of the text that it consumes. -/
def Bearing.piece (text : List U) : Option (Choice V) → Piece U V
  | some (.token _ number value) => .token text ⟨number, value, bearing.file, bearing.position⟩
  | some (.discard _) => .discarded text
  | none => .unmatched (text.headD ScanUnit.blank)

/-- The token that ends the stream. -/
def Bearing.eof : Token V := ⟨bearing.eofSymbol, none, bearing.file, bearing.position⟩

/-- The event that a piece is consumed. -/
def Bearing.event : Piece U V → Event U V
  | .token text token => .delivered text token
  | .discarded text => .discarded text bearing.position
  | .unmatched unit => .unmatched unit bearing.position
  | .eof token => .ended token !bearing.isEofReported

/-- The bearing behind some text. -/
def Bearing.behind (text : List U) : Bearing φ :=
  { bearing with
    position := text.foldl (Position.after (max bearing.tabWidth 1)) bearing.position }

end

/-- How many units are consumed; one that begins no token is skipped. -/
def consumed : Option (Choice V) → Nat
  | some choice => choice.length
  | none => 1

variable [UnitSource σ U ε] {scanner after : Scanner σ φ U ε} {input : Content U}
  {choice : Option (Choice V)}

/-- What consuming a choice does to a scanner that has `text` in front of it. -/
structure Spent (text : List U) (before : Scanner σ φ U ε) (choice : Option (Choice V))
    (after : Scanner σ φ U ε) : Prop where
  window : after.window = before.window.drop (consumed choice)
  source : after.source = before.source
  isExhausted : after.isExhausted = before.isExhausted
  bearing : after.bearing = before.bearing.behind text
  reports : after.reports = before.reports ++
    (Event.report? (before.bearing.event (before.bearing.piece text choice))).toList

omit [UnitSource σ U ε] in
theorem settle_spent (holds : scanner.Holds input) (some : 0 < scanner.window.length)
    (within : consumed choice ≤ scanner.window.length) :
    ∃ after, scanner.settle choice =
        .ok (scanner.bearing.piece (input.take (consumed choice)) choice, after) ∧
      Spent (input.take (consumed choice)) scanner choice after := by
  have front := holds.front_eq within
  cases choice with
  | none =>
    obtain ⟨unit, first⟩ := Option.isSome_iff_exists.mp (holds.isSome_get? some)
    have stands : scanner.window.unitAt 0 = .ok unit :=
      Window.unitAt_eq ((holds.getElem?_units some).trans first)
    have one := Content.take_one first
    refine ⟨_, by rw [settle, stands]; simp only [consumed, one]; rfl, ?_⟩
    refine ⟨rfl, rfl, rfl, ?_, ?_⟩
    · rw [← front]
      rfl
    · simp only [consumed, one]
      exact reports_note scanner _
  | some choice =>
    cases choice with
    | token length number value =>
      refine ⟨_, by rw [← front]; rfl, ?_⟩
      refine ⟨rfl, rfl, rfl, ?_, ?_⟩
      · rw [← front]
        rfl
      · rw [reports_note]
        rfl
    | discard length =>
      refine ⟨_, by rw [← front]; rfl, ?_⟩
      refine ⟨rfl, rfl, rfl, ?_, ?_⟩
      · rw [← front]
        rfl
      · exact (List.append_nil _).symm

/-- What consuming a choice comes to. -/
structure Settled (input : Content U) (before : Scanner σ φ U ε) (choice : Option (Choice V))
    (after : Scanner σ φ U ε) : Prop where
  has : after.Has (input.drop (consumed choice))
  bearing : after.bearing = before.bearing.behind (input.take (consumed choice))
  reports : after.reports = before.reports ++ (Event.report?
    (before.bearing.event (before.bearing.piece (input.take (consumed choice)) choice))).toList

theorem settle_ok (has : scanner.Has input) (some : 0 < scanner.window.length)
    (within : consumed choice ≤ scanner.window.length) :
    ∃ after, scanner.settle choice =
        .ok (scanner.bearing.piece (input.take (consumed choice)) choice, after) ∧
      Settled input scanner choice after := by
  obtain ⟨after, settled, spent⟩ := settle_spent has.toHolds some within
  exact ⟨after, settled, (has.consume within).congr spent.window spent.source spent.isExhausted,
    spent.bearing, spent.reports⟩

section
variable (scanner : Scanner σ φ U ε)

omit [ScanUnit U] [UnitSource σ U ε] in
@[simp] theorem finish_fst : (scanner.finish (V := V)).1 = scanner.bearing.eof := by
  simp only [finish]
  split <;> rfl

omit [ScanUnit U] [UnitSource σ U ε] in
theorem bearing_finish :
    (scanner.finish (V := V)).2.bearing = { scanner.bearing with isEofReported := true } := by
  simp only [finish]
  split
  next reported => simp [Scanner.bearing, reported]
  next => rfl

omit [ScanUnit U] [UnitSource σ U ε] in
theorem reports_finish : (scanner.finish (V := V)).2.reports = scanner.reports ++
    (Event.report? (scanner.bearing.event (V := V) (.eof scanner.bearing.eof))).toList := by
  simp only [finish, Bearing.event, Event.report?]
  split
  next reported => simp [Scanner.bearing, reported]
  next silent =>
    rw [reports_note]
    simp [Scanner.bearing, silent, Notice.report?, Bearing.eof, Scanner.reports]

omit [ScanUnit U] in
theorem has_finish (has : scanner.Has input) : (scanner.finish (V := V)).2.Has input := by
  simp only [finish]
  split
  next => exact has
  next => exact has.congr rfl rfl rfl

end

/-! ## Rounds -/

variable [TokenFactory φ U V ε] {piece : Piece U V} {events : List (Event U V)}

/-- What a round can do. -/
inductive Scans (scanner : Scanner σ φ U ε) :
    List (Event U V) → Piece U V → Scanner σ φ U ε → Prop where
  | ended {fuel : Nat} {filled : Scanner σ φ U ε}
      (read : (if scanner.window.length = 0 then scanner.fillMore fuel
        else pure (.ok true, scanner)) = .ok (.ok false, filled)) :
      Scans scanner [filled.bearing.event (.eof filled.finish.1)] (.eof filled.finish.1)
        (filled.finish (V := V)).2
  | piece {fuel : Nat} {filled looked ruled after : Scanner σ φ U ε} {trail : Trail U}
      {tried : List (Event U V)} {choice : Option (Choice V)} {piece : Piece U V}
      (read : (if scanner.window.length = 0 then scanner.fillMore fuel
        else pure (.ok true, scanner)) = .ok (.ok true, filled))
      (ran : filled.forward fuel = .ok (.ok trail, looked))
      (tries : Tries (looked.lexicon.attempts trail) looked tried choice ruled)
      (settled : ruled.settle choice = .ok (piece, after)) :
      Scans scanner (tried ++ [ruled.bearing.event piece]) piece after

/-- What a round does to a scanner that has `input` in front of it. -/
inductive Resolved (input : Content U) (scanner : Scanner σ φ U ε) :
    List (Event U V) → Piece U V → Scanner σ φ U ε → Prop where
  | ended {after : Scanner σ φ U ε} (nothing : input.get? 0 = none) (has : after.Has input)
      (bearing : after.bearing = { scanner.bearing with isEofReported := true })
      (reports : after.reports = scanner.reports ++
        (Event.report? (scanner.bearing.event (V := V) (.eof scanner.bearing.eof))).toList) :
      Resolved input scanner [scanner.bearing.event (.eof scanner.bearing.eof)]
        (.eof scanner.bearing.eof) after
  | piece {looked ruled after : Scanner σ φ U ε} {trail : Trail U} {tried : List (Event U V)}
      {choice : Option (Choice V)} (something : (input.get? 0).isSome)
      (reaches : scanner.Reaches input trail) (looks : LooksAhead input scanner looked)
      (within : trail.length ≤ looked.window.length)
      (tries : Tries (scanner.lexicon.attempts trail) looked tried choice ruled)
      (bearing : ruled.bearing =
        { scanner.bearing with factories := ruled.factories, condition := ruled.condition })
      (some : 1 ≤ consumed choice)
      (full : (input.take (consumed choice)).length = consumed choice)
      (settled : Settled input ruled choice after) :
      Resolved input scanner
        (tried ++ [ruled.bearing.event (ruled.bearing.piece (input.take (consumed choice)) choice)])
        (ruled.bearing.piece (input.take (consumed choice)) choice) after

section
variable {looked ruled : Scanner σ φ U ε} {trail : Trail U} {tried : List (Event U V)}

omit [ScanUnit U] [UnitSource σ U ε] in
theorem Ready.start_lt (ready : scanner.Ready) :
    scanner.start < scanner.lexicon.forward.stateCount := by
  obtain ⟨initial, found, known⟩ := ready.checked.forward.initial_ok ready.inForce
  rw [start, found]
  exact known

omit [UnitSource σ U ε] in
theorem Reaches.traced (reaches : scanner.Reaches input trail) :
    ∃ state, scanner.lexicon.Traced scanner.start trail state := by
  obtain ⟨-, state, traced, -⟩ := reaches.furthest .start rfl
  exact ⟨state, traced⟩

omit [UnitSource σ U ε] in
theorem Reaches.along (reaches : scanner.Reaches input trail) :
    scanner.lexicon.Along scanner.start trail.length (scanner.lexicon.attempts trail) := by
  obtain ⟨state, traced⟩ := reaches.traced
  exact traced.along

theorem Ran.fits (ran : Ran input scanner trail looked) (ready : scanner.Ready)
    (some : 0 < looked.window.length)
    (tries : Tries (looked.lexicon.attempts trail) looked tried choice ruled) :
    1 ≤ consumed choice ∧ consumed choice ≤ ruled.window.length ∧ ruled.Has input := by
  have readyStill := ready.of_bearing ran.bearing
  have along := (ran.reaches.of_bearing ran.bearing).along
  have window : ruled.window = looked.window := by rw [tries.frame.1]
  have has : ruled.Has input :=
    ran.has.congr window (by rw [tries.frame.1]) (by rw [tries.frame.1])
  have within := ran.within
  rw [window]
  cases choice with
  | none => exact ⟨Nat.le_refl 1, some, has⟩
  | some choice =>
    have fits := tries.length_ok readyStill readyStill.start_lt along choice rfl
    exact ⟨fits.1, fits.2.trans within, has⟩

end

variable [LawfulUnitSource σ U ε]

theorem Scans.resolved (scans : scanner.Scans events piece after) (has : scanner.Has input)
    (ready : scanner.Ready) : Resolved input scanner events piece after := by
  cases scans with
  | ended read =>
    obtain ⟨more, other, same, looks, told, -⟩ := fillIf_sound has (Nat.zero_le _) eq_comm read
    cases same
    have nothing : input.get? 0 = none := by simpa using told.symm
    rw [finish_fst, looks.bearing]
    refine .ended nothing (has_finish _ looks.has) ?_ ?_
    · rw [bearing_finish, looks.bearing]
    · rw [reports_finish, looks.bearing, looks.reports]
  | @piece _ filled looked ruled after trail tried choice piece read ran tries settled =>
    obtain ⟨more, other, same, looks, told, grows⟩ :=
      fillIf_sound has (Nat.zero_le _) eq_comm read
    cases same
    obtain ⟨other, last, same, done⟩ := forward_sound looks.has (ready.of_bearing looks.bearing) ran
    cases same
    have lexicon : looked.lexicon = scanner.lexicon :=
      congrArg Bearing.lexicon (done.bearing.trans looks.bearing)
    have some : 0 < looked.window.length := (grows rfl).trans_le done.keeps
    obtain ⟨nonempty, fits, ruledHas⟩ := done.fits (ready.of_bearing looks.bearing) some tries
    have window : ruled.window = looked.window := by rw [tries.frame.1]
    have bearing : ruled.bearing =
        { scanner.bearing with factories := ruled.factories, condition := ruled.condition } := by
      rw [tries.frame.1, ← looks.bearing, ← done.bearing]
      rfl
    obtain ⟨last, answered, spent⟩ := settle_ok (V := V) ruledHas (window ▸ some) fits
    cases settled.symm.trans answered
    exact .piece told.symm (done.reaches.of_bearing looks.bearing.symm)
      (looks.trans done.toLooksAhead) done.within (lexicon ▸ tries) bearing nonempty
      (ruledHas.length_take_of_le fits) spent

/-- A round that answers scans a piece, and the source does not fail. -/
theorem round_sound (has : scanner.Has input) (ready : scanner.Ready) {fuel : Nat}
    {result : Except IoFault (Piece U V) × Scanner σ φ U ε}
    (scanned : scanner.round fuel = .ok result) :
    ∃ events piece after, result = (.ok piece, after) ∧ scanner.Scans events piece after := by
  rw [round, fillIf_bind] at scanned
  obtain ⟨filled, read, scanned⟩ := bind_eq_ok_iff.mp scanned
  obtain ⟨more, filled, rfl, looks, told, grows⟩ :=
    fillIf_sound has (Nat.zero_le _) eq_comm read
  cases more with
  | false =>
    cases Except.ok.inj scanned
    exact ⟨_, _, _, rfl, .ended read⟩
  | true =>
    have still := ready.of_bearing looks.bearing
    obtain ⟨ran, forward, scanned⟩ := bind_eq_ok_iff.mp scanned
    obtain ⟨trail, looked, rfl, done⟩ := forward_sound looks.has still forward
    have readyStill := still.of_bearing done.bearing
    obtain ⟨state, traced⟩ := (done.reaches.of_bearing done.bearing).traced
    obtain ⟨tried, choice, ruled, selected, tries⟩ :=
      select_ok (V := V) readyStill traced readyStill.start_lt
    simp only [selected, ok_bind] at scanned
    obtain ⟨⟨piece, after⟩, settled, scanned⟩ := bind_eq_ok_iff.mp scanned
    cases Except.ok.inj scanned
    exact ⟨_, piece, after, rfl, .piece read forward tries settled⟩

/-- A round ends if its forward run does. -/
theorem round_ok {trail : Trail U} (has : scanner.Has input) (ready : scanner.Ready)
    (reaches : scanner.Reaches input trail) :
    ∃ fuel events piece after, scanner.round fuel = .ok (.ok piece, after) ∧
      scanner.Scans events piece after := by
  obtain ⟨fuel, more, filled, read, looks, told, grows⟩ :=
    fillIf_ok has (Nat.zero_le _) (eq_comm (a := scanner.window.length) (b := 0))
  cases more with
  | false =>
    refine ⟨fuel, _, _, _, ?_, .ended read⟩
    rw [round, fillIf_bind, read]
    rfl
  | true =>
    have still := ready.of_bearing looks.bearing
    obtain ⟨enough, looked, forward, done⟩ :=
      forward_ok looks.has still (reaches.of_bearing looks.bearing)
    have readyStill := still.of_bearing done.bearing
    obtain ⟨state, traced⟩ := (done.reaches.of_bearing done.bearing).traced
    obtain ⟨tried, choice, ruled, selected, tries⟩ :=
      select_ok (V := V) readyStill traced readyStill.start_lt
    have some : 0 < looked.window.length := (grows rfl).trans_le done.keeps
    obtain ⟨-, fits, ruledHas⟩ := done.fits still some tries
    have window : ruled.window = looked.window := by rw [tries.frame.1]
    obtain ⟨after, settled, -⟩ := settle_ok (V := V) ruledHas (window ▸ some) fits
    have filledMore := fillIf_mono read (Nat.le_max_left fuel enough)
    have ran := forward_mono forward (Nat.le_max_right fuel enough)
    refine ⟨max fuel enough, _, _, after, ?_, .piece filledMore ran tries settled⟩
    rw [round, fillIf_bind, filledMore]
    simp only [ok_bind, ran, selected, settled]
    rfl

/-- The token that ends a call. -/
def Piece.token? : Piece U V → Option (Token V)
  | .token _ last | .eof last => some last
  | .discarded _ | .unmatched _ => none

omit [LawfulUnitSource σ U ε] in
/-- A round leaves a scanner that has the rest of the input in front of it. -/
theorem Resolved.goesOn (resolved : Resolved input scanner events piece after)
    (ready : scanner.Ready) : after.Ready ∧ ∃ count, after.Has (input.drop count) ∧
      (piece.token? = none → 1 ≤ count ∧ (input.take count).length = count) := by
  cases resolved with
  | ended nothing has bearing =>
    exact ⟨ready.congr (by rw [bearing]; rfl) (by rw [bearing]; rfl), 0, has,
      fun silent => by cases silent⟩
  | piece _ reaches looks _ tries _ some full settled =>
    have still := tries.ready (ready.of_bearing looks.bearing)
    exact ⟨still.congr (by rw [settled.bearing]; rfl) (by rw [settled.bearing]; rfl), _,
      settled.has, fun _ => ⟨some, full⟩⟩

/-- What a call for the next token can do: rounds, up to the first that ends in a token. -/
inductive Pulls : Scanner σ φ U ε → List (Event U V) → Token V → Scanner σ φ U ε → Prop where
  | last {scanner after : Scanner σ φ U ε} {events : List (Event U V)} {piece : Piece U V}
      {token : Token V} (scans : scanner.Scans events piece after)
      (ends : piece.token? = some token) : Pulls scanner events token after
  | further {scanner middle after : Scanner σ φ U ε} {events more : List (Event U V)}
      {piece : Piece U V} {token : Token V} (scans : scanner.Scans events piece middle)
      (silent : piece.token? = none) (rest : Pulls middle more token after) :
      Pulls scanner (events ++ more) token after

theorem Pulls.goesOn {token : Token V} (pulls : scanner.Pulls events token after)
    (has : scanner.Has input) (ready : scanner.Ready) :
    after.Ready ∧ ∃ count, after.Has (input.drop count) := by
  induction pulls generalizing input with
  | last scans _ =>
    obtain ⟨still, count, rest, -⟩ := (scans.resolved has ready).goesOn ready
    exact ⟨still, count, rest⟩
  | further scans _ _ ih =>
    obtain ⟨still, count, rest, -⟩ := (scans.resolved has ready).goesOn ready
    obtain ⟨last, more, behind⟩ := ih rest still
    exact ⟨last, count + more, Content.drop_drop count more ▸ behind⟩

/-- A call that answers delivers a token, and the source does not fail. -/
theorem next_sound (has : scanner.Has input) (ready : scanner.Ready) {fuel : Nat}
    {result : Except StreamFault (Token V) × Scanner σ φ U ε}
    (answered : scanner.next fuel = .ok result) :
    ∃ events token after, result = (.ok token, after) ∧ scanner.Pulls events token after := by
  induction fuel generalizing scanner input with
  | zero => cases answered
  | succ fuel ih =>
    obtain ⟨scanned, rounded, answered⟩ := bind_eq_ok_iff.mp answered
    obtain ⟨events, piece, middle, rfl, scans⟩ := round_sound has ready rounded
    obtain ⟨readyStill, count, rest, -⟩ := (scans.resolved has ready).goesOn ready
    cases piece with
    | token _ token | eof token =>
      cases Except.ok.inj answered
      exact ⟨events, token, middle, rfl, .last scans rfl⟩
    | discarded | unmatched =>
      obtain ⟨more, token, after, rfl, pulls⟩ := ih rest readyStill answered
      exact ⟨_, token, after, rfl, .further scans rfl pulls⟩

section
variable {fuel enough : Nat}

omit [LawfulUnitSource σ U ε] in
theorem next_of_round {token : Token V} (rounded : scanner.round fuel = .ok (.ok piece, after))
    (ends : piece.token? = some token) : scanner.next (fuel + 1) = .ok (.ok token, after) := by
  rw [next, rounded]
  cases piece <;> cases ends <;> rfl

theorem next_of_silent {middle : Scanner σ φ U ε}
    {result : Except StreamFault (Token V) × Scanner σ φ U ε}
    (rounded : scanner.round fuel = .ok (.ok piece, middle)) (silent : piece.token? = none)
    (answered : middle.next enough = .ok result) :
    scanner.next (max fuel enough + 1) = .ok result := by
  rw [next, round_mono rounded (Nat.le_max_left fuel enough)]
  cases piece <;> cases silent <;> exact next_mono answered (Nat.le_max_right fuel enough)

end

/-- A call ends if the input does. -/
theorem next_ok {scanner : Scanner σ φ U ε} (units : List U) (has : scanner.Has (.ofList units))
    (ready : scanner.Ready) :
    ∃ fuel events token after, scanner.next fuel = .ok (.ok token, after) ∧
      scanner.Pulls events token after := by
  obtain ⟨trail, reads⟩ := Lexicon.Reads.exists_of_terminates units scanner.start []
  obtain ⟨fuel, events, piece, middle, rounded, scans⟩ := round_ok has ready reads
  cases ends : piece.token? with
  | some token => exact ⟨_, events, token, middle, next_of_round rounded ends, .last scans ends⟩
  | none =>
    obtain ⟨still, count, rest, shorter⟩ := (scans.resolved has ready).goesOn ready
    rw [Content.drop_ofList] at rest
    have less : (units.drop count).length < units.length := by
      obtain ⟨positive, full⟩ := shorter ends
      rw [Content.take_ofList, List.length_take] at full
      rw [List.length_drop]
      omega
    obtain ⟨enough, more, token, after, answered, pulls⟩ := next_ok (units.drop count) rest still
    exact ⟨_, _, token, after, next_of_silent rounded ends answered, .further scans ends pulls⟩
termination_by units.length
decreasing_by exact less

/-- Calls for tokens, one after the other, and all that happens meanwhile. -/
inductive Calls : Scanner σ φ U ε → List (Token V) → List (Event U V) → Scanner σ φ U ε → Prop where
  | done {scanner : Scanner σ φ U ε} : Calls scanner [] [] scanner
  | call {scanner middle after : Scanner σ φ U ε} {fuel : Nat} {token : Token V}
      {tokens : List (Token V)} {events more : List (Event U V)}
      (answered : scanner.next fuel = .ok (.ok token, middle))
      (pulls : scanner.Pulls events token middle) (rest : Calls middle tokens more after) :
      Calls scanner (token :: tokens) (events ++ more) after

/-- There are as many tokens as one asks for if the input ends. -/
theorem calls_ok (units : List U) (has : scanner.Has (.ofList units)) (ready : scanner.Ready)
    (count : Nat) :
    ∃ tokens events last, scanner.Calls tokens events last ∧ tokens.length = count := by
  induction count generalizing scanner units with
  | zero => exact ⟨[], [], scanner, .done, rfl⟩
  | succ count ih =>
    obtain ⟨fuel, events, token, middle, answered, pulls⟩ := next_ok units has ready
    obtain ⟨still, dropped, rest⟩ := pulls.goesOn has ready
    rw [Content.drop_ofList] at rest
    obtain ⟨tokens, more, last, calls, length⟩ := ih _ rest still
    exact ⟨token :: tokens, events ++ more, last, .call answered pulls calls, by simp [length]⟩

end TableDriven.Scanner
