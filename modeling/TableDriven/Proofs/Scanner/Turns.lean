import TableDriven.Proofs.Scanner.Gather
import TableDriven.Proofs.Scanner.Safety

/-! # What a call does, whatever the source

`Turns` says all that a round can do to a scanner over a checked table and `Takes` all that a call
for the next token can, whatever the source answers and the factories decide.  Both are read off the
program once (`round_turns`, `next_takes`); what holds of every call is proved of them.
-/

namespace TableDriven.Scanner

variable [ScanUnit U] [UnitSource σ U ε] [TokenFactory φ U V ε]
  {scanner middle after : Scanner σ φ U ε}

/-- What a round can do. -/
inductive Turns (scanner : Scanner σ φ U ε) :
    Except IoFault (Piece U V) → Scanner σ φ U ε → Prop where
  | failed {after : Scanner σ φ U ε} {cause : IoFault}
      (gathers : Gathers scanner (.error cause) after) : Turns scanner (.error cause) after
  | ended {spent : Scanner σ φ U ε} (gathers : Gathers scanner (.ok ()) spent)
      (exhausted : spent.isExhausted = true) (empty : spent.window.length = 0) :
      Turns scanner (.ok (.eof (spent.finish (V := V)).1)) (spent.finish (V := V)).2
  | scanned {looked ruled after : Scanner σ φ U ε} {tried : List (Nat × Trail U)}
      {events : List (Event U V)} {choice : Option (Choice V)} {piece : Piece U V}
      (gathers : Gathers scanner (.ok ()) looked) (tries : Tries tried looked events choice ruled)
      (settled : ruled.settle choice = .ok (piece, after)) : Turns scanner (.ok piece) after

theorem round_turns {fuel : Nat} {answer : Except IoFault (Piece U V)}
    (checked : scanner.lexicon.Checked) (intact : scanner.Intact)
    (rounded : scanner.round fuel = .ok (answer, after)) :
    Turns scanner answer after ∧ Guarded.Behind scanner after := by
  obtain ⟨_, -, rfl, behind⟩ := (rounded ▸ Guarded.round_agrees checked intact fuel).of_ok
  refine ⟨?_, behind⟩
  rw [round, fillIf_bind] at rounded
  obtain ⟨⟨more, filled⟩, read, rounded⟩ := bind_eq_ok_iff.mp rounded
  obtain ⟨gathers, spent⟩ := fillIf_gathers read
  have fills : Run.Agree (UnitSource.Breaks σ U ε) _ _ _ :=
    Guarded.fillIfShort_agrees intact (Nat.zero_le _) eq_comm fuel
  rw [read] at fills
  obtain ⟨_, -, rfl, refilled⟩ := fills.of_ok
  have lexicon : filled.lexicon = scanner.lexicon := congrArg Bearing.lexicon refilled.bearing
  have holds := intact.of_bearing refilled.sound refilled.bearing
  cases more with
  | error cause =>
    cases Except.ok.inj rounded
    exact .failed gathers
  | ok more =>
    cases more with
    | false =>
      cases Except.ok.inj rounded
      obtain ⟨empty, exhausted, same⟩ := spent rfl
      exact .ended gathers exhausted (same.trans empty)
    | true =>
      obtain ⟨⟨trail, looked⟩, ran, rounded⟩ := bind_eq_ok_iff.mp rounded
      have further := forward_gathers ran
      cases trail with
      | error cause =>
        cases Except.ok.inj rounded
        exact .failed (gathers.trans further)
      | ok trail =>
        obtain ⟨⟨choice, ruled⟩, selected, rounded⟩ := bind_eq_ok_iff.mp rounded
        obtain ⟨⟨piece, last⟩, settled, rounded⟩ := bind_eq_ok_iff.mp rounded
        cases Except.ok.inj rounded
        have runs := Guarded.forward_agrees (lexicon ▸ checked) holds fuel
        rw [ran] at runs
        obtain ⟨_, -, follows⟩ := runs.of_ok
        cases follows with
        | reached sound bearing _ traced =>
          have same : looked.lexicon = filled.lexicon := congrArg Bearing.lexicon bearing
          have ready : looked.Ready :=
            ⟨same ▸ lexicon ▸ checked, (holds.of_bearing sound bearing).inForce⟩
          have begins : filled.start < filled.lexicon.forward.stateCount :=
            Ready.start_lt ⟨lexicon ▸ checked, holds.inForce⟩
          obtain ⟨events, other, others, again, tries⟩ :=
            select_ok (V := V) ready (same ▸ traced) (same ▸ begins)
          cases selected.symm.trans again
          exact .scanned (gathers.trans further) tries settled

/-- What a call for the next token can do: rounds that end in no token, and then one that ends in a
token or fails. -/
inductive Takes : Scanner σ φ U ε → Except StreamFault (Token V) → Scanner σ φ U ε → Prop where
  | failed {scanner after : Scanner σ φ U ε} {cause : IoFault}
      (turns : Turns scanner (.error cause : Except IoFault (Piece U V)) after) :
      Takes scanner (.error (.io cause)) after
  | last {scanner after : Scanner σ φ U ε} {piece : Piece U V} {token : Token V}
      (turns : Turns scanner (.ok piece) after) (ends : piece.token? = some token) :
      Takes scanner (.ok token) after
  | further {scanner middle after : Scanner σ φ U ε} {piece : Piece U V}
      {answer : Except StreamFault (Token V)} (turns : Turns scanner (.ok piece) middle)
      (silent : piece.token? = none) (rest : Takes middle answer after) :
      Takes scanner answer after

theorem next_takes {fuel : Nat} {answer : Except StreamFault (Token V)}
    (checked : scanner.lexicon.Checked) (intact : scanner.Intact)
    (answered : scanner.next fuel = .ok (answer, after)) :
    Takes scanner answer after ∧ Guarded.Behind scanner after := by
  induction fuel generalizing scanner with
  | zero => cases answered
  | succ fuel ih =>
    obtain ⟨⟨told, middle⟩, rounded, answered⟩ := bind_eq_ok_iff.mp answered
    obtain ⟨turns, behind⟩ := round_turns checked intact rounded
    cases told with
    | error cause =>
      cases Except.ok.inj answered
      exact ⟨.failed turns, behind⟩
    | ok piece =>
      cases piece with
      | token | eof =>
        cases Except.ok.inj answered
        exact ⟨.last turns rfl, behind⟩
      | discarded | unmatched =>
        obtain ⟨takes, further⟩ := ih (behind.lexicon ▸ checked) behind.intact answered
        exact ⟨.further turns rfl takes, further.intact, further.lexicon.trans behind.lexicon⟩

/-! ## The end of the input -/

/-- Where the end of the input was reported. -/
def Report.eof? : Report U → Option Position
  | .eof position => some position
  | .unmatched _ _ => none

def eofs (scanner : Scanner σ φ U ε) : List Position := scanner.reports.filterMap Report.eof?

/-- From one scanner to the other nothing is told of the end of the input. -/
structure Quiet (scanner after : Scanner σ φ U ε) : Prop where
  eofSymbol : after.eofSymbol = scanner.eofSymbol
  isEofReported : after.isEofReported = scanner.isEofReported
  eofs : after.eofs = scanner.eofs

omit [UnitSource σ U ε] [ScanUnit U] [TokenFactory φ U V ε] in
theorem Quiet.trans (first : Quiet scanner middle) (second : Quiet middle after) :
    Quiet scanner after :=
  ⟨second.eofSymbol.trans first.eofSymbol, second.isEofReported.trans first.isEofReported,
    second.eofs.trans first.eofs⟩

omit [UnitSource σ U ε] [ScanUnit U] [TokenFactory φ U V ε] in
theorem Quiet.of_bearing (bearing : after.bearing = scanner.bearing)
    (reports : after.reports = scanner.reports) : Quiet scanner after :=
  ⟨congrArg Bearing.eofSymbol bearing, congrArg Bearing.isEofReported bearing,
    congrArg (List.filterMap Report.eof?) reports⟩

omit [UnitSource σ U ε] [ScanUnit U] [TokenFactory φ U V ε] in
theorem quiet_note {notice : Notice U ε} (silent : notice.report?.bind Report.eof? = none) :
    Quiet scanner (scanner.note notice) := by
  refine ⟨rfl, rfl, ?_⟩
  rw [eofs, reports_note, List.filterMap_append]
  cases said : notice.report? with
  | none => exact List.append_nil _
  | some report =>
    rw [said, Option.bind_some] at silent
    simp [eofs, silent]

omit [ScanUnit U] [TokenFactory φ U V ε] in
variable (scanner) in
theorem close_frame : scanner.close = { scanner with
    source := none
    isExhausted := true
    journal := scanner.close.journal } := by
  cases opened : scanner.source with
  | none =>
    simp only [close, opened]
  | some source =>
    simp only [close, opened]
    rfl

omit [ScanUnit U] [TokenFactory φ U V ε] in
theorem quiet_close : Quiet scanner scanner.close := by
  refine .of_bearing ?_ ?_
  · rw [close_frame]
    rfl
  · simp only [close]
    split
    next => rfl
    next => exact reports_noteAll _ _

omit [ScanUnit U] [TokenFactory φ U V ε] in
theorem quiet_fail (cause : IoFault) : Quiet scanner (scanner.fail cause) := by
  have noted : Quiet scanner (scanner.note (.failed cause)) := quiet_note rfl
  have closed : Quiet (scanner.note (.failed cause)) (scanner.note (.failed cause)).close :=
    quiet_close
  exact noted.trans ⟨closed.eofSymbol, closed.isEofReported, closed.eofs⟩

omit [UnitSource σ U ε] [ScanUnit U] [TokenFactory φ U V ε] in
variable (scanner) in
theorem finish_frame : (scanner.finish (V := V)).2 = { scanner with
    isEofReported := true
    journal := (scanner.finish (V := V)).2.journal } := by
  simp only [finish]
  split
  next reported => rw [← reported]
  next => rfl

omit [UnitSource σ U ε] [ScanUnit U] [TokenFactory φ U V ε] in
variable (scanner) in
theorem eofs_finish : (scanner.finish (V := V)).2.eofs =
    scanner.eofs ++ if scanner.isEofReported then [] else [scanner.position] := by
  rw [eofs, reports_finish, List.filterMap_append]
  cases reported : scanner.isEofReported <;>
    simp [Bearing.event, Event.report?, bearing, reported, Report.eof?, Bearing.eof, eofs]

omit [TokenFactory φ U V ε] in
theorem Gathers.quiet {outcome : Except IoFault Unit} (gathers : Gathers scanner outcome after) :
    Quiet scanner after := by
  have received (scanner : Scanner σ φ U ε) (delivery : Delivery σ U ε) :
      Quiet scanner (scanner.received delivery) := .of_bearing rfl (reports_received _ _)
  induction gathers with
  | done => exact .of_bearing rfl rfl
  | @room scanner _ _ extra _ ih =>
    have roomy : Quiet scanner (scanner.makeRoom extra) :=
      .of_bearing (bearing_makeRoom _ _) (reports_makeRoom _ _)
    exact roomy.trans ih
  | absent _ _ ih => exact ⟨ih.eofSymbol, ih.isEofReported, ih.eofs⟩
  | asked _ _ _ _ _ _ ih | ended _ _ _ _ _ ih =>
    exact (received _ _).trans ⟨ih.eofSymbol, ih.isEofReported, ih.eofs⟩
  | failed _ _ _ cause => exact (received _ _).trans (quiet_fail cause)

omit [UnitSource σ U ε] in
theorem Tries.quiet {tried : List (Nat × Trail U)} {events : List (Event U V)}
    {choice : Option (Choice V)} (tries : Tries tried scanner events choice after) :
    Quiet scanner after := by
  obtain ⟨frame, reports⟩ := tries.frame
  exact ⟨by rw [frame], by rw [frame], congrArg (List.filterMap Report.eof?) reports⟩

/-- Whether a token was delivered from the input. -/
def Notice.isDelivery : Notice U ε → Bool
  | .delivered .. => true
  | .eof _ | .unmatched .. | .failed _ | .grown .. | .unknownToken .. | .noted _ => false

def delivers (scanner : Scanner σ φ U ε) : Bool := scanner.journal.toList.any Notice.isDelivery

omit [UnitSource σ U ε] [ScanUnit U] [TokenFactory φ U V ε] in
variable (scanner) in
theorem delivers_note (notice : Notice U ε) :
    (scanner.note notice).delivers = (scanner.delivers || notice.isDelivery) := by
  simp [delivers, note]

omit [UnitSource σ U ε] [ScanUnit U] [TokenFactory φ U V ε] in
variable (scanner) in
theorem delivers_noteAll (notes : List ε) :
    (scanner.noteAll notes).delivers = scanner.delivers := by
  simp [delivers, noteAll, Array.appendList_eq_append, Notice.isDelivery]

omit [UnitSource σ U ε] [TokenFactory φ U V ε] in
variable (scanner) in
theorem delivers_makeRoom (extra : Nat) : (scanner.makeRoom extra).delivers = scanner.delivers := by
  simp only [makeRoom]
  split
  next => rfl
  next =>
    rw [delivers_note]
    exact Bool.or_false _

omit [ScanUnit U] [TokenFactory φ U V ε] in
theorem delivers_fail (cause : IoFault) : (scanner.fail cause).delivers = scanner.delivers := by
  have noted : (scanner.note (.failed cause)).delivers = scanner.delivers :=
    (delivers_note _ _).trans (Bool.or_false _)
  have closed : (scanner.note (.failed cause)).close.delivers =
      (scanner.note (.failed cause)).delivers := by
    simp only [close]
    split
    next => rfl
    next => exact delivers_noteAll _ _
  exact closed.trans noted

omit [UnitSource σ U ε] [ScanUnit U] [TokenFactory φ U V ε] in
variable (scanner) in
theorem delivers_finish : (scanner.finish (V := V)).2.delivers = scanner.delivers := by
  simp only [finish]
  split
  next => rfl
  next => exact (delivers_note _ _).trans (Bool.or_false _)

omit [TokenFactory φ U V ε] in
theorem Gathers.delivers_eq {outcome : Except IoFault Unit}
    (gathers : Gathers scanner outcome after) : after.delivers = scanner.delivers := by
  have received (scanner : Scanner σ φ U ε) (delivery : Delivery σ U ε) :
      (scanner.received delivery).delivers = scanner.delivers := delivers_noteAll _ _
  induction gathers with
  | done => rfl
  | room extra _ ih => exact ih.trans (delivers_makeRoom _ extra)
  | absent _ _ ih => exact ih
  | asked _ _ _ _ _ _ ih | ended _ _ _ _ _ ih => exact ih.trans (received _ _)
  | failed _ _ _ cause => exact (delivers_fail cause).trans (received _ _)

omit [UnitSource σ U ε] [ScanUnit U] in
theorem Rules.delivers_eq {token length : Nat} {choice : Option (Choice V)}
    (rules : scanner.Rules token length choice after) : after.delivers = scanner.delivers := by
  cases rules with
  | assembled => rfl
  | ruled => exact delivers_noteAll scanner _

omit [UnitSource σ U ε] in
theorem Tries.delivers_eq {tried : List (Nat × Trail U)} {events : List (Event U V)}
    {choice : Option (Choice V)} (tries : Tries tried scanner events choice after) :
    after.delivers = scanner.delivers := by
  induction tries with
  | done => rfl
  | absent _ _ ih => exact ih
  | rejected _ ruled _ ih => exact ih.trans (rules_of_consult ruled).delivers_eq
  | taken _ ruled => exact (rules_of_consult ruled).delivers_eq

/-- What consuming a piece comes to. -/
structure Advances (scanner : Scanner σ φ U ε) (piece : Piece U V) (after : Scanner σ φ U ε) :
    Prop where
  quiet : Quiet scanner after
  delivers : after.delivers = (scanner.delivers || piece.token?.isSome)
  source : after.source = scanner.source
  isExhausted : after.isExhausted = scanner.isExhausted

omit [UnitSource σ U ε] [TokenFactory φ U V ε] in
theorem settle_advances {choice : Option (Choice V)} {piece : Piece U V}
    (settled : scanner.settle choice = .ok (piece, after)) : Advances scanner piece after := by
  cases choice with
  | none =>
    obtain ⟨unit, -, settled⟩ := bind_eq_ok_iff.mp settled
    cases Except.ok.inj settled
    have noted : Quiet scanner (scanner.note (.unmatched unit scanner.position)) := quiet_note rfl
    exact ⟨⟨rfl, rfl, noted.eofs⟩, delivers_note scanner _, rfl, rfl⟩
  | some taken =>
    cases taken with
    | token length number value =>
      cases Except.ok.inj settled
      have noted : Quiet scanner (scanner.note (.delivered number length scanner.position)) :=
        quiet_note rfl
      exact ⟨⟨rfl, rfl, noted.eofs⟩, delivers_note scanner _, rfl, rfl⟩
    | discard length =>
      cases Except.ok.inj settled
      exact ⟨⟨rfl, rfl, rfl⟩, (Bool.or_false _).symm, rfl, rfl⟩

/-- How a call for the next token ends: by a failure, by a token that is delivered, or by the end of
the input, where nothing is delivered and nothing is in front of the scanner. -/
inductive Concludes (scanner : Scanner σ φ U ε) :
    Except StreamFault (Token V) → Scanner σ φ U ε → Prop where
  | failed {after : Scanner σ φ U ε} {fault : StreamFault} (quiet : Quiet scanner after) :
      Concludes scanner (.error fault) after
  | delivered {after : Scanner σ φ U ε} {token : Token V} (quiet : Quiet scanner after)
      (delivers : after.delivers = true) : Concludes scanner (.ok token) after
  | ended {spent : Scanner σ φ U ε} (quiet : Quiet scanner spent)
      (undelivered : spent.delivers = scanner.delivers)
      (exhausted : spent.isExhausted = true) (empty : spent.window.length = 0) :
      Concludes scanner (.ok spent.bearing.eof) (spent.finish (V := V)).2

omit [UnitSource σ U ε] [ScanUnit U] [TokenFactory φ U V ε] in
theorem Concludes.since {answer : Except StreamFault (Token V)}
    (concludes : Concludes middle answer after) (quiet : Quiet scanner middle)
    (undelivered : middle.delivers = scanner.delivers) : Concludes scanner answer after := by
  cases concludes with
  | failed later => exact .failed (quiet.trans later)
  | delivered later delivers => exact .delivered (quiet.trans later) delivers
  | ended later still exhausted empty =>
    exact .ended (quiet.trans later) (still.trans undelivered) exhausted empty

theorem Takes.concludes {answer : Except StreamFault (Token V)}
    (takes : Takes scanner answer after) : Concludes scanner answer after := by
  induction takes with
  | failed turns =>
    cases turns with
    | failed gathers => exact .failed gathers.quiet
  | last turns ends =>
    cases turns with
    | ended gathers exhausted empty =>
      cases ends
      rw [finish_fst]
      exact .ended gathers.quiet gathers.delivers_eq exhausted empty
    | scanned gathers tries settled =>
      have advances := settle_advances settled
      refine .delivered ((gathers.quiet.trans tries.quiet).trans advances.quiet) ?_
      rw [advances.delivers, ends]
      exact Bool.or_true _
  | further turns silent _ ih =>
    cases turns with
    | ended => cases silent
    | scanned gathers tries settled =>
      have advances := settle_advances settled
      refine ih.since ((gathers.quiet.trans tries.quiet).trans advances.quiet) ?_
      rw [advances.delivers, silent, tries.delivers_eq, gathers.delivers_eq]
      exact Bool.or_false _

end TableDriven.Scanner
