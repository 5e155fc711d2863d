import TableDriven.Proofs.Scanner.Turns

/-! # Tracked sources of a scanner

A client calls a scanner in any order: to open a source, for the next token, to switch the start
condition, to install a factory, or to close the source.  `Performs` is a sequence of such calls,
with what each of them answers and notes.

A tracked source is any source with a mark, and notes what is done to it; so does an observed
factory.  Nothing else changes: without these notes a scanner of tracked sources and observed
factories is the scanner of the sources and factories themselves (`Performs.tracked`).
-/

namespace TableDriven.Scanner

/-- A call of a scanner. -/
inductive Operation (σ φ : Type) where
  | openSource (source : σ) (file : Option String)
  | next
  | setCondition (condition : Nat)
  | install (token : Nat) (factory : φ)
  | close

/-- A call that was made: what it answered if it asked for a token, what the scanner noted during
it, and where the scanner stood behind it. -/
structure Call (σ φ U V ε : Type) where
  operation : Operation σ φ
  answer? : Option (Except StreamFault (Token V))
  notices : List (Notice U ε)
  position : Position

section
variable [ScanUnit U] [UnitSource σ U ε] [TokenFactory φ U V ε]

/-- Makes a call; answers what a call for the next token does. -/
def perform (fuel : Nat) (scanner : Scanner σ φ U ε) :
    Operation σ φ → Run (Option (Except StreamFault (Token V)) × Scanner σ φ U ε)
  | .openSource source file => return (none, scanner.openSource source file)
  | .next => do
    let (answer, scanner) ← scanner.next fuel
    return (some answer, scanner)
  | .setCondition condition => return (none, (scanner.setCondition condition).2)
  | .install token factory => return (none, scanner.setFactory token factory)
  | .close => return (none, scanner.close)

/-- Calls one after the other, each with the fuel that it takes; the notices are taken behind each
of them. -/
inductive Performs : Scanner σ φ U ε → List (Call σ φ U V ε) → Scanner σ φ U ε → Prop where
  | done {scanner : Scanner σ φ U ε} : Performs scanner [] scanner
  | call {scanner middle after : Scanner σ φ U ε} {fuel : Nat} {operation : Operation σ φ}
      {answer? : Option (Except StreamFault (Token V))} {calls : List (Call σ φ U V ε)}
      (performed : scanner.perform fuel operation = .ok (answer?, middle))
      (rest : Performs middle.takeJournal.2 calls after) :
      Performs scanner (⟨operation, answer?, middle.takeJournal.1, middle.position⟩ :: calls) after

/-- Makes calls one after the other. -/
def performAll (fuel : Nat) : Scanner σ φ U ε → List (Operation σ φ) →
    Run (List (Call σ φ U V ε) × Scanner σ φ U ε)
  | scanner, [] => return ([], scanner)
  | scanner, operation :: operations => do
    let (answer?, middle) ← scanner.perform fuel operation
    let (calls, after) ← performAll fuel middle.takeJournal.2 operations
    return (⟨operation, answer?, middle.takeJournal.1, middle.position⟩ :: calls, after)

theorem performs_of_performAll {fuel : Nat} {scanner after : Scanner σ φ U ε}
    {operations : List (Operation σ φ)} {calls : List (Call σ φ U V ε)}
    (performed : scanner.performAll fuel operations = .ok (calls, after)) :
    scanner.Performs calls after := by
  induction operations generalizing scanner calls with
  | nil =>
    cases Except.ok.inj performed
    exact .done
  | cons operation operations ih =>
    obtain ⟨⟨answer?, middle⟩, first, performed⟩ := bind_eq_ok_iff.mp performed
    obtain ⟨⟨rest, last⟩, others, performed⟩ := bind_eq_ok_iff.mp performed
    cases Except.ok.inj performed
    exact .call first (ih others)

end

/-- What is done to a source or a factory.  The source of a mark was asked for units, for the last
time if `isLast`, or it was closed; the factory of a token was asked about a candidate. -/
inductive Deed where
  | asked (mark : Nat) (isLast : Bool)
  | closed (mark : Nat)
  | consulted (token : Nat)
  deriving DecidableEq

/-- A source that notes what is done to it. -/
structure Tracked (σ : Type) where
  mark : Nat
  source : σ

/-- A factory that notes when it is asked. -/
structure Observed (φ : Type) where
  factory : φ

/-- A delivery of the source, with the note that it was asked. -/
def Tracked.record (tracked : Tracked σ) (delivery : Delivery σ U ε) :
    Delivery (Tracked σ) U (Deed ⊕ ε) where
  answer := delivery.answer
  written := delivery.written
  rest := ⟨tracked.mark, delivery.rest⟩
  notes := .inl (.asked tracked.mark delivery.isLast) :: delivery.notes.map .inr

instance [UnitSource σ U ε] : UnitSource (Tracked σ) U (Deed ⊕ ε) where
  fill fuel tracked room := do
    return tracked.record (← UnitSource.fill fuel tracked.source room)
  close tracked :=
    let closed : σ × List ε := UnitSource.close tracked.source
    (⟨tracked.mark, closed.1⟩, .inl (.closed tracked.mark) :: closed.2.map .inr)

instance [TokenFactory φ U V ε] : TokenFactory (Observed φ) U V (Deed ⊕ ε) where
  consult observed candidate :=
    let ruled : Ruling V × φ × List ε := TokenFactory.consult observed.factory candidate
    (ruled.1, ⟨ruled.2.1⟩, .inl (.consulted candidate.token) :: ruled.2.2.map .inr)

/-- The notice without tracking, unless it is of a deed. -/
def Notice.erase? : Notice U (Deed ⊕ ε) → Option (Notice U ε)
  | .eof position => some (.eof position)
  | .unmatched unit position => some (.unmatched unit position)
  | .failed cause => some (.failed cause)
  | .delivered number count position => some (.delivered number count position)
  | .grown old new => some (.grown old new)
  | .unknownToken token count => some (.unknownToken token count)
  | .noted (.inl _) => none
  | .noted (.inr note) => some (.noted note)

def eraseAll (notices : List (Notice U (Deed ⊕ ε))) : List (Notice U ε) :=
  notices.filterMap Notice.erase?

def Operation.erase : Operation (Tracked σ) (Observed φ) → Operation σ φ
  | .openSource tracked file => .openSource tracked.source file
  | .next => .next
  | .setCondition condition => .setCondition condition
  | .install token observed => .install token observed.factory
  | .close => .close

/-- The call without tracking. -/
def Call.erase (call : Call (Tracked σ) (Observed φ) U V (Deed ⊕ ε)) : Call σ φ U V ε :=
  ⟨call.operation.erase, call.answer?, eraseAll call.notices, call.position⟩

/-- The scanner without tracking. -/
def erase (tracked : Scanner (Tracked σ) (Observed φ) U (Deed ⊕ ε)) : Scanner σ φ U ε where
  lexicon := tracked.lexicon
  eofSymbol := tracked.eofSymbol
  initialBuffer := tracked.initialBuffer
  tabWidth := tracked.tabWidth
  factories := tracked.factories.map (·.map Observed.factory)
  source := tracked.source.map Tracked.source
  file := tracked.file
  isExhausted := tracked.isExhausted
  isEofReported := tracked.isEofReported
  window := tracked.window
  condition := tracked.condition
  position := tracked.position
  journal := (eraseAll tracked.journal.toList).toArray

/-! ## Tracking changes nothing -/

/-- The same answer, from scanners one of which tracks what the other has. -/
def Erases (first : α × Scanner (Tracked σ) (Observed φ) U (Deed ⊕ ε))
    (second : α × Scanner σ φ U ε) : Prop :=
  first.1 = second.1 ∧ first.2.erase = second.2

section
variable (tracked : Scanner (Tracked σ) (Observed φ) U (Deed ⊕ ε))

@[simp] theorem lexicon_erase : tracked.erase.lexicon = tracked.lexicon := rfl

@[simp] theorem isExhausted_erase : tracked.erase.isExhausted = tracked.isExhausted := rfl

@[simp] theorem window_erase : tracked.erase.window = tracked.window := rfl

@[simp] theorem source_erase : tracked.erase.source = tracked.source.map Tracked.source := rfl

@[simp] theorem condition_erase : tracked.erase.condition = tracked.condition := rfl

@[simp] theorem position_erase : tracked.erase.position = tracked.position := rfl

theorem erase_note {notice : Notice U (Deed ⊕ ε)} {plain : Notice U ε}
    (same : notice.erase? = some plain) :
    (tracked.note notice).erase = tracked.erase.note plain := by
  simp [erase, note, eraseAll, same]

theorem eraseAll_noted (deed : Deed) (notes : List ε) :
    eraseAll (((.inl deed :: notes.map .inr : List (Deed ⊕ ε)).map .noted) :
      List (Notice U (Deed ⊕ ε))) = notes.map .noted := by
  rw [List.map_cons, List.map_map, eraseAll, List.filterMap_cons_none rfl, List.filterMap_map]
  exact congrFun List.filterMap_eq_map notes

theorem erase_noteAll (deed : Deed) (notes : List ε) :
    (tracked.noteAll (.inl deed :: notes.map .inr)).erase = tracked.erase.noteAll notes := by
  have journal : (eraseAll (tracked.journal.appendList
      ((.inl deed :: notes.map .inr : List (Deed ⊕ ε)).map .noted)).toList).toArray =
        (eraseAll tracked.journal.toList).toArray.appendList (notes.map .noted) := by
    rw [← Array.toList_inj, ← eraseAll_noted deed notes]
    simp only [Array.appendList_eq_append, Array.toList_appendList, eraseAll,
      List.filterMap_append]
  simp only [erase, noteAll, journal]

variable [ScanUnit U]

theorem erase_makeRoom (extra : Nat) :
    (tracked.makeRoom extra).erase = tracked.erase.makeRoom extra := by
  simp only [makeRoom, window_erase]
  rcases tracked.window.makeRoom extra with ⟨window, growth⟩
  cases growth with
  | none => rfl
  | some sizes => exact erase_note _ rfl

theorem erase_makeRoomIfFull :
    (if tracked.erase.window.free = 0 then tracked.erase.makeRoom 1 else tracked.erase) =
      erase (if tracked.window.free = 0 then tracked.makeRoom 1 else tracked) := by
  rw [window_erase]
  split
  next => exact (erase_makeRoom tracked 1).symm
  next => rfl

omit [ScanUnit U] in
theorem erase_received (source : Tracked σ) (delivery : Delivery σ U ε) :
    (tracked.received (source.record delivery)).erase = tracked.erase.received delivery :=
  erase_noteAll { tracked with
    source := some ⟨source.mark, delivery.rest⟩
    window := tracked.window.write delivery.written } _ _

variable [UnitSource σ U ε]

omit [ScanUnit U] in
theorem erase_close : tracked.close.erase = tracked.erase.close := by
  cases opened : tracked.source with
  | none => simp [close, erase, opened]
  | some source =>
    simp only [close, source_erase, opened, Option.map_some]
    exact erase_noteAll { tracked with source := none, isExhausted := true } _ _

omit [ScanUnit U] in
theorem erase_fail (cause : IoFault) : (tracked.fail cause).erase = tracked.erase.fail cause := by
  have noted : (tracked.note (.failed cause)).erase = tracked.erase.note (.failed cause) :=
    erase_note _ rfl
  have closed := erase_close (tracked.note (.failed cause))
  rw [noted] at closed
  simp only [fail, ← closed]
  rfl

theorem erase_openSource (source : Tracked σ) (file : Option String) :
    (tracked.openSource source file).erase = tracked.erase.openSource source.source file := by
  have closed := erase_close tracked
  simp only [openSource, ← closed]
  rfl

theorem alike_fillMore (fuel : Nat) :
    Run.Alike Erases (tracked.fillMore fuel) (tracked.erase.fillMore fuel) := by
  induction fuel generalizing tracked with
  | zero => exact .broken _
  | succ fuel ih =>
    simp only [fillMore]
    rw [isExhausted_erase, erase_makeRoomIfFull]
    split
    next => exact .answered ⟨rfl, rfl⟩
    next =>
      generalize (if tracked.window.free = 0 then tracked.makeRoom 1 else tracked) = roomy
      cases opened : roomy.source with
      | none =>
        simp only [source_erase, opened, Option.map_none]
        exact .answered ⟨rfl, by simp [erase, opened]⟩
      | some source =>
        simp only [source_erase, opened, Option.map_some, UnitSource.fill, bind_assoc, pure_bind]
        refine (Run.Alike.refl (UnitSource.fill fuel source.source roomy.window.free)).bind ?_
        rintro delivery _ rfl
        have received := erase_received roomy source delivery
        have answer : (source.record delivery).answer = delivery.answer := rfl
        rw [answer]
        cases delivery.answer with
        | error cause =>
          exact .answered ⟨rfl, (erase_fail _ cause).trans (congrArg (fail · cause) received)⟩
        | ok fill =>
          cases fill with
          | eof => exact .answered ⟨rfl, congrArg (fun scanner => { scanner with
              isExhausted := true }) received⟩
          | read count =>
            dsimp only
            split
            next => exact .answered ⟨rfl, congrArg (fun scanner => { scanner with
              window := scanner.window.extend (min count roomy.window.free) }) received⟩
            next => exact .answered ⟨rfl, congrArg (fun scanner => { scanner with
              isExhausted := true }) received⟩
          | tooSmall wanted =>
            have larger := erase_makeRoom (roomy.received (source.record delivery)) wanted
            have further := ih ((roomy.received (source.record delivery)).makeRoom wanted)
            rw [larger, received] at further
            change Run.Alike Erases (if roomy.window.free < wanted then _ else _)
              (if roomy.window.free < wanted then _ else _)
            split
            next => exact further
            next => exact .answered ⟨rfl, (erase_fail _ _).trans (congrArg (fail · _) received)⟩

theorem alike_fillIf (short : Prop) [Decidable short] (fuel : Nat) :
    Run.Alike Erases (if short then tracked.fillMore fuel else pure (.ok true, tracked))
      (if short then tracked.erase.fillMore fuel else pure (.ok true, tracked.erase)) := by
  split
  next => exact alike_fillMore tracked fuel
  next => exact .answered ⟨rfl, rfl⟩

theorem alike_forwardFrom (fuel state length : Nat) (trail : Trail U) :
    Run.Alike Erases (tracked.forwardFrom fuel state length trail)
      (tracked.erase.forwardFrom fuel state length trail) := by
  induction fuel generalizing tracked state length trail with
  | zero => exact .broken _
  | succ fuel ih =>
    rw [forwardFrom, forwardFrom, fillIf_bind, fillIf_bind]
    refine (alike_fillIf tracked (length = tracked.window.length) fuel).bind ?_
    rintro ⟨more, tracked⟩ ⟨_, _⟩ ⟨rfl, rfl⟩
    cases more with
    | error cause => exact .answered ⟨rfl, rfl⟩
    | ok more =>
      cases more with
      | false => exact .answered ⟨rfl, rfl⟩
      | true =>
        refine (Run.Alike.refl (tracked.window.unitAt length)).bind ?_
        rintro unit _ rfl
        refine (Run.Alike.refl (tracked.lexicon.advance? state unit)).bind ?_
        rintro next _ rfl
        cases next with
        | none => exact .answered ⟨rfl, rfl⟩
        | some next =>
          refine (Run.Alike.refl (tracked.lexicon.forward.code next)).bind ?_
          rintro code _ rfl
          exact ih tracked next (length + 1) _

theorem alike_forward (fuel : Nat) :
    Run.Alike Erases (tracked.forward fuel) (tracked.erase.forward fuel) := by
  refine (Run.Alike.refl (tracked.lexicon.forward.initial tracked.condition)).bind ?_
  rintro initial _ rfl
  exact alike_forwardFrom tracked fuel initial 0 []

end

section
variable (tracked : Scanner (Tracked σ) (Observed φ) U (Deed ⊕ ε))

theorem erase_setCondition (condition : Nat) :
    (tracked.setCondition condition).2.erase = (tracked.erase.setCondition condition).2 := by
  rw [setCondition, setCondition, lexicon_erase]
  split <;> rfl

theorem erase_setFactory (token : Nat) (observed : Observed φ) :
    (tracked.setFactory token observed).erase =
      tracked.erase.setFactory token observed.factory := by
  have size : tracked.erase.factories.size = tracked.factories.size := by simp [erase]
  simp only [setFactory, size]
  split
  next => simp [erase, Array.map_setIfInBounds]
  next => exact erase_note _ rfl

theorem erase_finish : Erases (tracked.finish (V := V)) tracked.erase.finish := by
  have reported : tracked.erase.isEofReported = tracked.isEofReported := rfl
  simp only [finish, reported]
  split
  next => exact ⟨rfl, rfl⟩
  next => exact ⟨rfl, erase_note { tracked with isEofReported := true } rfl⟩

variable [ScanUnit U]

theorem alike_settle (choice : Option (Choice V)) :
    Run.Alike Erases (tracked.settle choice) (tracked.erase.settle choice) := by
  cases choice with
  | none =>
    refine (Run.Alike.refl (tracked.window.unitAt 0)).bind ?_
    rintro unit _ rfl
    have noted : (tracked.note (.unmatched unit tracked.position)).erase =
        tracked.erase.note (.unmatched unit tracked.position) := erase_note tracked rfl
    exact .answered ⟨rfl, congrArg (fun scanner => (scanner.consume 1).2) noted⟩
  | some taken =>
    cases taken with
    | token length number value =>
      exact .answered ⟨rfl, erase_note (tracked.consume length).2 rfl⟩
    | discard length => exact .answered ⟨rfl, rfl⟩

variable [TokenFactory φ U V ε]

omit [ScanUnit U] in
theorem alike_consult (token length : Nat) :
    Run.Alike Erases (tracked.consult (V := V) token length)
      (tracked.erase.consult token length) := by
  refine (Run.Alike.refl (tracked.lexicon.param token)).bind ?_
  rintro param _ rfl
  have stored : tracked.erase.factories[token]? =
      (tracked.factories[token]?).map (·.map Observed.factory) := by
    simp [erase]
  rw [stored]
  cases tracked.factories[token]? with
  | none => exact .answered ⟨rfl, rfl⟩
  | some slot =>
    cases slot with
    | none => exact .answered ⟨rfl, rfl⟩
    | some observed =>
      obtain ⟨⟨ruling, next, notes⟩, ruled⟩ : ∃ answer,
          (TokenFactory.consult observed.factory (⟨token, param, defaultNumber token param,
            tracked.window.front length, tracked.position, tracked.condition,
            tracked.lexicon.conditions⟩ : Match U) : Ruling V × φ × List ε) = answer := ⟨_, rfl⟩
      have told := erase_noteAll { tracked with
        factories := tracked.factories.setIfInBounds token (some ⟨next⟩) } (.consulted token) notes
      have installed : erase { tracked with
          factories := tracked.factories.setIfInBounds token (some ⟨next⟩) } =
            { tracked.erase with
              factories := tracked.erase.factories.setIfInBounds token (some next) } := by
        simp [erase, Array.map_setIfInBounds]
      rw [installed] at told
      simp only [Option.map_some, TokenFactory.consult, window_erase, position_erase,
        condition_erase, lexicon_erase, ruled]
      cases ruling.condition with
      | none => cases ruling.verdict <;> exact .answered ⟨rfl, told⟩
      | some condition =>
        have switched := erase_setCondition (noteAll { tracked with
          factories := tracked.factories.setIfInBounds token (some ⟨next⟩) }
            (.inl (.consulted token) :: notes.map .inr)) condition
        rw [told] at switched
        cases ruling.verdict <;> exact .answered ⟨rfl, switched⟩

theorem alike_offer (trail : Trail U) (tokens : List Nat) :
    Run.Alike Erases (offer (V := V) trail tokens tracked) (offer trail tokens tracked.erase) := by
  induction tokens generalizing tracked with
  | nil => exact .answered ⟨rfl, rfl⟩
  | cons token rest ih =>
    refine (Run.Alike.refl (tracked.matchLength trail token)).bind ?_
    rintro length _ rfl
    cases length with
    | none => exact ih tracked
    | some length =>
      refine (alike_consult tracked token length).bind ?_
      rintro ⟨choice, tracked⟩ ⟨_, _⟩ ⟨rfl, rfl⟩
      cases choice with
      | none => exact ih tracked
      | some choice => exact .answered ⟨rfl, rfl⟩

theorem alike_select (trail : Trail U) :
    Run.Alike Erases (select (V := V) trail tracked) (select trail tracked.erase) := by
  induction trail generalizing tracked with
  | nil => exact .answered ⟨rfl, rfl⟩
  | cons step shorter ih =>
    obtain ⟨unit, code⟩ := step
    refine (Run.Alike.refl (tracked.lexicon.forward.tokens code)).bind ?_
    rintro tokens _ rfl
    refine (alike_offer tracked _ tokens).bind ?_
    rintro ⟨choice, tracked⟩ ⟨_, _⟩ ⟨rfl, rfl⟩
    cases choice with
    | none => exact ih tracked
    | some choice => exact .answered ⟨rfl, rfl⟩

variable [UnitSource σ U ε]

theorem alike_round (fuel : Nat) :
    Run.Alike Erases (tracked.round (V := V) fuel) (tracked.erase.round fuel) := by
  rw [round, round, fillIf_bind, fillIf_bind]
  refine (alike_fillIf tracked (tracked.window.length = 0) fuel).bind ?_
  rintro ⟨more, tracked⟩ ⟨_, _⟩ ⟨rfl, rfl⟩
  cases more with
  | error cause => exact .answered ⟨rfl, rfl⟩
  | ok more =>
    cases more with
    | false =>
      obtain ⟨token, last⟩ := erase_finish (V := V) tracked
      exact .answered ⟨congrArg (fun token => Except.ok (Piece.eof token)) token, last⟩
    | true =>
      refine (alike_forward tracked fuel).bind ?_
      rintro ⟨trail, tracked⟩ ⟨_, _⟩ ⟨rfl, rfl⟩
      cases trail with
      | error cause => exact .answered ⟨rfl, rfl⟩
      | ok trail =>
        refine (alike_select tracked trail).bind ?_
        rintro ⟨choice, tracked⟩ ⟨_, _⟩ ⟨rfl, rfl⟩
        refine (alike_settle tracked choice).bind ?_
        rintro ⟨piece, tracked⟩ ⟨_, _⟩ ⟨rfl, rfl⟩
        exact .answered ⟨rfl, rfl⟩

theorem alike_next (fuel : Nat) :
    Run.Alike Erases (tracked.next (V := V) fuel) (tracked.erase.next fuel) := by
  induction fuel generalizing tracked with
  | zero => exact .broken _
  | succ fuel ih =>
    refine (alike_round tracked fuel).bind ?_
    rintro ⟨answer, tracked⟩ ⟨_, _⟩ ⟨rfl, rfl⟩
    cases answer with
    | error cause => exact .answered ⟨rfl, rfl⟩
    | ok piece =>
      cases piece with
      | token | eof => exact .answered ⟨rfl, rfl⟩
      | discarded | unmatched => exact ih tracked

theorem alike_perform (fuel : Nat) (operation : Operation (Tracked σ) (Observed φ)) :
    Run.Alike Erases (tracked.perform (V := V) fuel operation)
      (tracked.erase.perform fuel operation.erase) := by
  cases operation with
  | openSource source file => exact .answered ⟨rfl, erase_openSource tracked source file⟩
  | next =>
    refine (alike_next tracked fuel).bind ?_
    rintro ⟨answer, tracked⟩ ⟨_, _⟩ ⟨rfl, rfl⟩
    exact .answered ⟨rfl, rfl⟩
  | setCondition condition => exact .answered ⟨rfl, erase_setCondition tracked condition⟩
  | install token observed => exact .answered ⟨rfl, erase_setFactory tracked token observed⟩
  | close => exact .answered ⟨rfl, erase_close tracked⟩

end

/-- The call of an operation, with the source that it opens marked. -/
def Operation.track (mark : Nat) : Operation σ φ → Operation (Tracked σ) (Observed φ)
  | .openSource source file => .openSource ⟨mark, source⟩ file
  | .next => .next
  | .setCondition condition => .setCondition condition
  | .install token factory => .install token ⟨factory⟩
  | .close => .close

theorem Operation.erase_track (mark : Nat) (operation : Operation σ φ) :
    (operation.track mark).erase = operation := by
  cases operation <;> rfl

/-- The sources are marked by their number, which for the first call is `mark`. -/
def Marked (mark : Nat) : List (Call (Tracked σ) (Observed φ) U V (Deed ⊕ ε)) → Prop
  | [] => True
  | call :: calls => call.operation = call.operation.erase.track mark ∧ Marked (mark + 1) calls

section
variable [ScanUnit U] [UnitSource σ U ε] [TokenFactory φ U V ε]

/-- Any sequence of calls is what one with marked sources and observed factories is without
tracking. -/
theorem Performs.tracked {scanner after : Scanner σ φ U ε} {calls : List (Call σ φ U V ε)}
    (performs : scanner.Performs calls after) (mark : Nat)
    (tracked : Scanner (Tracked σ) (Observed φ) U (Deed ⊕ ε)) (same : tracked.erase = scanner) :
    ∃ trackedCalls last, tracked.Performs trackedCalls last ∧ Marked mark trackedCalls ∧
      trackedCalls.map Call.erase = calls ∧ last.erase = after := by
  induction performs generalizing mark tracked with
  | done => exact ⟨[], tracked, .done, trivial, rfl, same⟩
  | @call _ _ _ fuel operation _ _ performed _ ih =>
    subst same
    have alike := alike_perform tracked (V := V) fuel (operation.track mark)
    rw [operation.erase_track, performed] at alike
    obtain ⟨⟨answer?, middle⟩, done, rfl, rfl⟩ := alike.of_ok_right
    obtain ⟨calls, last, performs, marked, plain, ends⟩ := ih (mark + 1) middle.takeJournal.2 rfl
    refine ⟨_, last, .call done performs, ⟨?_, marked⟩, ?_, ends⟩
    · rw [operation.erase_track]
    · rw [List.map_cons, plain, Call.erase, operation.erase_track]
      rfl

end

end TableDriven.Scanner
