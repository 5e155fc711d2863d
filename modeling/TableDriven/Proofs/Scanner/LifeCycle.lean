import TableDriven.Proofs.Scanner.Custody

/-! # The life of a source

A source is open from the call that opens it up to the next one that opens or closes, or that
fails.  `Clean` says for any sequence of calls what becomes of it: when it is asked and closed, and
when its end is reported.  What a scanner holds `Accords` with the calls that were made; every call
keeps that so, and is `Orderly` where it holds.
-/

namespace TableDriven.Scanner

namespace Call

def deeds (call : Call σ φ U V (Deed ⊕ ε)) : List Deed :=
  call.notices.flatMap Account.tracked.item

/-- Where the end of the input was reported during the call. -/
def eofs (call : Call σ φ U V ε) : List Position :=
  (call.notices.filterMap Notice.report?).filterMap Report.eof?

def opens (call : Call σ φ U V ε) : Prop :=
  ∃ source file, call.operation = .openSource source file

/-- Whether no source that was open before is open any more. -/
def ends (call : Call σ φ U V ε) : Prop :=
  call.opens ∨ call.operation = .close ∨ ∃ fault, call.answer? = some (.error fault)

/-- Whether a token was delivered from the input during the call. -/
def delivers (call : Call σ φ U V ε) : Bool := call.notices.any Notice.isDelivery

/-- The token that ends the stream: its number is `eofSymbol`, and it was not delivered from the
input but is where the scanner stands. -/
def IsEof (eofSymbol : Nat) (call : Call σ φ U V ε) (token : Token V) : Prop :=
  call.answer? = some (.ok token) ∧ token.number = eofSymbol ∧ token.position = call.position ∧
    call.delivers = false

end Call

/-- Whether an item starts something that no item behind it stops. -/
def Since (starts : List α → α → Prop) (stops : α → Prop) (items : List α) : Prop :=
  ∃ before item between, items = before ++ item :: between ∧ starts before item ∧
    ∀ later ∈ between, ¬ stops later

theorem not_since_nil {starts : List α → α → Prop} {stops : α → Prop} :
    ¬ Since starts stops [] := by
  rintro ⟨before, item, between, none, -⟩
  simp at none

theorem since_concat {starts : List α → α → Prop} {stops : α → Prop} {items : List α} {last : α} :
    Since starts stops (items ++ [last]) ↔
      starts items last ∨ ¬ stops last ∧ Since starts stops items := by
  constructor
  · rintro ⟨before, item, between, same, started, still⟩
    rcases List.eq_nil_or_concat between with rfl | ⟨between, other, rfl⟩
    · obtain ⟨rfl, ⟨⟩⟩ := List.append_inj' same rfl
      exact .inl started
    · rw [List.concat_eq_append] at same still
      rw [← List.cons_append, ← List.append_assoc] at same
      obtain ⟨rfl, ⟨⟩⟩ := List.append_inj' same rfl
      obtain ⟨still, goesOn⟩ := List.forall_mem_append.mp still
      exact .inr ⟨goesOn last (List.mem_singleton_self last),
        before, item, between, rfl, started, still⟩
  · rintro (started | ⟨goesOn, before, item, between, rfl, started, still⟩)
    · exact ⟨items, last, [], rfl, started, List.forall_mem_nil _⟩
    · exact ⟨before, item, between ++ [last], by simp, started,
        List.forall_mem_append.mpr ⟨still, List.forall_mem_singleton.mpr goesOn⟩⟩

/-- The source that the call number `mark` opened is open. -/
def IsOpen (mark : Nat) : List (Call σ φ U V ε) → Prop :=
  Since (fun before call => before.length = mark ∧ call.opens) Call.ends

/-- The end of the input has been answered, by `token`, and no source was opened since. -/
def IsEnded (eofSymbol : Nat) (token : Token V) : List (Call σ φ U V ε) → Prop :=
  Since (fun _ call => call.IsEof eofSymbol token) Call.opens

/-- What a call does, with the calls before it.  It closes the source that is open if it opens,
closes or fails, and no other.  The first one to answer the end of the input since a source was
opened reports it, and no other does; behind that the same token is answered, and nothing is done.
-/
structure Call.Orderly (eofSymbol : Nat) (before : List (Call σ φ U V (Deed ⊕ ε)))
    (call : Call σ φ U V (Deed ⊕ ε)) : Prop where
  closes : ∀ mark, .closed mark ∈ call.deeds ↔ IsOpen mark before ∧ call.ends
  reports : ∀ token, call.IsEof eofSymbol token → (∀ earlier, ¬ IsEnded eofSymbol earlier before) →
    call.eofs = [token.position]
  silent : call.eofs ≠ [] →
    (∃ token, call.IsEof eofSymbol token) ∧ ∀ earlier, ¬ IsEnded eofSymbol earlier before
  repeats : ∀ token, IsEnded eofSymbol token before → call.operation = .next →
    call.answer? = some (.ok token) ∧ call.notices = []

/-- What a sequence of calls does.  No source is closed twice, or asked after it was closed or
answered its last; and between two openings the end of the input is reported once at most. -/
structure Clean (eofSymbol : Nat) (calls : List (Call σ φ U V (Deed ⊕ ε))) : Prop where
  orderly : (calls.flatMap Call.deeds).Pairwise (¬ ·.Precludes ·)
  each : ∀ before call after, calls = before ++ call :: after → call.Orderly eofSymbol before
  once : ∀ before span after, calls = before ++ span ++ after → (∀ call ∈ span, ¬ call.opens) →
    (span.flatMap Call.eofs).length ≤ 1

/-! ## One call -/

section
variable [ScanUnit U] [UnitSource σ U ε] [TokenFactory φ U V ε] {scanner : Scanner σ φ U ε}

variable (scanner) in
/-- Behind the end of the input a call answers it once more and changes nothing. -/
theorem next_rests (exhausted : scanner.isExhausted = true) (empty : scanner.window.length = 0)
    (reported : scanner.isEofReported = true) (fuel : Nat) :
    scanner.next (fuel + 2) = .ok (.ok (scanner.bearing.eof (V := V)), scanner) := by
  have rounded : scanner.round (fuel + 1) = .ok (.ok (.eof scanner.bearing.eof), scanner) := by
    simp [round, empty, fillMore, exhausted, finish, reported, Bearing.eof, bearing]
  rw [next, rounded]
  rfl

theorem eq_of_next_rests {fuel : Nat} {answer : Except StreamFault (Token V)}
    {after : Scanner σ φ U ε} (exhausted : scanner.isExhausted = true)
    (empty : scanner.window.length = 0) (reported : scanner.isEofReported = true)
    (answered : scanner.next fuel = .ok (answer, after)) :
    answer = .ok scanner.bearing.eof ∧ after = scanner := by
  cases fuel with
  | zero => cases answered
  | succ fuel =>
    cases fuel with
    | zero =>
      rw [next, round, if_pos empty] at answered
      cases answered
    | succ fuel =>
      rw [next_rests scanner exhausted empty reported] at answered
      cases answered
      exact ⟨rfl, rfl⟩

end

/-- Whether a call has nothing to do with the source. -/
def Operation.isAside : Operation σ φ → Bool
  | .setCondition _ | .install .. => true
  | .openSource .. | .next | .close => false

/-- What a scanner holds is what the calls made so far have left it: the source that is open, and
nothing more to read behind the end of the input. -/
structure Accords (symbol : Nat) (calls : List (Call (Tracked σ) (Observed φ) U V (Deed ⊕ ε)))
    (scanner : Scanner (Tracked σ) (Observed φ) U (Deed ⊕ ε)) : Prop where
  checked : scanner.lexicon.Checked
  intact : scanner.Intact
  eofSymbol : scanner.eofSymbol = symbol
  journal : scanner.journal = #[]
  kept : Kept (calls.flatMap Call.deeds) scanner.custody calls.length
  holds : ∀ mark, scanner.custody.map Prod.fst = some mark ↔ IsOpen mark calls
  reported : scanner.isEofReported = true ↔ ∃ token, IsEnded symbol token calls
  rests : ∀ token, IsEnded symbol token calls →
    scanner.isExhausted = true ∧ scanner.window.length = 0 ∧ token = scanner.bearing.eof

/-- The call that was made, by the scanner behind it. -/
def made (operation : Operation (Tracked σ) (Observed φ))
    (answer? : Option (Except StreamFault (Token V)))
    (after : Scanner (Tracked σ) (Observed φ) U (Deed ⊕ ε)) :
    Call (Tracked σ) (Observed φ) U V (Deed ⊕ ε) :=
  ⟨operation, answer?, after.takeJournal.1, after.position⟩

/-- What comes of one call. -/
def Succeeds (symbol : Nat) (calls : List (Call (Tracked σ) (Observed φ) U V (Deed ⊕ ε)))
    (call : Call (Tracked σ) (Observed φ) U V (Deed ⊕ ε))
    (after : Scanner (Tracked σ) (Observed φ) U (Deed ⊕ ε)) : Prop :=
  Accords symbol (calls ++ [call]) after.takeJournal.2 ∧ call.Orderly symbol calls

namespace Accords

variable {symbol : Nat} {calls : List (Call (Tracked σ) (Observed φ) U V (Deed ⊕ ε))}
  {scanner after : Scanner (Tracked σ) (Observed φ) U (Deed ⊕ ε)}
  {operation : Operation (Tracked σ) (Observed φ)}
  {answer? : Option (Except StreamFault (Token V))}

theorem created {lexicon : Lexicon} (checked : lexicon.Checked)
    (eofSymbol initialBuffer : Nat) (tabWidth : UInt32) :
    Accords eofSymbol ([] : List (Call (Tracked σ) (Observed φ) U V (Deed ⊕ ε)))
      (create lexicon eofSymbol initialBuffer tabWidth) where
  checked := checked
  intact := ⟨⟨Nat.le_refl _, Nat.zero_le _⟩, checked.conditions_pos⟩
  eofSymbol := rfl
  journal := rfl
  kept := .empty 0
  holds _ := ⟨(fun held => by cases held), fun isOpen => (not_since_nil isOpen).elim⟩
  reported := ⟨(fun reported => by cases reported),
    fun ended => (not_since_nil ended.choose_spec).elim⟩
  rests _ ended := (not_since_nil ended).elim

theorem deeds_eq (accords : Accords symbol calls scanner) : scanner.deeds = [] := by
  rw [deeds, told, accords.journal]
  rfl

theorem eofs_eq (accords : Accords symbol calls scanner) : scanner.eofs = [] := by
  rw [eofs, reports, accords.journal]
  rfl

theorem delivers_eq (accords : Accords symbol calls scanner) : scanner.delivers = false := by
  rw [delivers, accords.journal]
  rfl

/-- What a call that opens no source does with the source that is open. -/
theorem custody_step (accords : Accords symbol calls scanner)
    (stays : ¬ (made operation answer? after).opens)
    (courses : ∃ deeds, after.deeds = scanner.deeds ++ deeds ∧
      Courses scanner.custody deeds after.custody)
    (loses : (made operation answer? after).ends → after.source = none)
    (keeps : ¬ (made operation answer? after).ends →
      after.source.isSome = scanner.source.isSome) :
    Kept ((calls ++ [made operation answer? after]).flatMap Call.deeds) after.custody
      (calls ++ [made operation answer? after]).length ∧
    (∀ mark, after.custody.map Prod.fst = some mark ↔
      IsOpen mark (calls ++ [made operation answer? after])) ∧
    ∀ mark, .closed mark ∈ (made operation answer? after).deeds ↔
      IsOpen mark calls ∧ (made operation answer? after).ends := by
  obtain ⟨deeds, told, courses⟩ := courses
  rw [accords.deeds_eq, List.nil_append] at told
  have done : (made operation answer? after).deeds = deeds := told
  have never (goesOn : ¬ (made operation answer? after).ends) (lost : after.custody = none) :
      scanner.custody = none := by
    have gone : after.source = none := Option.map_eq_none_iff.mp lost
    have absent : scanner.source = none := by simpa [gone] using keeps goesOn
    rw [custody, absent, Option.map_none]
  refine ⟨?_, fun mark => ?_, fun mark => ?_⟩
  · rw [List.flatMap_append, List.flatMap_singleton, done, List.length_append]
    exact (accords.kept.courses courses).mono
  · rw [IsOpen, since_concat, ← IsOpen, ← accords.holds mark]
    by_cases ends : (made operation answer? after).ends
    · simp [custody, loses ends, ends, stays]
    · have same : after.custody.map Prod.fst = scanner.custody.map Prod.fst := by
        refine courses.holds.elim (fun lost => ?_) id
        rw [lost, never ends lost]
      simp [same, ends, stays]
  · rw [done, courses.mem_closed_iff, accords.holds mark]
    refine and_congr_right fun isOpen => ⟨fun lost => ?_, fun ends => ?_⟩
    · by_contra goesOn
      have held := (accords.holds mark).mpr isOpen
      rw [never goesOn lost] at held
      cases held
    · rw [custody, loses ends]
      rfl

/-- A call that neither opens a source nor answers the end of the input. -/
theorem silent (accords : Accords symbol calls scanner) (behind : Guarded.Behind scanner after)
    (quiet : Quiet scanner after) (stays : ¬ (made operation answer? after).opens)
    (unanswered : ∀ token, ¬ (made operation answer? after).IsEof symbol token)
    (courses : ∃ deeds, after.deeds = scanner.deeds ++ deeds ∧
      Courses scanner.custody deeds after.custody)
    (loses : (made operation answer? after).ends → after.source = none)
    (keeps : ¬ (made operation answer? after).ends →
      after.source.isSome = scanner.source.isSome)
    (rests : ∀ token, IsEnded symbol token calls → operation ≠ .next ∧
      after.isExhausted = true ∧ after.window.length = 0 ∧ token = after.bearing.eof) :
    Succeeds symbol calls (made operation answer? after) after := by
  have same (token : Token V) : IsEnded symbol token (calls ++ [made operation answer? after]) ↔
      IsEnded symbol token calls := by
    rw [IsEnded, since_concat, ← IsEnded]
    simp [unanswered token, stays]
  have unreported : (made operation answer? after).eofs = [] := quiet.eofs.trans accords.eofs_eq
  obtain ⟨kept, holds, closes⟩ := accords.custody_step stays courses loses keeps
  constructor
  · refine ⟨behind.lexicon ▸ accords.checked, ⟨behind.intact.sound, behind.intact.inForce⟩,
      quiet.eofSymbol.trans accords.eofSymbol, rfl, kept, holds, ?_, ?_⟩
    · exact (quiet.isEofReported ▸ accords.reported).trans
        (exists_congr fun token => (same token).symm)
    · exact fun token ended => (rests token ((same token).mp ended)).2
  · exact ⟨closes, fun token answers => (unanswered token answers).elim,
      fun reported => (reported unreported).elim,
      fun token ended isNext => ((rests token ended).1 isNext).elim⟩

/-- A call that answers the end of the input, the first or another one. -/
theorem answered (accords : Accords symbol calls scanner) (behind : Guarded.Behind scanner after)
    (eofSymbol : after.eofSymbol = symbol) (reported : after.isEofReported = true)
    (exhausted : after.isExhausted = true) (empty : after.window.length = 0)
    (undelivered : after.delivers = false)
    (handles : Handles scanner (.ok () : Except IoFault Unit) after)
    (same : ∀ token, IsEnded symbol token calls → token = after.bearing.eof)
    (reports : after.eofs = if scanner.isEofReported then [] else [after.position])
    (repeats : scanner.isEofReported = true → after.journal = #[]) :
    Succeeds symbol calls (made (V := V) .next (some (.ok after.bearing.eof)) after) after := by
  have stays : ¬ (made (V := V) .next (some (.ok after.bearing.eof)) after).opens := by
    rintro ⟨_, _, ⟨⟩⟩
  have goesOn : ¬ (made (V := V) .next (some (.ok after.bearing.eof)) after).ends := by
    rintro (opens | ⟨⟨⟩⟩ | ⟨_, ⟨⟩⟩)
    exact stays opens
  have answers : (made (V := V) .next (some (.ok after.bearing.eof)) after).IsEof symbol
      after.bearing.eof := ⟨rfl, eofSymbol, rfl, undelivered⟩
  have unreported (ended : ∃ token, IsEnded symbol token calls) : after.eofs = [] ∧
      after.journal = #[] := by
    have was := accords.reported.mpr ended
    exact ⟨reports.trans (if_pos was), repeats was⟩
  obtain ⟨kept, holds, closes⟩ := accords.custody_step stays handles.courses
    (fun ends => (goesOn ends).elim) (fun _ => handles.keeps rfl)
  constructor
  · refine ⟨behind.lexicon ▸ accords.checked, ⟨behind.intact.sound, behind.intact.inForce⟩,
      eofSymbol, rfl, kept, holds, ?_, ?_⟩
    · exact ⟨fun _ => ⟨_, since_concat.mpr (.inl answers)⟩, fun _ => reported⟩
    · refine fun token ended => ⟨exhausted, empty, ?_⟩
      rcases since_concat.mp ended with ⟨⟨⟩, -⟩ | ⟨-, ended⟩
      · rfl
      · exact same token ended
  · refine ⟨closes, ?_, ?_, ?_⟩
    · rintro _ ⟨⟨⟩, -⟩ unended
      have first : ¬ scanner.isEofReported = true := fun was => by
        obtain ⟨token, ended⟩ := accords.reported.mp was
        exact unended token ended
      exact reports.trans (if_neg first)
    · exact fun reported => ⟨⟨_, answers⟩,
        fun token ended => reported (unreported ⟨token, ended⟩).1⟩
    · intro token ended _
      rw [same token ended]
      exact ⟨rfl, congrArg Array.toList (unreported ⟨token, ended⟩).2⟩

/-- The first call that answers the end of the input. -/
theorem finished {spent : Scanner (Tracked σ) (Observed φ) U (Deed ⊕ ε)}
    (accords : Accords symbol calls scanner)
    (unended : ¬∃ token : Token V, IsEnded symbol token calls)
    (behind : Guarded.Behind scanner (spent.finish (V := V)).2) (quiet : Quiet scanner spent)
    (undelivered : spent.delivers = scanner.delivers)
    (exhausted : spent.isExhausted = true) (empty : spent.window.length = 0)
    (handles : Handles scanner (.ok () : Except IoFault Unit) (spent.finish (V := V)).2) :
    Succeeds symbol calls (made .next (some (.ok (spent.bearing.eof (V := V))))
      (spent.finish (V := V)).2) (spent.finish (V := V)).2 := by
  have unreported : ¬ scanner.isEofReported = true := mt accords.reported.mp unended
  have frame := finish_frame (V := V) spent
  have eof : spent.bearing.eof = (spent.finish (V := V)).2.bearing.eof (V := V) := by
    rw [bearing_finish]
    rfl
  rw [eof]
  refine accords.answered behind ?_ ?_ ?_ ?_
    ((delivers_finish spent).trans (undelivered.trans accords.delivers_eq)) handles
    (fun token was => (unended ⟨token, was⟩).elim) ?_ fun was => (unreported was).elim
  · rw [frame]
    exact quiet.eofSymbol.trans accords.eofSymbol
  · rw [frame]
  · rw [frame]
    exact exhausted
  · rw [frame]
    exact empty
  · rw [eofs_finish, quiet.isEofReported, quiet.eofs, accords.eofs_eq, if_neg unreported,
      if_neg unreported, frame]
    rfl

/-- A call that has nothing to do with the source. -/
theorem aside (accords : Accords symbol calls scanner) (idle : operation.isAside = true)
    (frame : after = { scanner with
      factories := after.factories
      condition := after.condition
      journal := after.journal })
    (inForce : after.condition < scanner.lexicon.conditions)
    (undone : after.deeds = scanner.deeds) (untold : after.eofs = scanner.eofs) :
    Succeeds (V := V) symbol calls (made operation none after) after := by
  have stays : ¬ (made (V := V) operation none after).opens := by
    rintro ⟨source, file, opens⟩
    rw [show operation = .openSource source file from opens] at idle
    cases idle
  have waits : operation ≠ .next := by
    rintro rfl
    cases idle
  have goesOn : ¬ (made (V := V) operation none after).ends := by
    rintro (opens | closes | ⟨_, ⟨⟩⟩)
    · exact stays opens
    · rw [show operation = .close from closes] at idle
      cases idle
  have source : after.source = scanner.source := by rw [frame]
  have isExhausted : after.isExhausted = scanner.isExhausted := by rw [frame]
  have window : after.window = scanner.window := by rw [frame]
  have lexicon : after.lexicon = scanner.lexicon := by rw [frame]
  have eof : after.bearing.eof (V := V) = scanner.bearing.eof := by
    rw [frame]
    rfl
  have handles : Handles scanner (.ok () : Except IoFault Unit) after :=
    .of_same undone source isExhausted
  refine accords.silent ⟨⟨?_, ?_⟩, lexicon⟩ ⟨?_, ?_, untold⟩ stays ?_ handles.courses
    (fun ends => (goesOn ends).elim) (fun _ => handles.keeps rfl) ?_
  · exact window ▸ accords.intact.sound
  · exact lexicon ▸ inForce
  · rw [frame]
  · rw [frame]
  · rintro _ ⟨⟨⟩, -⟩
  · intro token ended
    obtain ⟨exhausted, empty, same⟩ := accords.rests token ended
    exact ⟨waits, isExhausted.trans exhausted, window ▸ empty, same.trans eof.symm⟩

theorem setCondition (accords : Accords symbol calls scanner) (condition : Nat) :
    Succeeds (V := V) symbol calls
      (made (.setCondition condition) none (scanner.setCondition condition).2)
      (scanner.setCondition condition).2 := by
  have known : scanner.switched (some condition) < scanner.lexicon.conditions := by
    rw [switched]
    split
    next known => exact known
    next => exact accords.intact.inForce
  rw [setCondition_snd]
  exact accords.aside rfl rfl known rfl rfl

theorem install (accords : Accords symbol calls scanner) (token : Nat) (observed : Observed φ) :
    Succeeds (V := V) symbol calls
      (made (.install token observed) none (scanner.setFactory token observed))
      (scanner.setFactory token observed) := by
  rw [setFactory]
  split
  next => exact accords.aside rfl rfl accords.intact.inForce rfl rfl
  next =>
    have noted : Quiet scanner (scanner.note (.unknownToken token scanner.factories.size)) :=
      quiet_note rfl
    exact accords.aside rfl rfl accords.intact.inForce
      ((told_note _ scanner _).trans (List.append_nil _)) noted.eofs

section
variable [UnitSource σ U ε]

theorem close (accords : Accords symbol calls scanner) :
    Succeeds (V := V) symbol calls (made .close none scanner.close) scanner.close := by
  have frame := close_frame scanner
  have gone : scanner.close.source = none := by rw [frame]
  have exhausted : scanner.close.isExhausted = true := by rw [frame]
  have window : scanner.close.window = scanner.window := by rw [frame]
  have bearing : scanner.close.bearing = scanner.bearing := by
    rw [frame]
    rfl
  have ends : (made (V := V) .close none scanner.close).ends := .inr (.inl rfl)
  refine accords.silent ⟨?_, congrArg Bearing.lexicon bearing⟩ quiet_close ?_ ?_ ?_
    (fun _ => gone) (fun goesOn => (goesOn ends).elim) ?_
  · exact accords.intact.of_bearing (window ▸ accords.intact.sound) bearing
  · rintro ⟨_, _, ⟨⟩⟩
  · rintro _ ⟨⟨⟩, -⟩
  · have dropped : scanner.close.custody = none := by rw [custody, gone, Option.map_none]
    exact dropped ▸ close_courses scanner
  · intro token ended
    obtain ⟨-, empty, same⟩ := accords.rests token ended
    exact ⟨(fun waits => by cases waits), exhausted, window ▸ empty, bearing ▸ same⟩

variable [ScanUnit U]

/-- A source that is opened is held from then on, and nothing is told of its end yet. -/
theorem openSource (accords : Accords symbol calls scanner) (source : σ) (file : Option String) :
    Succeeds (V := V) symbol calls
      (made (.openSource ⟨calls.length, source⟩ file) none
        (scanner.openSource ⟨calls.length, source⟩ file))
      (scanner.openSource ⟨calls.length, source⟩ file) := by
  generalize named : made (V := V) (.openSource ⟨calls.length, source⟩ file) none
    (scanner.openSource ⟨calls.length, source⟩ file) = call
  have opens : call.opens := by
    rw [← named]
    exact ⟨_, _, rfl⟩
  have unanswered (token : Token V) : ¬ call.IsEof symbol token := by
    rw [← named]
    rintro ⟨⟨⟩, -⟩
  have unended (token : Token V) : ¬ IsEnded symbol token (calls ++ [call]) := fun ended => by
    rcases since_concat.mp ended with answers | ⟨goesOn, -⟩
    · exact unanswered token answers
    · exact goesOn opens
  have untold : call.eofs = [] := by
    rw [← named]
    exact quiet_close.eofs.trans accords.eofs_eq
  obtain ⟨deeds, told, courses⟩ := close_courses scanner
  rw [accords.deeds_eq, List.nil_append] at told
  have done : call.deeds = deeds := by
    rw [← named]
    exact told
  have bearing := bearing_openSource scanner ⟨calls.length, source⟩ file
  have ready : (scanner.openSource ⟨calls.length, source⟩ file).Ready :=
    ready_openSource accords.checked
  constructor
  · refine ⟨ready.checked, ⟨Window.sound_reset _ _, ready.inForce⟩,
      (congrArg Bearing.eofSymbol bearing).trans accords.eofSymbol, rfl, ?_, fun mark => ?_,
      ⟨(fun reported => by cases reported),
        fun ended => (unended ended.choose ended.choose_spec).elim⟩,
      fun token ended => (unended token ended).elim⟩
    · rw [List.flatMap_append, List.flatMap_singleton, done, List.length_append]
      exact (accords.kept.courses courses).opens
    · rw [IsOpen, since_concat]
      have ends : call.ends := .inl opens
      simp only [opens, ends, and_true, not_true_eq_false, false_and, or_false]
      exact Option.some_inj
  · refine ⟨fun mark => ?_, fun token answers => (unanswered token answers).elim,
      fun reported => (reported untold).elim, fun token _ isNext => ?_⟩
    · rw [done, courses.mem_closed_iff, accords.holds mark]
      exact and_congr_right fun _ => ⟨fun _ => .inl opens, fun _ => rfl⟩
    · rw [← named] at isNext
      cases isNext

variable [TokenFactory φ U V ε]

theorem next {fuel : Nat} {answer : Except StreamFault (Token V)}
    (accords : Accords symbol calls scanner) (answers : scanner.next fuel = .ok (answer, after)) :
    Succeeds symbol calls (made .next (some answer) after) after := by
  have stays : ¬ (made .next (some answer) after).opens := by
    rintro ⟨_, _, ⟨⟩⟩
  by_cases ended : ∃ token, IsEnded symbol token calls
  · -- The end was answered before: the scanner rests.
    have reported := accords.reported.mpr ended
    obtain ⟨exhausted, empty, -⟩ := accords.rests _ ended.choose_spec
    obtain ⟨rfl, rfl⟩ := eq_of_next_rests exhausted empty reported answers
    exact accords.answered ⟨accords.intact, rfl⟩ accords.eofSymbol reported exhausted empty
      accords.delivers_eq (.of_same rfl rfl rfl)
      (fun token ended => (accords.rests token ended).2.2)
      (accords.eofs_eq.trans (if_pos reported).symm) fun _ => accords.journal
  · have unended (token : Token V) (was : IsEnded symbol token calls) : False := ended ⟨token, was⟩
    obtain ⟨takes, behind⟩ := next_takes accords.checked accords.intact answers
    have handles := takes.handles
    cases takes.concludes with
    | @failed _ fault quiet =>
      have ends : (made (V := V) .next (some (.error fault)) after).ends :=
        .inr (.inr ⟨fault, rfl⟩)
      refine accords.silent behind quiet stays ?_ handles.courses
        (fun _ => (handles.loses rfl).2) (fun goesOn => (goesOn ends).elim)
        fun token was => (unended token was).elim
      rintro _ ⟨⟨⟩, -⟩
    | @delivered _ token quiet delivers =>
      refine accords.silent behind quiet stays ?_ handles.courses ?_ (fun _ => handles.keeps rfl)
        fun token was => (unended token was).elim
      · rintro _ ⟨⟨⟩, -, -, undelivered⟩
        cases delivers.symm.trans undelivered
      · rintro (opens | ⟨⟨⟩⟩ | ⟨_, ⟨⟩⟩)
        exact (stays opens).elim
    | @ended spent quiet undelivered exhausted empty =>
      exact accords.finished ended behind quiet undelivered exhausted empty (handles.congr rfl)

theorem perform {fuel : Nat} (accords : Accords symbol calls scanner)
    (performed : scanner.perform fuel operation = .ok (answer?, after))
    (marked : operation = operation.erase.track calls.length) :
    Succeeds symbol calls (made operation answer? after) after := by
  cases operation with
  | openSource source file =>
    obtain ⟨mark, source⟩ := source
    cases Except.ok.inj performed
    cases marked
    exact accords.openSource source file
  | next =>
    obtain ⟨⟨answer, last⟩, answered, performed⟩ := bind_eq_ok_iff.mp performed
    cases Except.ok.inj performed
    exact accords.next answered
  | setCondition condition =>
    cases Except.ok.inj performed
    exact accords.setCondition condition
  | install token observed =>
    cases Except.ok.inj performed
    exact accords.install token observed
  | close =>
    cases Except.ok.inj performed
    exact accords.close

end

end Accords

/-! ## Any sequence of calls -/

section
variable {symbol : Nat} {before calls : List (Call (Tracked σ) (Observed φ) U V (Deed ⊕ ε))}
  {scanner last : Scanner (Tracked σ) (Observed φ) U (Deed ⊕ ε)}

theorem Performs.accords [ScanUnit U] [UnitSource σ U ε] [TokenFactory φ U V ε]
    (performs : scanner.Performs calls last) (accords : Accords symbol before scanner)
    (marked : Marked before.length calls) :
    Accords symbol (before ++ calls) last ∧ ∀ earlier call later,
      calls = earlier ++ call :: later → call.Orderly symbol (before ++ earlier) := by
  induction performs generalizing before with
  | done =>
    refine ⟨by rwa [List.append_nil], fun earlier call later same => ?_⟩
    cases List.append_eq_nil_iff.mp same.symm |>.2
  | @call _ middle _ _ operation answer? calls performed _ ih =>
    obtain ⟨operates, marked⟩ := marked
    obtain ⟨behind, orderly⟩ := accords.perform performed operates
    obtain ⟨ends, others⟩ := ih behind (by rwa [List.length_append])
    refine ⟨by rwa [List.append_cons], fun earlier call later same => ?_⟩
    cases earlier with
    | nil =>
      cases same
      rwa [List.append_nil]
    | cons first earlier =>
      obtain ⟨rfl, rfl⟩ := List.cons.inj same
      rw [List.append_cons]
      exact others earlier call later rfl

/-- Calls that are orderly report the end of the input once at most while no source is opened, and
not at all behind the call that answered it. -/
theorem eofs_once {span after : List (Call (Tracked σ) (Observed φ) U V (Deed ⊕ ε))}
    (each : ∀ earlier call later, before ++ (span ++ after) = earlier ++ call :: later →
      call.Orderly symbol earlier) (stays : ∀ call ∈ span, ¬ call.opens) :
    ((∃ token, IsEnded symbol token before) → span.flatMap Call.eofs = []) ∧
      (span.flatMap Call.eofs).length ≤ 1 := by
  induction span generalizing before with
  | nil => exact ⟨fun _ => rfl, Nat.zero_le 1⟩
  | cons call span ih =>
    have orderly := each before call (span ++ after) rfl
    obtain ⟨goesOn, still⟩ := List.forall_mem_cons.mp stays
    have further : ∀ earlier item later,
        before ++ [call] ++ (span ++ after) = earlier ++ item :: later →
          item.Orderly symbol earlier := by simpa using each
    obtain ⟨silent, once⟩ := ih further still
    rw [List.flatMap_cons]
    constructor
    · rintro ⟨token, ended⟩
      have untold : call.eofs = [] := by
        by_contra told
        exact (orderly.silent told).2 token ended
      rw [untold, silent ⟨token, since_concat.mpr (.inr ⟨goesOn, ended⟩)⟩]
      rfl
    · by_cases told : call.eofs = []
      · rwa [told]
      · obtain ⟨⟨token, answers⟩, unended⟩ := orderly.silent told
        rw [orderly.reports token answers unended,
          silent ⟨token, since_concat.mpr (.inl answers)⟩]
        exact Nat.le_refl 1

theorem Call.delivers_erase (call : Call (Tracked σ) (Observed φ) U V (Deed ⊕ ε)) :
    call.erase.delivers = call.delivers := by
  rw [delivers, erase, eraseAll, List.any_filterMap, delivers]
  refine List.any_congr rfl fun notice => ?_
  cases notice with
  | noted note => cases note <;> rfl
  | _ => rfl

theorem IsEnded.of_erase {token : Token V}
    (ended : IsEnded symbol token (calls.map Call.erase)) : IsEnded symbol token calls := by
  obtain ⟨before, call, between, same, answers, still⟩ := ended
  obtain ⟨front, back, rfl, rfl, behind⟩ := List.map_eq_append_iff.mp same
  obtain ⟨first, rest, rfl, rfl, rfl⟩ := List.map_eq_cons_iff.mp behind
  obtain ⟨answered, number, position, undelivered⟩ := answers
  refine ⟨front, first, rest, rfl,
    ⟨answered, number, position, first.delivers_erase ▸ undelivered⟩, ?_⟩
  rintro later member ⟨source, file, opens⟩
  exact still later.erase (List.mem_map_of_mem member)
    ⟨source.source, file, congrArg Operation.erase opens⟩

end

section
variable [ScanUnit U] [UnitSource σ U ε] [TokenFactory φ U V ε]

/-- Whatever calls a client makes over a table that passes the check, and whatever its sources and
factories answer, no source is used after its end or given up twice, and the end of the input is
reported once.  Behind it the same token is answered for good. -/
theorem performs_clean {lexicon : Lexicon} (accepted : lexicon.check = .ok ())
    (eofSymbol initialBuffer : Nat) (tabWidth : UInt32) {calls : List (Call σ φ U V ε)}
    {last : Scanner σ φ U ε}
    (performs : (create lexicon eofSymbol initialBuffer tabWidth).Performs calls last) :
    (∃ (tracked : List (Call (Tracked σ) (Observed φ) U V (Deed ⊕ ε)))
        (behind : Scanner (Tracked σ) (Observed φ) U (Deed ⊕ ε)),
      (create lexicon eofSymbol initialBuffer tabWidth).Performs tracked behind ∧
      Marked 0 tracked ∧ tracked.map Call.erase = calls ∧ behind.erase = last ∧
      Clean eofSymbol tracked) ∧
    ∀ token, IsEnded eofSymbol token calls →
      ∀ fuel, last.next (fuel + 2) = .ok (.ok token, last) := by
  have checked := Lexicon.check_eq_ok_iff.mp accepted
  have plain : erase (create lexicon eofSymbol initialBuffer tabWidth :
      Scanner (Tracked σ) (Observed φ) U (Deed ⊕ ε)) =
        create lexicon eofSymbol initialBuffer tabWidth := by
    simp [erase, create, eraseAll]
  obtain ⟨tracked, behind, tracks, marked, rfl, rfl⟩ := performs.tracked 0 _ plain
  obtain ⟨accords, each⟩ :=
    tracks.accords (.created checked eofSymbol initialBuffer tabWidth) marked
  refine ⟨⟨tracked, behind, tracks, marked, rfl, rfl, accords.kept.orderly, each, ?_⟩, ?_⟩
  · rintro before span after rfl stays
    exact (eofs_once (by simpa using each) stays).2
  · intro token ended fuel
    obtain ⟨exhausted, empty, rfl⟩ := accords.rests token ended.of_erase
    exact next_rests behind.erase exhausted empty
      (accords.reported.mpr ⟨_, ended.of_erase⟩) fuel

end

/-- Calls with two sources.  The first reads no units before its script is done; its end is answered
three times, the last of them behind `close`.  The second fails. -/
def reopening : List (Operation (Script UInt8) Calculator.Spelling) :=
  [.openSource (.ofSteps [.read [1, 2], .line [1], .claim 0 [], .read [1]]) none,
    .install 0 .blank, .next, .next, .next, .close, .next,
    .openSource (.ofSteps [.small 40, .failure .endOfInput]) none, .next, .next]

theorem performs_clean_reopening : lookahead.check = .ok () ∧
    ∃ (calls : List (Call (Script UInt8) Calculator.Spelling UInt8 Int64 Empty))
      (last : Scanner (Script UInt8) Calculator.Spelling UInt8 Empty),
      (create lookahead 9 0 8).Performs calls last ∧
      calls.map Call.eofs = [[], [], [], [⟨1, 4⟩], [], [], [], [], [], [⟨1, 1⟩]] ∧
      ∃ tracked : List (Call (Tracked (Script UInt8)) (Observed Calculator.Spelling) UInt8 Int64
        (Deed ⊕ Empty)), tracked.map Call.erase = calls ∧ Clean 9 tracked := by
  have accepted : lookahead.check = .ok () := by decide +kernel
  have reported : ((create lookahead 9 0 8 : Scanner (Script UInt8) Calculator.Spelling UInt8
      Empty).performAll 40 reopening).toOption.map (·.1.map Call.eofs) =
        some [[], [], [], [⟨1, 4⟩], [], [], [], [], [], [⟨1, 1⟩]] := by decide +kernel
  cases performed : (create lookahead 9 0 8 : Scanner (Script UInt8) Calculator.Spelling UInt8
      Empty).performAll 40 reopening with
  | error why => simp [performed, Except.toOption] at reported
  | ok result =>
    obtain ⟨calls, last⟩ := result
    rw [performed] at reported
    have performs := performs_of_performAll performed
    obtain ⟨⟨tracked, -, -, -, same, -, clean⟩, -⟩ := performs_clean accepted 9 0 8 performs
    exact ⟨accepted, calls, last, performs, Option.some.inj reported, tracked, same, clean⟩

/-- What is done to the two sources, call by call. -/
example : ((create lookahead 9 0 8 : Scanner (Tracked (Script UInt8))
    (Observed Calculator.Spelling) UInt8 (Deed ⊕ Empty)).performAll 40
      (reopening.mapIdx Operation.track)).toOption.map (·.1.map Call.deeds) =
    some [[], [], [.asked 0 false, .asked 0 false, .consulted 0, .asked 0 true], [], [],
      [.closed 0], [], [], [.asked 7 false, .asked 7 true, .closed 7], []] := by
  decide +kernel

end TableDriven.Scanner
