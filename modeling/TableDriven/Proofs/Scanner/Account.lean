import TableDriven.Proofs.Scanner.Turns

/-! # Accounts of a journal

What a scanner did to its source is told by its journal: every failure by a notice of its own, and
every call by the notes that the source makes.  An `Account` reads such things off; it counts
(`Account.Counts`) if it hears the same of every call of the source, the same whenever one is
given up, and nothing of the factories.  Then a run of the scanner is some calls, and a failure and
the end of the source at the end if it fails (`Takes.told`).
-/

namespace TableDriven.Scanner

/-- What is read off the failures and the notes of a journal. -/
structure Account (ε α : Type) where
  failed : IoFault → List α
  noted : ε → List α

def Account.item (account : Account ε α) : Notice U ε → List α
  | .failed cause => account.failed cause
  | .noted note => account.noted note
  | .eof _ | .unmatched .. | .delivered .. | .grown .. | .unknownToken .. => []

/-- What an answer tells of the source: nothing, or that it failed and was given up. -/
def Account.ending (account : Account ε α) (closed : List α) : Except IoFault β → List α
  | .ok _ => []
  | .error cause => account.failed cause ++ closed

/-- What an account tells of a scanner so far. -/
def told (account : Account ε α) (scanner : Scanner σ φ U ε) : List α :=
  scanner.journal.toList.flatMap account.item

section
variable (account : Account ε α) (scanner : Scanner σ φ U ε)

theorem told_note (notice : Notice U ε) :
    (scanner.note notice).told account = scanner.told account ++ account.item notice := by
  simp [told, note]

theorem told_noteAll (notes : List ε) : (scanner.noteAll notes).told account =
    scanner.told account ++ notes.flatMap account.noted := by
  simp [told, noteAll, List.flatMap_map, Account.item, Array.appendList_eq_append]

theorem told_makeRoom [ScanUnit U] (extra : Nat) :
    (scanner.makeRoom extra).told account = scanner.told account := by
  simp only [makeRoom]
  split
  · rfl
  · rw [told_note]
    exact List.append_nil _

theorem told_received (delivery : Delivery σ U ε) : (scanner.received delivery).told account =
    scanner.told account ++ delivery.notes.flatMap account.noted :=
  told_noteAll account _ _

end

variable [UnitSource σ U ε] [TokenFactory φ U V ε] {account : Account ε α} {asked closed : List α}
  {scanner middle after : Scanner σ φ U ε}

/-- Every call of a source tells `asked`, the end of one tells `closed`, and the factories tell
nothing. -/
structure Account.Counts (σ φ : Type) {U V : Type} [UnitSource σ U ε] [TokenFactory φ U V ε]
    (account : Account ε α) (asked closed : List α) : Prop where
  asks : ∀ {fuel room : Nat} {source : σ} {delivery : Delivery σ U ε},
    UnitSource.fill fuel source room = .ok delivery → delivery.notes.flatMap account.noted = asked
  closes : ∀ source : σ, (UnitSource.close (ε := ε) source).2.flatMap account.noted = closed
  rules : ∀ (factory : φ) (candidate : Match U),
    (TokenFactory.consult (ε := ε) factory candidate).2.2.flatMap account.noted = []

/-- From `scanner` to `after` the source was asked some times, and failed if `answer` says so. -/
def Asks (account : Account ε α) (asked closed : List α) (scanner : Scanner σ φ U ε)
    (answer : Except IoFault β) (after : Scanner σ φ U ε) : Prop :=
  ∃ count, after.told account = scanner.told account ++ (List.replicate count asked).flatten ++
    account.ending closed answer

section
variable {answer : Except IoFault β}

omit [UnitSource σ U ε] [TokenFactory φ U V ε] in
theorem Asks.of_eq {value : β} (same : after.told account = scanner.told account) :
    Asks account asked closed scanner (.ok value) after :=
  ⟨0, by simp [same, Account.ending]⟩

omit [UnitSource σ U ε] [TokenFactory φ U V ε] in
theorem Asks.trans {value : γ} (first : Asks account asked closed scanner (.ok value) middle)
    (second : Asks account asked closed middle answer after) :
    Asks account asked closed scanner answer after := by
  obtain ⟨count, begins⟩ := first
  obtain ⟨more, ends⟩ := second
  refine ⟨count + more, ?_⟩
  rw [ends, begins, ← List.replicate_append_replicate, List.flatten_append]
  simp [Account.ending]

omit [UnitSource σ U ε] [TokenFactory φ U V ε] in
theorem Asks.congr {other : Except IoFault γ}
    (asks : Asks account asked closed scanner answer after)
    (same : account.ending closed other = account.ending closed answer) :
    Asks account asked closed scanner other after := by
  rwa [Asks, same]

end

section
variable (counts : account.Counts σ φ asked closed)
include counts

theorem Account.Counts.received {fuel room : Nat} {source : σ} {delivery : Delivery σ U ε}
    (filled : UnitSource.fill fuel source room = .ok delivery) :
    Asks account asked closed scanner (.ok ()) (scanner.received delivery) := by
  refine ⟨1, ?_⟩
  rw [told_received, counts.asks filled]
  simp [Account.ending]

theorem Account.Counts.fail {source : σ} (opened : scanner.source = some source)
    (cause : IoFault) :
    Asks account asked closed scanner (.error cause : Except IoFault β) (scanner.fail cause) := by
  refine ⟨0, ?_⟩
  have left : (scanner.note (.failed cause)).source = some source := opened
  simp only [Scanner.fail, close, left]
  change (noteAll _ _).told account = _
  rw [told_noteAll, counts.closes]
  change (scanner.note (.failed cause)).told account ++ closed = _
  rw [told_note]
  simp [Account.item, Account.ending]

variable [ScanUnit U]

theorem Gathers.told {outcome : Except IoFault Unit} (gathers : Gathers scanner outcome after) :
    Asks account asked closed scanner outcome after := by
  induction gathers with
  | done => exact .of_eq rfl
  | @room narrow _ _ extra _ ih =>
    have roomy : Asks account asked closed narrow (.ok ()) (narrow.makeRoom extra) :=
      .of_eq (told_makeRoom account narrow extra)
    exact roomy.trans ih
  | absent _ _ ih => exact ih
  | asked _ _ filled _ _ _ ih | ended _ _ filled _ _ ih => exact (counts.received filled).trans ih
  | failed _ _ filled cause => exact (counts.received filled).trans (counts.fail rfl cause)

omit [ScanUnit U] in
theorem Rules.told {token length : Nat} {choice : Option (Choice V)}
    (rules : scanner.Rules token length choice after) :
    after.told account = scanner.told account := by
  cases rules with
  | assembled => rfl
  | @ruled factory next ruling notes found ruled =>
    have silent := counts.rules factory (scanner.candidate token length)
    rw [ruled] at silent
    have noted := told_noteAll account scanner notes
    rw [silent, List.append_nil] at noted
    exact noted

theorem Tries.told {tried : List (Nat × Trail U)} {events : List (Event U V)}
    {choice : Option (Choice V)} (tries : Tries tried scanner events choice after) :
    after.told account = scanner.told account := by
  induction tries with
  | done => rfl
  | absent _ _ ih => exact ih
  | rejected _ ruled _ ih => exact ih.trans ((rules_of_consult ruled).told counts)
  | taken _ ruled => exact (rules_of_consult ruled).told counts

omit counts [UnitSource σ U ε] [TokenFactory φ U V ε] in
theorem settle_told {choice : Option (Choice V)} {piece : Piece U V}
    (settled : scanner.settle choice = .ok (piece, after)) :
    after.told account = scanner.told account := by
  cases choice with
  | none =>
    obtain ⟨unit, -, settled⟩ := bind_eq_ok_iff.mp settled
    cases Except.ok.inj settled
    exact (told_note account scanner _).trans (List.append_nil _)
  | some choice =>
    cases choice with
    | token length number value =>
      cases Except.ok.inj settled
      exact (told_note account (scanner.consume length).2 _).trans (List.append_nil _)
    | discard length =>
      cases Except.ok.inj settled
      rfl

omit counts [UnitSource σ U ε] [TokenFactory φ U V ε] [ScanUnit U] in
theorem finish_told (scanner : Scanner σ φ U ε) :
    (scanner.finish (V := V)).2.told account = scanner.told account := by
  simp only [finish]
  split
  · rfl
  · exact (told_note account { scanner with isEofReported := true } _).trans (List.append_nil _)

theorem Turns.told {answer : Except IoFault (Piece U V)} (turns : Turns scanner answer after) :
    Asks account asked closed scanner answer after := by
  cases turns with
  | failed gathers => exact (gathers.told counts).congr rfl
  | @ended spent gathers => exact (gathers.told counts).trans (.of_eq (finish_told spent))
  | scanned gathers tries settled =>
    exact (gathers.told counts).trans (.of_eq ((settle_told settled).trans (tries.told counts)))

/-- What a call for the next token does to the source. -/
theorem Takes.told {answer : Except StreamFault (Token V)} (takes : Takes scanner answer after) :
    ∃ outcome : Except IoFault (Token V), answer = outcome.mapError .io ∧
      Asks account asked closed scanner outcome after := by
  induction takes with
  | @failed _ _ cause turns => exact ⟨.error cause, rfl, (turns.told counts).congr rfl⟩
  | @last _ _ _ token turns => exact ⟨.ok token, rfl, (turns.told counts).congr rfl⟩
  | further turns _ _ ih =>
    obtain ⟨outcome, same, more⟩ := ih
    exact ⟨outcome, same, (turns.told counts).trans more⟩

end

end TableDriven.Scanner
