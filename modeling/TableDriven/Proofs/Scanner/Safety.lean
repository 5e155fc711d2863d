import TableDriven.Proofs.Scanner.Guarded
import TableDriven.Proofs.Scanner.Longest

/-! # Safe scanners

On a checked table no guard of a scan ever fails, whatever the source claims and whatever the
factories decide: the guarded program is the scanner's own (`Guarded.next_agrees`).  The calls of a
client leave the scanner intact, so this holds behind any of them (`safe_of_check`).
-/

namespace TableDriven.Scanner

open Run (require require_bind Agree)

namespace Guarded

variable [ScanUnit U] {scanner : Scanner σ φ U ε}

section
variable {recognition : Array Nat} {trail : Trail U}

theorem splitFrom_eq (sound : scanner.window.Sound) (stands : trail.text <+: scanner.window.units)
    (records : Records recognition trail) (context state : Nat) :
    splitFrom scanner recognition context trail.length state =
      scanner.lexicon.splitFrom context state trail := by
  induction trail generalizing state with
  | nil => rfl
  | cons entry shorter ih =>
    obtain ⟨unit, code⟩ := entry
    rw [Trail.text_cons] at stands
    have found : scanner.window.units[shorter.length]? = some unit := by
      obtain ⟨rest, whole⟩ := stands
      simp [← whole]
    have before := (List.prefix_append _ _).trans stands
    simp only [List.length_cons, splitFrom, Lexicon.splitFrom, records.lookup_eq,
      unitAt_eq sound found, ok_bind, List.isEmpty_iff, List.length_eq_zero_iff]
    cases scanner.lexicon.retreat? state unit with
    | error why => rfl
    | ok next =>
      cases next with
      | none => rfl
      | some next => simp only [ok_bind, ih before records.shorter]

theorem matchLength_eq (sound : scanner.window.Sound) (stands : trail.text <+: scanner.window.units)
    (records : Records recognition trail) (token : Nat) :
    matchLength scanner recognition trail.length token = scanner.matchLength trail token := by
  cases found : scanner.lexicon.context? token with
  | error why => simp only [matchLength, Scanner.matchLength, found, error_bind]
  | ok context =>
    simp only [matchLength, Scanner.matchLength, found, ok_bind]
    cases context with
    | none => rfl
    | some context => simp only [Lexicon.split, splitFrom_eq sound stands records]

variable [TokenFactory φ U V ε]

omit [ScanUnit U] in
theorem intact_of_rules {token length : Nat} {choice : Option (Choice V)}
    {after : Scanner σ φ U ε} (rules : scanner.Rules token length choice after)
    (checked : scanner.lexicon.Checked) (intact : scanner.Intact) : after.Intact :=
  ⟨rules.window_eq ▸ intact.sound, (rules.ready ⟨checked, intact.inForce⟩).inForce⟩

omit [ScanUnit U] in
theorem consult_eq {token length : Nat} (checked : scanner.lexicon.Checked)
    (intact : scanner.Intact) (within : length ≤ scanner.window.length)
    (known : token < scanner.lexicon.tokenCount) :
    consult scanner token length = scanner.consult (V := V) token length := by
  obtain ⟨choice, after, consulted, rules⟩ := consult_ok (V := V) length known
  rw [consult, require_bind ⟨intact, within⟩, consulted, ok_bind]
  exact require_bind (intact_of_rules rules checked intact) _

variable {start state : Nat} {tokens : List Nat}

theorem offer_eq (checked : scanner.lexicon.Checked) (intact : scanner.Intact)
    (known : ∀ token ∈ tokens, token < scanner.lexicon.tokenCount)
    (traced : scanner.lexicon.Traced start trail state)
    (begins : start < scanner.lexicon.forward.stateCount) (nonempty : trail ≠ [])
    (stands : trail.text <+: scanner.window.units) (records : Records recognition trail) :
    offer recognition trail.length tokens scanner =
      Scanner.offer (V := V) trail tokens scanner := by
  induction tokens generalizing scanner with
  | nil => rfl
  | cons token tokens ih =>
    have here := known token (.head _)
    have others : ∀ token ∈ tokens, token < scanner.lexicon.tokenCount :=
      fun token member => known token (.tail _ member)
    obtain ⟨found, fits, short⟩ :=
      matchLength_ok ⟨checked, intact.inForce⟩ here traced begins nonempty
    simp only [offer, Scanner.offer, matchLength_eq intact.sound stands records, fits, ok_bind]
    cases found with
    | none => exact ih checked intact others traced begins stands
    | some length =>
      have within : length ≤ scanner.window.length := by
        have whole := stands.length_le
        rw [Trail.length_text, intact.sound.length_units] at whole
        exact (short length rfl).2.trans whole
      obtain ⟨choice, after, consulted, rules⟩ := consult_ok (V := V) length here
      simp only [consult_eq checked intact within here, consulted, ok_bind]
      cases choice with
      | some taken => rfl
      | none =>
        have same := rules.lexicon_eq
        exact ih (same ▸ checked) (intact_of_rules rules checked intact) (same ▸ others)
          (same ▸ traced) (same ▸ begins) (rules.window_eq ▸ stands)

theorem select_eq (checked : scanner.lexicon.Checked) (intact : scanner.Intact)
    (traced : scanner.lexicon.Traced start trail state)
    (begins : start < scanner.lexicon.forward.stateCount)
    (stands : trail.text <+: scanner.window.units) (records : Records recognition trail) :
    select recognition trail.length scanner = Scanner.select (V := V) trail scanner := by
  generalize fixed : scanner.lexicon = lexicon at checked traced begins
  induction traced generalizing scanner with
  | start => rfl
  | @step shorter middle state unit traced goes ih =>
    have whole := Lexicon.Traced.step traced goes
    have ready : scanner.Ready := ⟨fixed ▸ checked, intact.inForce⟩
    obtain ⟨code, coded, below⟩ := checked.forward.code_ok (whole.state_lt checked begins)
    obtain ⟨tokens, listed, known⟩ := checked.forward.tokens_ok below
    simp only [coded, Run.value] at whole stands records ⊢
    have nonempty : (unit, code) :: shorter ≠ [] := List.cons_ne_nil _ _
    have same : offer recognition ((unit, code) :: shorter).length tokens scanner =
        Scanner.offer (V := V) ((unit, code) :: shorter) tokens scanner :=
      offer_eq ready.checked intact (fixed ▸ known) (fixed ▸ whole) (fixed ▸ begins) nonempty
        stands records
    obtain ⟨events, choice, after, offered, tries⟩ := offer_ok (V := V) ready (fixed ▸ known)
      (fixed ▸ whole) (fixed ▸ begins) nonempty
    rw [List.length_cons] at same
    simp only [List.length_cons, select, Scanner.select, records.lookup_eq, fixed, listed, same,
      offered, ok_bind]
    cases choice with
    | some taken => rfl
    | none =>
      obtain ⟨frame, -⟩ := tries.frame
      have window : after.window = scanner.window := by rw [frame]
      have before : shorter.text <+: scanner.window.units :=
        (List.prefix_append _ _).trans (Trail.text_cons unit code shorter ▸ stands)
      exact ih ⟨window ▸ intact.sound, (tries.ready ready).inForce⟩ (window ▸ before)
        records.shorter (by rw [frame, ← fixed])

end

omit [ScanUnit U] in
theorem intact_note (notice : Notice U ε) (intact : scanner.Intact) :
    (scanner.note notice).Intact :=
  ⟨intact.sound, intact.inForce⟩

theorem intact_consume {count : Nat} (intact : scanner.Intact)
    (within : count ≤ scanner.window.length) : (scanner.consume count).2.Intact :=
  ⟨intact.sound.drop within, intact.inForce⟩

/-- A scanner that is intact and has the table of another. -/
structure Behind (before after : Scanner σ φ U ε) : Prop where
  intact : after.Intact
  lexicon : after.lexicon = before.lexicon

omit [ScanUnit U] in
theorem behind_finish (intact : scanner.Intact) : Behind scanner (scanner.finish (V := V)).2 := by
  simp only [finish]
  split
  next => exact ⟨intact, rfl⟩
  next => exact ⟨⟨intact.sound, intact.inForce⟩, rfl⟩

theorem settle_ok {choice : Option (Choice V)} (intact : scanner.Intact)
    (within : choice.elim 1 Choice.length ≤ scanner.window.length) :
    ∃ piece after, settle choice scanner = .ok (piece, after) ∧
      scanner.settle choice = .ok (piece, after) ∧ Behind scanner after := by
  obtain ⟨piece, after, settled, behind⟩ : ∃ piece after,
      scanner.settle choice = .ok (piece, after) ∧ Behind scanner after := by
    cases choice with
    | none =>
      have found : ∃ unit, scanner.window.units[0]? = some unit :=
        ⟨_, List.getElem?_eq_getElem (intact.sound.length_units ▸ within)⟩
      obtain ⟨unit, found⟩ := found
      rw [Scanner.settle, Window.unitAt_eq found]
      exact ⟨_, _, rfl, intact_consume (intact_note _ intact) within, rfl⟩
    | some taken =>
      cases taken with
      | token => exact ⟨_, _, rfl, intact_note _ (intact_consume intact within), rfl⟩
      | discard => exact ⟨_, _, rfl, intact_consume intact within, rfl⟩
  refine ⟨piece, after, ?_, settled, behind⟩
  rw [settle, require_bind ⟨intact, within⟩, settled, ok_bind]
  exact require_bind behind.intact _

variable [TokenFactory φ U V ε]

/-- What both programs choose and consume behind a forward run. -/
theorem select_settle_ok {recognition : Array Nat} {trail : Trail U} {start state : Nat}
    (checked : scanner.lexicon.Checked) (intact : scanner.Intact)
    (traced : scanner.lexicon.Traced start trail state)
    (begins : start < scanner.lexicon.forward.stateCount)
    (stands : trail.text <+: scanner.window.units) (records : Records recognition trail)
    (some : 0 < scanner.window.length) :
    ∃ (choice : Option (Choice V)) (ruled : Scanner σ φ U ε) (piece : Piece U V)
      (after : Scanner σ φ U ε),
      select recognition trail.length scanner = .ok (choice, ruled) ∧
      Scanner.select trail scanner = .ok (choice, ruled) ∧
      settle choice ruled = .ok (piece, after) ∧
      ruled.settle choice = .ok (piece, after) ∧ Behind scanner after := by
  have ready : scanner.Ready := ⟨checked, intact.inForce⟩
  obtain ⟨events, choice, ruled, selected, tries⟩ := select_ok (V := V) ready traced begins
  obtain ⟨frame, -⟩ := tries.frame
  have window : ruled.window = scanner.window := by rw [frame]
  have short : choice.elim 1 Choice.length ≤ ruled.window.length := by
    rw [window]
    cases choice with
    | none => exact some
    | some taken =>
      have fits := (tries.length_ok ready begins traced.along taken rfl).2
      have within := stands.length_le
      rw [Trail.length_text, intact.sound.length_units] at within
      exact fits.trans within
  obtain ⟨piece, after, guarded, settled, behind⟩ :=
    settle_ok ⟨window ▸ intact.sound, (tries.ready ready).inForce⟩ short
  have guard := (select_eq checked intact traced begins stands records).trans selected
  exact ⟨choice, ruled, piece, after, guard, selected, guarded, settled, behind.intact,
    behind.lexicon.trans (by rw [frame])⟩

variable [UnitSource σ U ε]

theorem round_agrees (checked : scanner.lexicon.Checked) (intact : scanner.Intact) (fuel : Nat) :
    Agree (UnitSource.Breaks σ U ε) (fun first second => first = second ∧ Behind scanner second.2)
      (round fuel scanner) (scanner.round (V := V) fuel) := by
  rw [round, Scanner.round, require_bind intact, fillIf_bind]
  refine (fillIfShort_agrees intact (Nat.zero_le _) eq_comm fuel).bind ?_
  rintro ⟨more, filled⟩ _ ⟨rfl, refilled⟩
  have same : filled.lexicon = scanner.lexicon := congrArg Bearing.lexicon refilled.bearing
  have holds := intact.of_bearing refilled.sound refilled.bearing
  cases more with
  | error cause => exact .answered ⟨rfl, holds, same⟩
  | ok more =>
    cases more with
    | false =>
      have ended := behind_finish (V := V) holds
      exact .answered ⟨rfl, ended.intact, ended.lexicon.trans same⟩
    | true =>
      refine (forward_agrees (same ▸ checked) holds fuel).bind ?_
      intro first second follows
      cases follows with
      | @failed cause after sound bearing =>
        have lexicon : after.lexicon = filled.lexicon := congrArg Bearing.lexicon bearing
        exact .answered ⟨rfl, holds.of_bearing sound bearing, lexicon.trans same⟩
      | @reached trail recognition after state sound bearing keeps traced stands records =>
        have lexicon : after.lexicon = filled.lexicon := congrArg Bearing.lexicon bearing
        have whole := lexicon.trans same
        have begins : filled.start < filled.lexicon.forward.stateCount :=
          Ready.start_lt ⟨same ▸ checked, holds.inForce⟩
        have some : 0 < after.window.length := by
          have before := refilled.grows rfl
          rw [← refilled.sound.length_units] at before
          exact sound.length_units ▸ before.trans_le keeps.length_le
        obtain ⟨choice, ruled, piece, last, guard, selected, guarded, settled, behind⟩ :=
          select_settle_ok (V := V) (whole ▸ checked) (holds.of_bearing sound bearing)
            (lexicon ▸ traced) (lexicon ▸ begins) stands records some
        simp only [guard, selected, guarded, settled, ok_bind]
        exact .answered ⟨rfl, behind.intact, behind.lexicon.trans whole⟩

theorem next_agrees (checked : scanner.lexicon.Checked) (intact : scanner.Intact) (fuel : Nat) :
    Agree (UnitSource.Breaks σ U ε) (fun first second => first = second ∧ Behind scanner second.2)
      (next fuel scanner) (scanner.next (V := V) fuel) := by
  induction fuel generalizing scanner with
  | zero => exact .broken (.inl rfl)
  | succ fuel ih =>
    rw [next, Scanner.next]
    refine (round_agrees checked intact fuel).bind ?_
    rintro ⟨answer, after⟩ _ ⟨rfl, behind⟩
    have further : Agree (UnitSource.Breaks σ U ε)
        (fun first second => first = second ∧ Behind scanner second.2)
        (next fuel after) (after.next (V := V) fuel) :=
      (ih (behind.lexicon ▸ checked) behind.intact).mono fun both =>
        ⟨both.1, both.2.intact, both.2.lexicon.trans behind.lexicon⟩
    cases answer with
    | error cause => exact .answered ⟨rfl, behind⟩
    | ok piece =>
      cases piece with
      | token | eof => exact .answered ⟨rfl, behind⟩
      | discarded | unmatched => exact further

end Guarded

/-! ## Calls -/

section
variable [ScanUnit U] [UnitSource σ U ε] [TokenFactory φ U V ε] {lexicon : Lexicon}

/-- The scanners over a table that a client can come to, by any calls. -/
inductive Reachable (lexicon : Lexicon) : Scanner σ φ U ε → Prop where
  | created (eofSymbol initialBuffer : Nat) (tabWidth : UInt32) :
      Reachable lexicon (create lexicon eofSymbol initialBuffer tabWidth)
  | installed {scanner : Scanner σ φ U ε} (reachable : Reachable lexicon scanner) (token : Nat)
      (factory : φ) : Reachable lexicon (scanner.setFactory token factory)
  | opened {scanner : Scanner σ φ U ε} (reachable : Reachable lexicon scanner) (source : σ)
      (file : Option String) : Reachable lexicon (scanner.openSource source file)
  | pulled {scanner after : Scanner σ φ U ε} {fuel : Nat} {answer : Except StreamFault (Token V)}
      (reachable : Reachable lexicon scanner) (answered : scanner.next fuel = .ok (answer, after)) :
      Reachable lexicon after
  | switched {scanner : Scanner σ φ U ε} (reachable : Reachable lexicon scanner)
      (condition : Nat) : Reachable lexicon (scanner.setCondition condition).2
  | closed {scanner : Scanner σ φ U ε} (reachable : Reachable lexicon scanner) :
      Reachable lexicon scanner.close
  | told {scanner : Scanner σ φ U ε} (reachable : Reachable lexicon scanner) :
      Reachable lexicon scanner.takeJournal.2

/-- No call can look outside the buffer or a table.  Every guard of a scan holds, and a scan breaks
down for lack of fuel or where a source does; where the guards let room be made, moving the window
and enlarging the buffer keep its units and leave the room asked for. -/
structure Safe (scanner : Scanner σ φ U ε) : Prop where
  intact : scanner.Intact
  guarded : ∀ fuel, Guarded.next fuel scanner = scanner.next (V := V) fuel
  breaks : ∀ fuel, (scanner.next (V := V) fuel).BreaksOnly (UnitSource.Breaks σ U ε)
  roomy : ∀ (within : Scanner σ φ U ε) (extra : Nat), within.Intact →
    within.window.compact.units = within.window.units ∧
    (within.makeRoom extra).window.units = within.window.units ∧
    extra ≤ (within.makeRoom extra).window.free

theorem Reachable.behind {scanner : Scanner σ φ U ε} (reachable : Reachable lexicon scanner)
    (checked : lexicon.Checked) : scanner.Intact ∧ scanner.lexicon = lexicon := by
  induction reachable with
  | created => exact ⟨⟨⟨Nat.le_refl _, Nat.zero_le _⟩, checked.conditions_pos⟩, rfl⟩
  | @installed scanner _ token factory ih =>
    simp only [setFactory]
    split
    next => exact ⟨⟨ih.1.sound, ih.1.inForce⟩, ih.2⟩
    next => exact ⟨⟨ih.1.sound, ih.1.inForce⟩, ih.2⟩
  | @opened scanner _ source file ih =>
    have ready : (scanner.openSource source file).Ready := ready_openSource (ih.2 ▸ checked)
    have bearing := bearing_openSource scanner source file
    exact ⟨⟨Window.sound_reset _ _, ready.inForce⟩, (congrArg Bearing.lexicon bearing).trans ih.2⟩
  | pulled _ answered ih =>
    obtain ⟨left, -, same, behind⟩ :=
      (answered ▸ Guarded.next_agrees (ih.2 ▸ checked) ih.1 _).of_ok
    exact ⟨behind.intact, behind.lexicon.trans ih.2⟩
  | @switched scanner _ condition ih =>
    simp only [setCondition]
    split
    next known => exact ⟨⟨ih.1.sound, known⟩, ih.2⟩
    next => exact ih
  | @closed scanner _ ih =>
    simp only [close]
    split <;> exact ⟨⟨ih.1.sound, ih.1.inForce⟩, ih.2⟩
  | told _ ih => exact ⟨⟨ih.1.sound, ih.1.inForce⟩, ih.2⟩

/-- Whatever calls a client makes over a table that passes the check, its scanner is safe: no source
and no factory can lead it outside its buffer or its tables. -/
theorem safe_of_check {scanner : Scanner σ φ U ε} (accepted : lexicon.check = .ok ())
    (reachable : Reachable lexicon scanner) : scanner.Safe := by
  have checked := Lexicon.check_eq_ok_iff.mp accepted
  obtain ⟨intact, rfl⟩ := reachable.behind checked
  have agrees := Guarded.next_agrees (V := V) checked intact
  refine ⟨intact, fun fuel => (agrees fuel).eq And.left,
    fun fuel => (agrees fuel).alike.breaksOnly (agrees fuel).breaks, ?_⟩
  intro within extra intact
  obtain ⟨-, keeps, leaves⟩ := Guarded.intact_makeRoom intact extra
  exact ⟨Window.units_compact intact.sound, keeps, leaves⟩

end

/-- A scanner whose source claims more than its buffer holds and then asks for a larger one. -/
def overclaimed : Scanner (Script UInt8) Calculator.Spelling UInt8 Empty :=
  ((create lookahead 9 0 8).setFactory 0 .blank).openSource
    (.ofSteps [.claim 90 [1, 2, 1], .small 40, .read [1, 2]]) none

theorem safe_of_check_overclaimed :
    lookahead.check = .ok () ∧ Reachable lookahead overclaimed ∧
      ∃ answer after, overclaimed.next 40 = .ok (answer, after) ∧
        (after.setCondition 7).2.close.Safe := by
  have accepted : lookahead.check = .ok () := by decide +kernel
  have reachable : Reachable lookahead overclaimed :=
    .opened (.installed (.created 9 0 8) 0 Calculator.Spelling.blank) _ none
  have answers : (overclaimed.next 40).toOption.isSome := by decide +kernel
  refine ⟨accepted, reachable, ?_⟩
  cases answered : overclaimed.next 40 with
  | error why => simp [answered, Except.toOption] at answers
  | ok result =>
    obtain ⟨answer, after⟩ := result
    exact ⟨answer, after, rfl,
      safe_of_check accepted (.closed (.switched (.pulled reachable answered) 7))⟩

end TableDriven.Scanner
