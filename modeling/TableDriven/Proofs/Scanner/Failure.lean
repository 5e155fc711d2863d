import TableDriven.Proofs.Scanner.Account
import TableDriven.Proofs.Scanner.Buffering
import TableDriven.Proofs.Scanner.Failing

/-! # Scans that end by a failure

A scanner whose source hands out some units and then fails makes rounds as any scanner does that
has these units in front of it and others behind them, until it needs a unit that is not there
(`exists_failure`).  The failure is answered once, and from then on all calls answer the end of
file; the source was given up and is not asked again (`scan_ends_by_failure`).
-/

namespace TableDriven.Scanner

variable [ScanUnit U] [UnitSource σ U ε] [TokenFactory φ U V ε]
  {scanner middle after last : Scanner σ φ U ε}

/-- Calls for tokens, one after the other, and what they answer. -/
inductive Answers : Scanner σ φ U ε → List (Except StreamFault (Token V)) → Scanner σ φ U ε →
    Prop where
  | done {scanner : Scanner σ φ U ε} : Answers scanner [] scanner
  | call {scanner middle after : Scanner σ φ U ε} {fuel : Nat}
      {answer : Except StreamFault (Token V)} {answers : List (Except StreamFault (Token V))}
      (answered : scanner.next fuel = .ok (answer, middle)) (rest : Answers middle answers after) :
      Answers scanner (answer :: answers) after

/-- Rounds, one after the other: the tokens that they end in, and all that happens. -/
inductive Rounds : Scanner σ φ U ε → List (Token V) → List (Event U V) → Scanner σ φ U ε →
    Prop where
  | done {scanner : Scanner σ φ U ε} : Rounds scanner [] [] scanner
  | round {scanner middle after : Scanner σ φ U ε} {tokens : List (Token V)}
      {events more : List (Event U V)} {piece : Piece U V}
      (scans : scanner.Scans events piece middle) (rest : Rounds middle tokens more after) :
      Rounds scanner (piece.token?.toList ++ tokens) (events ++ more) after

section
variable {first second answers : List (Except StreamFault (Token V))}

theorem Answers.append (front : scanner.Answers first middle)
    (back : middle.Answers second after) : scanner.Answers (first ++ second) after := by
  induction front with
  | done => exact back
  | call answered _ ih => exact .call answered (ih back)

theorem Answers.split (all : scanner.Answers (first ++ second) after) :
    ∃ middle, scanner.Answers first middle ∧ middle.Answers second after := by
  induction first generalizing scanner with
  | nil => exact ⟨scanner, .done, all⟩
  | cons answer first ih =>
    cases all with
    | call answered rest =>
      obtain ⟨middle, front, back⟩ := ih rest
      exact ⟨middle, .call answered front, back⟩

variable [LawfulUnitSource σ U ε]

/-- A round that ends in no token belongs to the next call. -/
theorem Answers.of_silent {fuel : Nat} {piece : Piece U V} (answers : middle.Answers first after)
    (some : first ≠ []) (rounded : scanner.round fuel = .ok (.ok piece, middle))
    (silent : piece.token? = none) : scanner.Answers first after := by
  cases answers with
  | done => exact absurd rfl some
  | call answered rest => exact .call (next_of_silent rounded silent answered) rest

/-- Of two series of calls, the shorter one is the beginning of the other. -/
theorem Answers.further (front : scanner.Answers first middle)
    (all : scanner.Answers answers last) (within : first.length ≤ answers.length) :
    ∃ rest, answers = first ++ rest ∧ middle.Answers rest last := by
  induction front generalizing answers with
  | done => exact ⟨answers, rfl, all⟩
  | @call scanner next _ fuel _ _ answered _ ih =>
    cases all with
    | done => simp at within
    | @call _ other _ enough _ _ answeredToo rest =>
      have same := Except.ok.inj ((next_mono answered (Nat.le_max_left fuel enough)).symm.trans
        (next_mono answeredToo (Nat.le_max_right fuel enough)))
      cases same
      obtain ⟨rest, same, further⟩ := ih rest (Nat.le_of_succ_le_succ within)
      exact ⟨rest, by rw [same, List.cons_append], further⟩

end

section
variable {account : Account ε α} {asked closed : List α}

/-- What a series of calls that all answer tokens does to the source. -/
theorem Answers.told {tokens : List (Token V)} (counts : account.Counts σ φ asked closed)
    (checked : scanner.lexicon.Checked) (intact : scanner.Intact)
    (answers : scanner.Answers (tokens.map .ok) after) :
    Asks account asked closed scanner (.ok ()) after ∧ Guarded.Behind scanner after := by
  induction tokens generalizing scanner with
  | nil =>
    cases answers
    exact ⟨.of_eq rfl, intact, rfl⟩
  | cons token tokens ih =>
    cases answers with
    | call answered rest =>
      obtain ⟨takes, behind⟩ := next_takes checked intact answered
      obtain ⟨outcome, same, asks⟩ := takes.told counts
      obtain ⟨further, ends⟩ := ih (behind.lexicon ▸ checked) behind.intact rest
      cases outcome with
      | ok => exact ⟨asks.trans further, ends.intact, ends.lexicon.trans behind.lexicon⟩
      | error => cases same

end

section
variable (shut : scanner.Shut)
include shut

theorem Shut.next_eq : ∃ after, (∀ fuel, scanner.next (fuel + 2) =
      .ok (.ok scanner.bearing.eof, after)) ∧ after.Shut ∧
    after.bearing.eof (V := V) = scanner.bearing.eof ∧
    ∀ {α : Type} (account : Account ε α), after.told account = scanner.told account := by
  refine ⟨(scanner.finish (V := V)).2, fun fuel => ?_, ?_, ?_, fun account => finish_told scanner⟩
  · have rounded : scanner.round (fuel + 1) =
        .ok (.ok (.eof (scanner.finish (V := V)).1), (scanner.finish (V := V)).2) := by
      simp [round, shut.window, fillMore, shut.isExhausted]
    rw [next, rounded, finish_fst]
    rfl
  · simp only [finish]
    split
    · exact shut
    · exact ⟨shut.source, shut.isExhausted, shut.window⟩
  · rw [bearing_finish]
    rfl

/-- Calls behind the failure answer the end of file. -/
theorem Shut.answers_ok (count : Nat) :
    ∃ last, scanner.Answers (List.replicate count (.ok (scanner.bearing.eof (V := V)))) last := by
  induction count generalizing scanner with
  | zero => exact ⟨scanner, .done⟩
  | succ count ih =>
    obtain ⟨after, answered, still, eof, -⟩ := shut.next_eq
    obtain ⟨last, answers⟩ := ih still
    exact ⟨last, .call (answered 0) (eof ▸ answers)⟩

theorem Shut.answers_told {count : Nat} {α : Type} (account : Account ε α)
    (answers : scanner.Answers (List.replicate count (.ok (scanner.bearing.eof (V := V)))) last)
    [LawfulUnitSource σ U ε] : last.Shut ∧ last.told account = scanner.told account := by
  induction count generalizing scanner with
  | zero =>
    cases answers
    exact ⟨shut, rfl⟩
  | succ count ih =>
    obtain ⟨after, answered, still, eof, told⟩ := shut.next_eq
    cases answers with
    | @call _ other _ fuel _ _ answeredToo rest =>
      cases (next_mono answeredToo (Nat.le_add_right fuel 2)).symm.trans (answered fuel)
      rw [← eof] at rest
      obtain ⟨lastShut, same⟩ := ih still rest
      exact ⟨lastShut, same.trans (told account)⟩

end

section
variable {tokens more : List (Token V)} {events found : List (Event U V)}

theorem Rounds.append (front : scanner.Rounds tokens events middle)
    (back : middle.Rounds more found after) :
    scanner.Rounds (tokens ++ more) (events ++ found) after := by
  induction front with
  | done => exact back
  | round scans _ ih =>
    rw [List.append_assoc, List.append_assoc]
    exact .round scans (ih back)

theorem Scans.rounds {piece : Piece U V} (scans : scanner.Scans events piece after) :
    scanner.Rounds piece.token?.toList events after := by
  have alone : scanner.Rounds (piece.token?.toList ++ []) (events ++ []) after := .round scans .done
  rwa [List.append_nil, List.append_nil] at alone

theorem Pulls.rounds {token : Token V} (pulls : scanner.Pulls events token after) :
    scanner.Rounds [token] events after := by
  induction pulls with
  | last scans ends =>
    have rounds := scans.rounds
    rwa [ends] at rounds
  | further scans silent _ ih =>
    have rounds := scans.rounds.append ih
    rwa [silent] at rounds

theorem Calls.rounds (calls : scanner.Calls tokens events last) :
    scanner.Rounds tokens events last := by
  induction calls with
  | done => exact .done
  | call _ pulls _ ih => exact pulls.rounds.append ih

variable [LawfulUnitSource σ U ε] {τ : Type} [UnitSource τ U ε] [LawfulUnitSource τ U ε]
  {other final : Scanner τ φ U ε} {input : Content U}

/-- Of what two scanners do that have the same input in front of them, one is an initial part of the
other. -/
theorem Rounds.comparable (rounds : scanner.Rounds tokens events last)
    (others : other.Rounds more found final) (abreast : Abreast input scanner other) :
    (tokens <+: more ∧ events <+: found) ∨ (more <+: tokens ∧ found <+: events) := by
  induction rounds generalizing other more found input with
  | done => exact .inl ⟨List.nil_prefix, List.nil_prefix⟩
  | round scans _ ih =>
    cases others with
    | done => exact .inr ⟨List.nil_prefix, List.nil_prefix⟩
    | round scansToo others =>
      obtain ⟨rfl, rfl, count, rest⟩ := scans.alike scansToo abreast
      simp only [List.prefix_append_right_inj]
      exact ih others rest

end

/-! ## Up to the failure -/

variable {units : List U}

/-- A scan that ends by a failure: calls answer `tokens`, all that happens meanwhile is `events`,
and the call behind them fails in a round that finds no piece.  Any scanner that has the same units
in front of it and no failure behind them does all this, too. -/
structure FailsBehind (units : List U) (scanner : Scanner σ φ U ε) (tokens : List (Token V))
    (events : List (Event U V)) (cause : IoFault) (broken : Scanner σ φ U ε) : Prop where
  answers : scanner.Answers (tokens.map .ok ++ [.error (.io cause)]) broken
  rounds : ∃ (last : Scanner σ φ U ε) (fuel : Nat), scanner.Rounds tokens events last ∧
    last.round fuel = .ok (.error cause, broken)
  shut : broken.Shut
  eofSymbol : broken.eofSymbol = scanner.eofSymbol
  reports : broken.reports = scanner.reports ++ Event.reports events
  follows : ∀ {τ : Type} [UnitSource τ U ε] [LawfulUnitSource τ U ε] {clean : Scanner τ φ U ε}
    {input : Content U}, clean.Has input → clean.bearing = scanner.bearing →
    input.take units.length = units → ∃ last, clean.Rounds tokens events last

variable [LawfulUnitSource σ U ε] {tokens : List (Token V)} {events more : List (Event U V)}
  {cause : IoFault} {broken : Scanner σ φ U ε} {piece : Piece U V}

/-- A round in front of such a scan. -/
theorem FailsBehind.prepend {fuel count : Nat}
    (fails : FailsBehind (units.drop count) after tokens events cause broken)
    (decided : Decided units scanner count more piece after) (ready : scanner.Ready)
    (rounded : scanner.round fuel = .ok (.ok piece, after))
    (scans : scanner.Scans more piece after) :
    FailsBehind units scanner (piece.token?.toList ++ tokens) (more ++ events) cause broken where
  answers := by
    have answers := fails.answers
    cases ends : piece.token? with
    | some token => exact .call (next_of_round rounded ends) answers
    | none => exact answers.of_silent (by simp) rounded ends
  rounds := by
    obtain ⟨last, enough, rounds, failed⟩ := fails.rounds
    exact ⟨last, enough, .round scans rounds, failed⟩
  shut := fails.shut
  eofSymbol := fails.eofSymbol.trans decided.eofSymbol_eq
  reports := by
    rw [fails.reports, decided.reports_eq, Event.reports_append, List.append_assoc]
  follows has bearing front := by
    obtain ⟨next, scansToo, rest, alike⟩ := decided.follows ready has bearing front
    obtain ⟨-, within, -⟩ := decided.rest
    obtain ⟨last, rounds⟩ := fails.follows rest alike (Content.take_drop front within)
    exact ⟨last, .round scansToo rounds⟩

/-- A scanner whose source fails comes to the failure. -/
theorem exists_failure {scanner : Scanner σ φ U ε} (units : List U) (lacks : scanner.Lacks units)
    (ready : scanner.Ready) : ∃ (tokens : List (Token V)) (events : List (Event U V))
      (cause : IoFault) (broken : Scanner σ φ U ε),
      FailsBehind units scanner tokens events cause broken := by
  obtain ⟨fuel, ⟨cause, broken, failed, left⟩ |
    ⟨count, more, piece, after, rounded, scans, decided⟩⟩ := round_fails (V := V) lacks ready
  · have answered : scanner.next (fuel + 1) = .ok (.error (.io cause), broken) := by
      rw [next, failed]
      rfl
    exact ⟨[], [], cause, broken, .call answered .done, ⟨scanner, fuel, .done, failed⟩,
      left.toShut, congrArg Bearing.eofSymbol left.bearing,
      left.reports.trans (List.append_nil _).symm, fun _ _ _ => ⟨_, .done⟩⟩
  · obtain ⟨some, within, rest⟩ := decided.rest
    obtain ⟨tokens, events, cause, broken, fails⟩ :=
      exists_failure (units.drop count) rest (decided.ready ready)
    exact ⟨_, _, cause, broken, fails.prepend decided ready rounded scans⟩
termination_by units.length
decreasing_by
  rw [List.length_drop]
  omega

/-! ## All calls -/

section
variable {account : Account ε α} {asked closed : List α} {eof : Token V}
  {answers : List (Except StreamFault (Token V))}

/-- Calls up to the failure. -/
theorem FailsBehind.before (fails : FailsBehind units scanner tokens events cause broken)
    (calls : scanner.Answers answers last) (within : answers.length ≤ tokens.length) :
    answers = (tokens.take answers.length).map .ok := by
  obtain ⟨rest, same, -⟩ := calls.further fails.answers (by simp; omega)
  have front := congrArg (List.take answers.length) same
  rw [List.take_left, List.take_append_of_le_length (by simpa using within)] at front
  rw [List.map_take, front]

/-- Calls behind the failure. -/
theorem FailsBehind.behind (fails : FailsBehind units scanner tokens events cause broken)
    (calls : scanner.Answers answers last) (beyond : tokens.length < answers.length) :
    ∃ count, answers = tokens.map .ok ++ .error (.io cause) ::
        List.replicate count (.ok broken.bearing.eof) ∧
      broken.Answers (List.replicate count (.ok (broken.bearing.eof (V := V)))) last := by
  obtain ⟨rest, same, further⟩ := fails.answers.further calls (by simpa using beyond)
  obtain ⟨other, ends⟩ := fails.shut.answers_ok (V := V) rest.length
  obtain ⟨none, whole, -⟩ := ends.further further (by simp)
  obtain rfl : none = [] := by simpa using congrArg List.length whole
  rw [List.append_nil] at whole
  refine ⟨rest.length, ?_, whole ▸ further⟩
  rw [← whole, same, List.append_assoc, List.singleton_append]

section
variable (counts : account.Counts σ φ asked closed) (checked : scanner.lexicon.Checked)
  (intact : scanner.Intact)
include counts checked intact

omit [LawfulUnitSource σ U ε] in
/-- What is done to the source up to the failure. -/
theorem FailsBehind.told (fails : FailsBehind units scanner tokens events cause broken) :
    Asks account asked closed scanner (.error cause : Except IoFault Unit) broken := by
  obtain ⟨middle, front, back⟩ := fails.answers.split
  obtain ⟨before, behind⟩ := front.told counts checked intact
  cases back with
  | call answered rest =>
    cases rest
    obtain ⟨takes, -⟩ := next_takes (behind.lexicon ▸ checked) behind.intact answered
    obtain ⟨outcome, same, asks⟩ := takes.told counts
    cases outcome with
    | ok => cases same
    | error =>
      cases same
      exact before.trans (asks.congr rfl)

/-- What is done to the source in any series of calls. -/
theorem FailsBehind.asks (fails : FailsBehind units scanner tokens events cause broken)
    (calls : scanner.Answers answers last) :
    ∃ count, last.told account = scanner.told account ++ (List.replicate count asked).flatten ++
      if tokens.length < answers.length then account.failed cause ++ closed else [] := by
  by_cases beyond : tokens.length < answers.length
  · obtain ⟨count, -, further⟩ := fails.behind calls beyond
    obtain ⟨-, same⟩ := fails.shut.answers_told account further
    obtain ⟨asks, told⟩ := fails.told counts checked intact
    exact ⟨asks, by rw [if_pos beyond, same, told]; rfl⟩
  · have front := fails.before calls (Nat.le_of_not_lt beyond)
    obtain ⟨⟨asks, told⟩, -⟩ := (front ▸ calls).told counts checked intact
    exact ⟨asks, by rw [if_neg beyond, told]; rfl⟩

end

end

end TableDriven.Scanner

namespace TableDriven

/-- What is done to a source. -/
inductive UnitSource.Deed where
  | asked
  | closed
  deriving DecidableEq

namespace Scanner

/-- The failures that were reported. -/
def Account.failures : Account ε IoFault where
  failed cause := [cause]
  noted _ := []

/-- What is done to the source, if its notes say so. -/
def Account.deeds (observe : ε → List UnitSource.Deed) : Account ε UnitSource.Deed where
  failed _ := []
  noted := observe

variable [ScanUnit U] [UnitSource σ U ε] [TokenFactory φ U V ε]

/-- All calls on a scanner whose source fails: they answer `tokens`, then one answers the failure,
and all others the end of file.  The failure is reported once, before it is answered, and the
source is given up once and for all. -/
structure Collapses (opened : Scanner σ φ U ε) (tokens : List (Token V)) (cause : IoFault)
    (eof : Token V) : Prop where
  answers_ok : ∀ count, ∃ (answers : List (Except StreamFault (Token V))) (last : Scanner σ φ U ε),
    opened.Answers answers last ∧ answers.length = count
  before : ∀ {answers : List (Except StreamFault (Token V))} {last : Scanner σ φ U ε},
    opened.Answers answers last → answers.length ≤ tokens.length →
    answers = (tokens.take answers.length).map .ok
  behind : ∀ {answers : List (Except StreamFault (Token V))} {last : Scanner σ φ U ε},
    opened.Answers answers last → tokens.length < answers.length →
    last.source = none ∧ ∃ count, answers =
      tokens.map .ok ++ .error (.io cause) :: List.replicate count (.ok eof)
  failures : ∀ {answers : List (Except StreamFault (Token V))} {last : Scanner σ φ U ε},
    opened.Answers answers last → last.told .failures = opened.told .failures ++
      if tokens.length < answers.length then [cause] else []
  deeds : ∀ {observe : ε → List UnitSource.Deed},
    (Account.deeds observe).Counts σ φ [.asked] [.closed] →
    ∀ {answers : List (Except StreamFault (Token V))} {last : Scanner σ φ U ε},
    opened.Answers answers last → ∃ count, last.told (.deeds observe) =
      opened.told (.deeds observe) ++ List.replicate count .asked ++
        if tokens.length < answers.length then [.closed] else []

variable [LawfulUnitSource σ U ε]

theorem FailsBehind.collapses {opened broken : Scanner σ φ U ε} {units : List U}
    {tokens : List (Token V)} {events : List (Event U V)} {cause : IoFault}
    (fails : FailsBehind units opened tokens events cause broken)
    (checked : opened.lexicon.Checked) (intact : opened.Intact) :
    opened.Collapses tokens cause broken.bearing.eof where
  answers_ok count := by
    obtain ⟨last, ends⟩ := fails.shut.answers_ok (V := V) count
    have all := fails.answers.append ends
    rw [← List.take_append_drop count (_ ++ _)] at all
    obtain ⟨middle, front, -⟩ := all.split
    exact ⟨_, middle, front, by simp; omega⟩
  before := fails.before
  behind calls beyond := by
    obtain ⟨count, same, further⟩ := fails.behind calls beyond
    exact ⟨(fails.shut.answers_told .failures further).1.source, count, same⟩
  failures calls := by
    have counts : Account.Counts σ φ (.failures : Account ε IoFault) [] [] :=
      ⟨fun _ => by simp [Account.failures], fun _ => by simp [Account.failures],
        fun _ _ => by simp [Account.failures]⟩
    obtain ⟨count, told⟩ := fails.asks counts checked intact calls
    simpa [Account.failures] using told
  deeds counts _ _ calls := by
    obtain ⟨count, told⟩ := fails.asks counts checked intact calls
    exact ⟨count, by simpa [Account.deeds] using told⟩

/-- A scan over a source that hands out some units and then fails.  Exactly one call answers the
failure, and all later ones the end of file; the failure is reported once, and the source is given
up once and not asked again.  Whatever stands behind the units, a scan without error begins with
just what happens before the failure. -/
theorem scan_ends_by_failure {source : σ} {units : List U} (scanner : Scanner σ φ U ε)
    (file : Option String) (accepted : scanner.lexicon.check = .ok ())
    (fails : UnitSource.Fails ε source units) :
    ∃ (tokens : List (Token V)) (events : List (Event U V)) (cause : IoFault) (eof : Token V),
      eof.number = scanner.eofSymbol ∧
      (scanner.openSource source file).Collapses tokens cause eof ∧
      (∃ last fuel broken, (scanner.openSource source file).Rounds tokens events last ∧
        last.round fuel = .ok (.error cause, broken) ∧
        broken.reports = (scanner.openSource source file).reports ++ Event.reports events) ∧
      ∀ {τ : Type} [UnitSource τ U ε] [LawfulUnitSource τ U ε] {clean : Scanner τ φ U ε}
        {origin : τ} {input : Content U}, clean.lexicon = scanner.lexicon →
        clean.eofSymbol = scanner.eofSymbol → clean.tabWidth = scanner.tabWidth →
        clean.factories = scanner.factories → UnitSource.Delivers ε origin input →
        input.take units.length = units →
        (∃ last, (clean.openSource origin file).Rounds tokens events last) ∧
        ∀ {others : List (Token V)} {found : List (Event U V)} {final : Scanner τ φ U ε},
          (clean.openSource origin file).Calls others found final →
          tokens.length < others.length → tokens <+: others ∧ events <+: found := by
  have checked := Lexicon.check_eq_ok_iff.mp accepted
  have opening := bearing_openSource scanner source file
  have symbol : (scanner.openSource source file).eofSymbol = scanner.eofSymbol :=
    congrArg Bearing.eofSymbol opening
  have lacks := lacks_openSource scanner file fails
  have ready : (scanner.openSource source file).Ready := ready_openSource checked
  obtain ⟨tokens, events, cause, broken, fails⟩ := exists_failure (V := V) units lacks ready
  obtain ⟨last, fuel, rounds, failed⟩ := fails.rounds
  refine ⟨tokens, events, cause, broken.bearing.eof, fails.eofSymbol.trans symbol,
    fails.collapses ready.checked ⟨lacks.sound, ready.inForce⟩,
    ⟨last, fuel, broken, rounds, failed, fails.reports⟩, ?_⟩
  intro τ _ _ clean origin input lexicon eofSymbol tabWidth factories delivers front
  have has := has_openSource clean file delivers
  have bearing :
      (clean.openSource origin file).bearing = (scanner.openSource source file).bearing := by
    rw [bearing_openSource, bearing_openSource]
    simp only [Scanner.bearing, lexicon, eofSymbol, tabWidth, factories]
  obtain ⟨last, rounds⟩ := fails.follows has bearing front
  refine ⟨⟨last, rounds⟩, fun calls longer => ?_⟩
  have abreast : Abreast input (clean.openSource origin file) (clean.openSource origin file) :=
    ⟨has, has, ready_openSource (lexicon ▸ checked), rfl⟩
  obtain front | ⟨back, -⟩ := rounds.comparable calls.rounds abreast
  · exact front
  · have shorter := back.length_le
    omega

/-- A source that notes what is done to it. -/
structure Watched (σ : Type) where
  source : σ

namespace Watched

variable {σ U : Type} [UnitSource σ U Empty]

def record (delivery : Delivery σ U Empty) : Delivery (Watched σ) U UnitSource.Deed where
  answer := delivery.answer
  written := delivery.written
  rest := ⟨delivery.rest⟩
  notes := [.asked]

instance : UnitSource (Watched σ) U UnitSource.Deed where
  fill fuel watched room := do return record (← UnitSource.fill fuel watched.source room)
  close watched := (⟨(UnitSource.close (ε := Empty) watched.source).1⟩, [.closed])

instance [LawfulUnitSource σ U Empty] : LawfulUnitSource (Watched σ) U UnitSource.Deed where
  fill_mono filled more := by
    obtain ⟨delivery, filled, recorded⟩ := bind_eq_ok_iff.mp filled
    exact bind_eq_ok_iff.mpr ⟨delivery, LawfulUnitSource.fill_mono filled more, recorded⟩

theorem fill_eq {fuel room : Nat} {source : σ} {delivery : Delivery σ U Empty}
    (filled : UnitSource.fill fuel source room = .ok delivery) :
    UnitSource.fill fuel (Watched.mk source) room = .ok (record delivery) :=
  bind_eq_ok_iff.mpr ⟨delivery, filled, rfl⟩

/-- Watching a source does not keep it from failing. -/
theorem fails {source : σ} {units : List U} (fails : UnitSource.Fails Empty source units) :
    UnitSource.Fails UnitSource.Deed (Watched.mk source) units := by
  refine ⟨fun watched units => UnitSource.Fails Empty watched.source units, ⟨?_⟩, fails⟩
  intro watched units room fails free
  obtain ⟨fuel, delivery, filled, falters⟩ := fails.fill_ok free
  refine ⟨fuel, record delivery, fill_eq filled, ?_⟩
  clear filled free
  induction falters with
  | read told some fits enough written goesOn =>
    exact .read told some fits enough written goesOn
  | failed told nothing => exact .failed told nothing
  | insatiable told large nothing => exact .insatiable told large nothing
  | refused told small again _ ih =>
    exact .refused told small (fun offered fits => fill_eq (again offered fits)) ih

end Watched

/-- A scanner of watched sources. -/
def watching : Scanner (Watched (Script UInt8)) Calculator.Spelling UInt8 UnitSource.Deed :=
  (create lookahead 9 0 8).setFactory 0 .blank

theorem scan_ends_by_failure_watching :
    watching.lexicon.check = .ok () ∧
    UnitSource.Fails UnitSource.Deed
      (Watched.mk (Script.ofSteps [.read [1, 2], .line [(1 : UInt8)], .failure .endOfInput]))
      [1, 2, 1] ∧
    (Account.deeds fun deed => [deed]).Counts (Watched (Script UInt8)) Calculator.Spelling
      [.asked] [.closed] ∧
    ∃ tokens cause eof, eof.number = 9 ∧ (watching.openSource
      (Watched.mk (.ofSteps [.read [1, 2], .line [1], .failure .endOfInput])) none).Collapses
      tokens cause eof := by
  have accepted : watching.lexicon.check = .ok () := by decide +kernel
  have hands : ∀ step ∈ [.read [1, 2], .line [(1 : UInt8)]], ScriptStep.units step ≠ [] := by
    decide
  have fails : UnitSource.Fails UnitSource.Deed
      (Watched.mk (Script.ofSteps [.read [1, 2], .line [(1 : UInt8)], .failure .endOfInput]))
      [1, 2, 1] :=
    Watched.fails (Script.fails hands trivial)
  have counts : (Account.deeds fun deed => [deed]).Counts (Watched (Script UInt8))
      Calculator.Spelling [.asked] [.closed] := by
    refine ⟨fun filled => ?_, fun _ => rfl, fun factory _ => by cases factory <;> rfl⟩
    obtain ⟨delivery, -, recorded⟩ := bind_eq_ok_iff.mp filled
    cases Except.ok.inj recorded
    rfl
  obtain ⟨tokens, events, cause, eof, number, collapses, -⟩ :=
    scan_ends_by_failure watching none accepted fails
  exact ⟨accepted, fails, counts, tokens, cause, eof, number, collapses⟩

end Scanner

end TableDriven
