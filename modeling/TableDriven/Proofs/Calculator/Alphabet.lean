import TableDriven.Proofs.Calculator.Result
import TableDriven.Proofs.Parse.Outcome
import TableDriven.Proofs.Scanner.Tiling

/-! # Inputs of digits, plus signs and blanks

A scanner of sums reports each byte that begins no lexeme.  In an input of digits, plus signs and
blanks there is none, however its chunks are cut: a round ends behind a whole run, so what is left
in front of the scanner is again such an input (`IsPlain.scans`).
-/

namespace TableDriven

namespace Scanner

variable [ScanUnit U] [UnitSource σ U ε] [TokenFactory φ U V ε] {scanner after : Scanner σ φ U ε}
  {input : Content U} {events : List (Event U V)} {piece : Piece U V} {unit : U}
  {position : Position}

omit [ScanUnit U] in
theorem Bearing.unmatched_of_report? {bearing : Bearing φ}
    (told : (bearing.event piece).report? = some (.unmatched unit position)) :
    piece = .unmatched unit := by
  cases piece with
  | unmatched other =>
    cases told
    rfl
  | token | discarded => cases told
  | eof token =>
    simp only [event, Event.report?] at told
    split at told <;> cases told

/-- A round reports no unit unmatched but the one that it skips. -/
theorem Resolved.unmatched_of_mem_reports (resolved : Resolved input scanner events piece after)
    (told : .unmatched unit position ∈ after.reports) :
    .unmatched unit position ∈ scanner.reports ∨ piece = .unmatched unit := by
  cases resolved with
  | ended _ _ _ reports =>
    rw [reports, List.mem_append, Option.mem_toList] at told
    exact told.imp_right Bearing.unmatched_of_report?
  | piece _ _ looks _ tries _ _ _ settled =>
    rw [settled.reports, List.mem_append, Option.mem_toList, tries.frame.2, looks.reports] at told
    exact told.imp_right Bearing.unmatched_of_report?

end Scanner

namespace Calculator

open Scanner (Event Piece)

/-- A byte of a lexeme, or one between lexemes. -/
def isPlain (unit : UInt8) : Bool := isDigit unit || unit == 0x2B || isBlank unit

theorem step?_ne_none {unit : UInt8} (plain : isPlain unit = true) :
    lexicon.step? lexicon.forward 1 unit ≠ none := by
  rw [step?_start]
  rw [isPlain, Bool.or_eq_true, Bool.or_eq_true, beq_iff_eq] at plain
  split
  next => exact Option.some_ne_none _
  next noDigit =>
    split
    next => exact Option.some_ne_none _
    next noSign =>
      rw [if_pos (plain.resolve_left fun begins => begins.elim noDigit noSign)]
      exact Option.some_ne_none _

variable {ρ : Type} [Reader ρ] {scanner after : SumScanner ρ} {reader : ρ} {bytes : List UInt8}

/-- A scanner of sums that has only plain bytes in front of it and has reported none. -/
structure IsPlain (scanner : SumScanner ρ) : Prop where
  reading : ∃ file position units, Reading file position units scanner ∧
    ∀ unit ∈ units, isPlain unit = true
  silent : ∀ unit position, .unmatched unit position ∉ scanner.reports

theorem IsPlain.scans {events : List (Event UInt8 Int64)} {piece : Piece UInt8 Int64}
    (plain : IsPlain scanner) (scans : scanner.Scans events piece after) : IsPlain after := by
  obtain ⟨file, position, units, reading, all⟩ := plain.reading
  obtain ⟨place, rest, still, ⟨shorter, stuck⟩, -⟩ := reading.scanned scans
  refine ⟨⟨file, place, rest, still, fun unit member => all unit (shorter.subset member)⟩, ?_⟩
  intro unit position told
  obtain before | rfl :=
    (scans.resolved reading.has reading.ready).unmatched_of_mem_reports told
  · exact plain.silent unit position before
  · obtain ⟨member, nowhere⟩ := stuck unit rfl
    exact step?_ne_none (all unit member) nowhere

theorem IsPlain.pulls {events : List (Event UInt8 Int64)} {token : Token Int64}
    (plain : IsPlain scanner) (pulls : scanner.Pulls events token after) : IsPlain after := by
  induction pulls with
  | last scans => exact plain.scans scans
  | further scans _ _ ih => exact ih (plain.scans scans)

theorem isPlain_scanner (buffer : Nat) (file : Option String)
    (delivers : UnitSource.Delivers Empty (⟨some reader⟩ : ByteSource ρ) (.ofList bytes))
    (all : ∀ unit ∈ bytes, isPlain unit = true) :
    IsPlain (Calculator.scanner { initialBuffer := buffer } reader file) where
  reading := ⟨file, .origin, bytes, ⟨Scanner.has_openSource _ _ delivers, false,
    Scanner.bearing_openSource _ _ _⟩, all⟩
  silent := by
    intro unit position told
    cases told

/-- No notice of a byte that was skipped. -/
def IsMatched (note : ScanNotice) : Prop := ∀ unit position, note ≠ .unmatched unit position

theorem IsPlain.isMatched (plain : IsPlain scanner) :
    ∀ note ∈ scanner.takeJournal.1, IsMatched note := by
  rintro _ member unit position rfl
  exact plain.silent unit position (List.mem_filterMap.mpr ⟨_, member, rfl⟩)

theorem IsPlain.close (plain : IsPlain scanner) :
    ∀ note ∈ scanner.close.takeJournal.1, IsMatched note := by
  rintro _ member unit position rfl
  have told : .unmatched unit position ∈ scanner.close.reports :=
    List.mem_filterMap.mpr ⟨_, member, rfl⟩
  unfold Scanner.close at told
  split at told
  next => exact plain.silent unit position told
  next =>
    rw [Scanner.reports_noteAll] at told
    exact plain.silent unit position told

/-- Scanners with only plain bytes in front of them skip none. -/
theorem discreet_isPlain :
    Feed.Discreet Empty Int64 (fun scanner : SumScanner ρ => IsPlain scanner) IsMatched where
  next := by
    intro fuel scanner pull plain pulled
    obtain ⟨⟨answer, after⟩, answered, pulled⟩ := bind_eq_ok_iff.mp pulled
    obtain ⟨file, position, units, reading, -⟩ := plain.reading
    obtain ⟨events, token, after, same, pulls⟩ :=
      Scanner.next_sound reading.has reading.ready answered
    cases same
    cases pulled
    have still := plain.pulls pulls
    obtain ⟨file, position, units, reading, all⟩ := still.reading
    refine ⟨⟨⟨file, position, units, ⟨reading.has.congr rfl rfl rfl, reading.bearing⟩, all⟩, ?_⟩,
      still.isMatched⟩
    intro unit position told
    cases told
  close plain := plain.close
  resolve := by rintro ⟨⟩

/-- A calculation on an input of digits, plus signs and blanks reports no byte unmatched. -/
theorem isMatched_of_evaluateWith {buffer fuel : Nat} {file : Option String}
    {result : Parse.Result Int64} {notices : List Notice} (hands : Reader.Hands reader bytes)
    (all : ∀ unit ∈ bytes, isPlain unit = true)
    (evaluated : evaluateWith fuel { initialBuffer := buffer } reader file =
      .ok (result, notices)) :
    ∀ note, .fed (.noted note) ∈ notices → IsMatched note := by
  obtain ⟨⟨ending, after, left⟩, parsed, evaluated⟩ := bind_eq_ok_iff.mp evaluated
  obtain ⟨⟨ending, next⟩, ran, parsed⟩ := bind_eq_ok_iff.mp parsed
  cases parsed
  cases evaluated
  obtain ⟨told, calls, journal, -, reads, performs⟩ := Parse.reports_of_run ran
  obtain ⟨last, performed, closed⟩ := performs #[]
  have begun : ((feed { initialBuffer := buffer } reader file).preceded #[]).IsDiscreet
      (fun scanner => IsPlain scanner) IsMatched := by
    refine ⟨by simp [Feed.preceded, feed, Feed.ofSource], ?_, by
      simp [Feed.preceded, feed, Feed.ofSource]⟩
    rintro _ ⟨⟩
    exact isPlain_scanner buffer file hands.delivers all
  have ended := (begun.performs discreet_isPlain (fun source member =>
    absurd (reads _ member) id) performed).close discreet_isPlain
  rw [← closed] at ended
  intro note member
  have among : .fed (.noted note) ∈ told := by
    rw [← List.nil_append told]
    exact journal ▸ member
  refine ended.notes note ?_
  have fed : Feed.Notice.noted note ∈ told.filterMap Parser.Notice.fed? :=
    List.mem_filterMap.mpr ⟨_, among, rfl⟩
  simp [Feed.preceded, fed]

end Calculator

end TableDriven
