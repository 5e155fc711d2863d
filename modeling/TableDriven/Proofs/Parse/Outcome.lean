import TableDriven.Proofs.Parse.Integrity
import TableDriven.Proofs.Parse.Signals

/-! # How parses end

A parse ends in one of five ways (`Parse.Ending`), and its client is told of the repairs, in order,
and then of the failure, once, if it is one of the input or cannot be repaired.  A failure of a
source or the resolver is the last thing that is met, whatever function of the parser meets it, and
the parse ends with it.  Whatever the end is, the stack is empty, and the feed was read and then
closed, so that every source that it was handed is closed once (`Parser.parse_concludes`).
-/

namespace TableDriven

open TableDriven.Parser
open Feed (Operation Hears Handed Tracked Tracker Deed)

variable {σ ρ φ V ε : Type} [TokenSource σ V ε] [Resolver ρ σ V ε]

/-- The feed that is left when one from a source, of which these calls were made, was read and then
closed, and these notices were taken from it: each source that it was handed is closed once. -/
def Feed.Released (source : σ) (eofSymbol : Nat) (sentinel : Option (Nat × ρ))
    (before : List (Operation σ V)) (notices : Array (Feed.Notice ε)) (left : Feed σ ρ V ε) :
    Prop :=
  ∃ (calls : List (Operation σ V)) (last : Feed σ ρ V ε)
    (tracked : Feed (Tracked σ) (Tracker ρ) V (Deed ⊕ ε)),
    (∀ call ∈ calls, call.Reads) ∧
    (Feed.start source eofSymbol sentinel).Performs (before ++ calls) last ∧
    left.preceded notices = last.close ∧
    (Feed.startTracked source eofSymbol sentinel).Performs (Feed.track 0 (before ++ calls))
      tracked ∧
    tracked.close.Mirrors left ∧
    ∀ origin, Handed before tracked.found origin →
      tracked.close.deeds.count (.closed origin) = 1

theorem Feed.released_close {source : σ} {eofSymbol : Nat} {sentinel : Option (Nat × ρ)}
    {before calls : List (Operation σ V)} {notices : Array (Feed.Notice ε)}
    {last left : Feed σ ρ V ε} (reads : ∀ call ∈ calls, call.Reads)
    (performs : (Feed.start source eofSymbol sentinel).Performs (before ++ calls) last)
    (closed : left.preceded notices = last.close) :
    left.Released source eofSymbol sentinel before notices := by
  obtain ⟨tracked, performed, mirrored⟩ :=
    (mirrors_start source eofSymbol sentinel).performs performs 0
  have custody := ((hasCustody_startTracked source eofSymbol sentinel).performs performed).closed
  refine ⟨calls, last, tracked, reads, performs, closed, performed, ?_, fun origin handed => ?_⟩
  · have mirrors : tracked.close.Mirrors last.close :=
      ⟨rfl, rfl, rfl, mirrored.eof, mirrored.eofSymbol, mirrored.sentinel⟩
    rw [← closed] at mirrors
    exact ⟨mirrors.primary, mirrors.frames, mirrors.queue, mirrors.eof, mirrors.eofSymbol,
      mirrors.sentinel⟩
  · have also : Handed ([] ++ (before ++ calls)) tracked.close.found origin := by
      cases handed with
      | primary => exact .primary
      | stacked there =>
        obtain ⟨inside, -⟩ := List.getElem?_eq_some_iff.mp there
        exact .stacked ((List.getElem?_append_left inside).trans there)
      | resolved earlier => exact .resolved earlier
    obtain held | closed := custody.custody.accounted origin also
    · simp [Feed.held, Feed.close, Feed.noteAll] at held
    · exact custody.custody.orderly.count_closed_eq closed

namespace Parse

variable [ValueFactory φ V ε] {parse begun next : Parse σ ρ φ V ε} {result : Result V}
  {told : List (Notice V ε)} {fuel : Nat}

/-- How a parse ends, and what its client is told of that.  The error that cannot be repaired is
that of the main loop at the next token. -/
inductive Ending (begun : Parse σ ρ φ V ε) : Result V → List (Signal V) → Prop where
  | io (cause : IoFault) : Ending begun (.error (.io cause)) [.ioFailed cause]
  | rejected (text : String) : Ending begun (.error (.rejected text)) [.rejected text]
  | unrepairable {fuel enough : Nat} {token : Token V}
      {last fetched waiting searched : Parse σ ρ φ V ε}
      (reaches : begun.Reaches last) (fetches : last.nextToken enough = .ok (.ok token, fetched))
      (stuck : last.turn fuel = .ok (.stuck, waiting))
      (unfound : waiting.findRepair fuel = .ok (.ok none, searched)) :
      Ending begun (.error (.unrepairable token.number token.position)) [.unrepaired token]
  | table (cause : Misbehaviour) : Ending begun (.error (.table cause)) []
  | accepted (value : Option V) : Ending begun (.ok value) []

/-- These notices tell the client of repairs and then of the end; and among what sources and the
resolver note of their failures, there is behind the repairs the one that the parse ends with, and
no other since the parse began. -/
def Reports (begun : Parse σ ρ φ V ε) (told : List (Notice V ε)) (result : Result V) : Prop :=
  ∃ (repairs : List (Token V × Report)) (ending : List (Signal V)),
    begun.Ending result ending ∧
    told.filterMap (Notice.signal? fun _ => none) =
      repairs.map (fun made => .repaired made.1 made.2) ++ ending ∧
    ∀ read : ε → Option StreamFault, Hears σ ρ V read some →
      told.filterMap (Notice.signal? read) =
        (begun.feed.faults read).map .faulted ++
          repairs.map (fun made => .repaired made.1 made.2) ++ (surfaced? result).toList.map .faulted ++ ending

/-- What a parse reports when it is finished. -/
def lastNotice? : Result V → Option (Notice V ε)
  | .error (.io cause) => some (.ioFailed cause)
  | .error (.rejected text) => some (.rejected text)
  | .error (.unrepairable _ _) | .error (.table _) | .ok _ => none

omit [Resolver ρ σ V ε] [TokenSource σ V ε] [ValueFactory φ V ε] in
theorem filterMap_lastNotice? :
    (lastNotice? result : Option (Notice V ε)).toList.filterMap Notice.fed? = [] := by
  obtain fault | value := result
  · cases fault <;> rfl
  · rfl

omit [Resolver ρ σ V ε] [ValueFactory φ V ε] in
/-- Finishing a parse closes its feed, takes the notices, and reports a failure of the input. -/
theorem finish_eq (parse : Parse σ ρ φ V ε) (result : Result V) :
    (parse.finish result).stack = [] ∧
      (parse.finish result).feed = parse.feed.close.takeJournal.2 ∧
      (parse.finish result).journal.toList = parse.journal.toList ++
        parse.feed.close.journal.toList.map .fed ++ (lastNotice? result).toList := by
  have written : (({ parse with stack := [] }).withFeed parse.feed.close).journal.toList =
      parse.journal.toList ++ parse.feed.close.journal.toList.map .fed := by
    simp [withFeed, Feed.takeJournal, Array.appendList_eq_append]
  obtain fault | value := result
  · cases fault with
    | io | rejected => exact ⟨rfl, rfl, by simp [finish, note, written, lastNotice?]⟩
    | unrepairable | table => exact ⟨rfl, rfl, by simp [finish, written, lastNotice?]⟩
  · exact ⟨rfl, rfl, by simp [finish, written, lastNotice?]⟩

/-- What was said when the parse was left and what is said when it is finished make up the end. -/
theorem Parts.ending {last : Parse σ ρ φ V ε} {said : List (Signal V)}
    (parts : last.Parts result said) (reaches : begun.Reaches last) :
    ∃ ending, begun.Ending result ending ∧
      ∀ (read : ε → Option StreamFault) (heard : StreamFault → Option StreamFault),
        said ++ ((surfaced? result).bind heard).toList.map .faulted ++
            (lastNotice? result).toList.filterMap (Notice.signal? read) =
          ((surfaced? result).bind heard).toList.map .faulted ++ ending := by
  cases parts with
  | hopeless fetches stuck unfound =>
    exact ⟨_, .unrepairable reaches fetches stuck unfound, fun _ _ => rfl⟩
  | failed fault =>
    cases fault with
    | io cause => exact ⟨_, .io cause, fun _ _ => rfl⟩
    | rejected text => exact ⟨_, .rejected text, fun _ _ => rfl⟩
  | table cause => exact ⟨_, .table cause, fun _ _ => rfl⟩
  | accepted value => exact ⟨_, .accepted value, fun _ _ => rfl⟩

theorem reports_of_run (ran : begun.run fuel = .ok (result, next)) :
    ∃ told calls, (next.finish result).journal.toList = begun.journal.toList ++ told ∧
      begun.Reports told result ∧ (∀ call ∈ calls, call.Reads) ∧
      ∀ earlier, ∃ last, (begun.feed.preceded earlier).Performs calls last ∧
        (next.finish result).feed.preceded (earlier ++ (told.filterMap Notice.fed?).toArray) =
          last.close := by
  obtain ⟨repairs, said, last, reaches, parts, told, calls, dealing⟩ := run_deals ran
  obtain ⟨-, left, journal⟩ := finish_eq next result
  obtain ⟨ending, ends, same⟩ := parts.ending reaches
  let closing : List (Notice V ε) := next.feed.close.journal.toList.map .fed
  have signals (read : ε → Option StreamFault) (heard : StreamFault → Option StreamFault)
      (hears : Hears σ ρ V read heard) :
      (told ++ closing ++ (lastNotice? result).toList).filterMap (Notice.signal? read) =
        (begun.feed.faults read).map .faulted ++
          repairs.map (fun made => .repaired made.1 made.2) ++ ((surfaced? result).bind heard).toList.map .faulted ++ ending := by
    have closed : closing.filterMap (Notice.signal? read) =
        (next.feed.faults read).map .faulted := by
      rw [← hears.closed, Feed.faults, List.filterMap_map, List.map_filterMap]
      rfl
    rw [List.filterMap_append, List.filterMap_append, closed, dealing.signals read heard hears]
    simpa using same read heard
  refine ⟨told ++ closing ++ (lastNotice? result).toList, calls, ?_,
    ⟨repairs, ending, ends, ?_, fun read hears => ?_⟩, dealing.reads, fun earlier => ?_⟩
  · rw [journal, dealing.journal]
    simp [closing]
  · have unheard : begun.feed.faults (fun _ => none) = [] := by
      rw [Feed.faults, List.filterMap_eq_nil_iff]
      intro notice _
      cases notice <;> rfl
    simpa [unheard] using signals _ _ Feed.hears_nothing
  · simpa using signals read some hears
  · have taken : (told ++ closing ++ (lastNotice? result).toList).filterMap Notice.fed? =
        told.filterMap Notice.fed? ++ next.feed.close.journal.toList := by
      have fed : closing.filterMap Notice.fed? = next.feed.close.journal.toList := by
        simp [closing, List.filterMap_map, Function.comp_def, Notice.fed?]
      rw [List.filterMap_append, List.filterMap_append, fed, filterMap_lastNotice?, List.append_nil]
    refine ⟨_, dealing.performs earlier, ?_⟩
    have grouped : earlier ++
        (told.filterMap Notice.fed? ++ next.feed.close.journal.toList).toArray =
          earlier ++ (told.filterMap Notice.fed?).toArray ++ next.feed.close.journal := by
      rw [← Array.toList_inj]
      simp
    rw [left, taken, grouped, Feed.close_preceded]
    exact Feed.takeJournal_preceded

end Parse

/-- **Every parse is reported and leaves nothing behind.**  With an accepted table a parse breaks
down for lack of fuel or where a source does.  If it ends, whatever failed and when, the stack is
empty; its notices tell of repairs and then of the end, as one of a failure of the input exactly
if one was met; and of a feed that any calls were made of before, every source was closed once. -/
theorem Parser.parse_concludes [ValueFactory φ V ε] {parser : Parser φ V ε} {feed : Feed σ ρ V ε}
    {source : σ} {eofSymbol : Nat} {sentinel : Option (Nat × ρ)} {before : List (Operation σ V)}
    {earlier : Array (Feed.Notice ε)} (accepted : parser.table.check = .ok ())
    (first : (Feed.start source eofSymbol sentinel).Performs before (feed.preceded earlier)) :
    (∀ fuel, (parser.parse fuel feed).BreaksOnly (TokenSource.Breaks σ V ε)) ∧
      ∀ fuel result after left, parser.parse fuel feed = .ok (result, after, left) →
        after.stack = [] ∧
        ∃ told, after.journal.toList = parser.journal.toList ++ told ∧
          (Parse.start parser feed).Reports told result ∧
          left.Released source eofSymbol sentinel before
            (earlier ++ (told.filterMap Notice.fed?).toArray) := by
  have checked := LrTable.check_eq_ok_iff.mp accepted
  refine ⟨fun fuel => ?_, fun fuel result after left parsed => ?_⟩
  · exact (Parse.run_breaksOnly checked (Parse.sound_start checked) fuel).bind fun _ _ => .ok _
  · obtain ⟨⟨ending, next⟩, ran, parsed⟩ := bind_eq_ok_iff.mp parsed
    cases parsed
    obtain ⟨told, calls, journal, reports, reads, performs⟩ := Parse.reports_of_run ran
    obtain ⟨last, performed, closed⟩ := performs earlier
    exact ⟨(Parse.finish_eq next result).1, told, journal, reports,
      Feed.released_close reads (first.append performed) closed⟩

/-- A source by what it answers to one call after the other, and then its end of file; it notes its
failures. -/
structure Candid where
  answers : List (Except StreamFault (Token Unit))

instance : TokenSource Candid Unit StreamFault where
  next _ candid :=
    match candid.answers with
    | [] => .ok ⟨.ok (.bare LrTable.lists.eof), candid, []⟩
    | answer :: rest => .ok ⟨answer, ⟨rest⟩, (Feed.fault? answer).toList⟩
  close _ := []

/-- A resolver by what it answers to one sentinel after the other; it notes its failures. -/
instance : Resolver (List (Except StreamFault Candid)) Candid Unit StreamFault where
  resolve
    | [], _ => (.error (.rejected "no source"), [], [.rejected "no source"])
    | answer :: rest, _ => (answer, rest, (Feed.fault? answer).toList)

theorem hears_candid :
    Hears Candid (List (Except StreamFault Candid)) Unit (some : StreamFault → _) some where
  next := by
    rintro fuel ⟨answers⟩ pull answered
    cases answers <;> cases answered <;> simp [Feed.fault?]
  close := by simp [TokenSource.close]
  resolve := by
    intro resolver rest token answer notes resolves
    cases resolver <;> cases resolves <;> simp [Feed.fault?]

/-- A repair, and behind it an error at which the search looks into an included source, which
fails. -/
theorem Parser.parse_concludes_candid :
    ∃ (feed left : Feed Candid (List (Except StreamFault Candid)) Unit StreamFault)
      (after : Parser Empty Unit StreamFault) (told : List (Notice Unit StreamFault))
      (token : Token Unit) (report : Report) (fuel : Nat),
      (Parser.create .lists true : Parser Empty Unit StreamFault).parse fuel feed =
        .ok (.error (.io (.told "gone")), after, left) ∧ after.stack = [] ∧
      told.filterMap (Notice.signal? some) =
        [.repaired token report, .faulted (.io (.told "gone")), .ioFailed (.told "gone")] ∧
      ∃ tracked : Feed (Tracked Candid) (Tracker (List (Except StreamFault Candid))) Unit
          (Deed ⊕ StreamFault),
        tracked.close.deeds.count (.closed .primary) = 1 ∧
          tracked.close.deeds.count (.closed (.stacked 0)) = 1 := by
  let parser : Parser Empty Unit StreamFault := .create .lists true
  let gone : StreamFault := .io (.told "gone")
  let primary : Candid :=
    ⟨[.ok (.bare 1), .ok (.bare 0), .ok (.bare 0), .ok (.bare 1), .ok (.bare 3)]⟩
  let resolver : List (Except StreamFault Candid) := [.ok ⟨[.ok (.bare 1), .error gone]⟩]
  let begun : Feed Candid (List (Except StreamFault Candid)) Unit StreamFault :=
    .start primary LrTable.lists.eof (some (3, resolver))
  let feed := begun.includeSource ⟨[.ok (.bare 0)]⟩
  have first : begun.Performs [.stack ⟨[.ok (.bare 0)]⟩] (feed.preceded #[]) := by
    simpa [Feed.preceded] using Feed.performs_of_performAll 1 rfl
  have told : (parser.parse 20 feed).answers (fun answer =>
      Parse.surfaced? answer.1 == some gone &&
        (answer.2.1.journal.toList.filterMap (Notice.signal? some)).length == 3) = true := by
    decide +kernel
  obtain ⟨⟨result, after, left⟩, parsed, told⟩ := Run.exists_of_answers told
  simp only [Bool.and_eq_true, beq_iff_eq] at told
  obtain ⟨surfaced, count⟩ := told
  obtain ⟨empty, told, journal, ⟨repairs, ending, ends, -, signals⟩, _, _, tracked, -, -, -, -, -,
    closed⟩ := (parse_concludes LrTable.check_lists first).2 20 result after left parsed
  have written : after.journal.toList = told := journal
  have tells : told.filterMap (Notice.signal? some) =
      repairs.map (fun made => .repaired made.1 made.2) ++ [.faulted gone] ++ ending := by
    rw [signals some hears_candid, surfaced]
    rfl
  cases ends with
  | io cause =>
    obtain rfl : cause = .told "gone" := by simpa [Parse.surfaced?, gone] using surfaced
    rw [written, tells] at count
    obtain ⟨⟨token, report⟩, rfl⟩ : ∃ made, repairs = [made] :=
      List.length_eq_one_iff.mp (by simpa using count)
    exact ⟨feed, left, after, told, token, report, 20, parsed, empty, tells, tracked,
      closed _ .primary, closed _ (.stacked rfl)⟩
  | rejected | unrepairable | table | accepted => simp [Parse.surfaced?, gone] at surfaced

end TableDriven
