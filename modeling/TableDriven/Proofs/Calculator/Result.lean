import TableDriven.Proofs.Calculator.Sums
import TableDriven.Proofs.Input.Hands

/-! # The calculator computes the right value or says that it did not

A parse of sums ends at every stage and in front of any lexemes (`Concludes`), by an induction over
the lexemes: one that the phase takes is shifted, and an error is repaired in such a way that the
phase takes what stands behind the repair.  `evaluateWith_faithful` is this for a whole input.
-/

namespace TableDriven

open TableDriven.Parser (Report ValueFactory)
open TableDriven.Repair (LeastOf Unambiguous Valid)

namespace Parse

variable {σ ρ φ V ε : Type} [TokenSource σ V ε] [Resolver ρ σ V ε] [ValueFactory φ V ε]
  {parse next : Parse σ ρ φ V ε} {told more : List (Token V × Report)}
  {failed : List (Parser.Notice V ε)} {result : Result V}

/-- A parse ends with a result behind some reports. -/
def EndsWith (parse : Parse σ ρ φ V ε) (told : List (Token V × Report))
    (failed : List (Parser.Notice V ε)) (result : Result V) : Prop :=
  ∃ fuel last, parse.run fuel = .ok (result, last) ∧ last.reports = parse.reports ++ told ∧
    last.failures = parse.failures ++ failed

theorem EndsWith.of_leads (ends : next.EndsWith told failed result) (leads : parse.Leads next)
    (reports : next.reports = parse.reports ++ more) (failures : next.failures = parse.failures) :
    parse.EndsWith (more ++ told) failed result := by
  obtain ⟨fuel, last, ran, reported, wrong⟩ := ends
  obtain ⟨enough, ran⟩ := leads fuel _ ran
  refine ⟨enough, last, ran, ?_, ?_⟩
  · rw [reported, reports, List.append_assoc]
  · rw [wrong, failures]

/-- The recovery from an error is a step. -/
theorem step_of_stuck [LawfulTokenSource σ V ε] {fuel enough : Nat}
    {answer : Option (Result V) × Parse σ ρ φ V ε} (stuck : parse.turn fuel = .ok (.stuck, next))
    (recovered : next.recover enough = .ok answer) :
    parse.step (max fuel enough) = .ok answer :=
  bind_eq_ok_iff.mpr ⟨_, turn_eq_of_le stuck (Nat.le_max_left _ _),
    recover_mono recovered (Nat.le_max_right _ _)⟩

omit [Resolver ρ σ V ε] [ValueFactory φ V ε] in
/-- The end of a parse adds nothing to what was reported, unless the input failed. -/
theorem journal_finish (parse : Parse σ ρ φ V ε)
    (ends : ∀ fault, result = .error fault →
      ∃ symbol position, fault = .unrepairable symbol position) :
    (parse.finish result).reports = parse.reports ∧
      (parse.finish result).failures = parse.failures := by
  have closed : parse.finish result = { parse with stack := [] }.withFeed parse.feed.close := by
    cases result with
    | ok value => rfl
    | error fault =>
      obtain ⟨symbol, position, rfl⟩ := ends fault rfl
      rfl
  have told := (tells_withFeed { parse with stack := [] } parse.feed.close).reports_eq
  rw [closed, told, failures_withFeed, List.append_nil]
  exact ⟨rfl, rfl⟩

end Parse

namespace Calculator

variable {file : Option String} {finish : Position} {rest : List Lexeme} {stage : Stage}

theorem drop_tokenStream {count : Nat} (within : count ≤ rest.length) :
    (tokenStream file finish rest).drop count = tokenStream file finish (rest.drop count) := by
  rw [tokenStream, tokenStream, drop_append_of_le_length _ (by simpa using within), List.map_drop]

/-- The numbers of the tokens ahead. -/
def Ahead (file : Option String) (finish : Position) (rest : List Lexeme)
    (distance number : Nat) : Prop :=
  ((tokenStream file finish rest).get distance).number = number

theorem ahead_iff {distance number : Nat} (within : distance ≤ rest.length) :
    Ahead file finish rest distance number ↔
      (firstToken file finish (rest.drop distance)).number = number := by
  rw [Ahead, ← Stream'.head_drop, drop_tokenStream within, firstToken_eq]

theorem lt_of_ahead {distance number : Nat} (ahead : Ahead file finish rest distance number) :
    number < 3 := by
  subst ahead
  induction rest generalizing distance with
  | nil => exact (by decide : endOfInput < 3)
  | cons lexeme rest ih =>
    cases distance with
    | zero =>
      cases lexeme with
      | integer => exact (by decide : integer < 3)
      | plus => exact (by decide : plus < 3)
    | succ distance => exact ih

theorem Stage.exists_next (lexeme : Lexeme) (takes : stage.phase.takes lexeme.symbol = true) :
    ∃ behind, stage.next lexeme.symbol lexeme.value = some behind := by
  cases lexeme <;> cases stage <;> first | exact ⟨_, rfl⟩ | cases takes

/-- What the least repair of an error at a stage does: it deletes lexemes only, and the phase behind
it takes what comes next. -/
theorem Stage.repaired {repair : Repair}
    (least : LeastOf table (Valid table (Ahead file finish rest) stage.phase.states)
      (some repair)) :
    repair.deletions ≤ rest.length ∧
      ((repair.insertion = .nothing ∧
        stage.phase.takes (firstToken file finish (rest.drop repair.deletions)).number = true) ∨
      ∃ inserted behind, repair.insertion = .single inserted ∧
        stage.next inserted none = some behind ∧
        behind.phase.takes
          (firstToken file finish (rest.drop repair.deletions)).number = true) := by
  have unique : Unambiguous (Ahead file finish rest) :=
    fun distance symbol other shown again => shown.symm.trans again
  obtain ⟨deletes, changes⟩ := Phase.repaired (fun _ _ => lt_of_ahead) unique least
  have within : repair.deletions ≤ rest.length := by
    by_contra beyond
    obtain ⟨symbol, shown, other⟩ := deletes rest.length (by omega)
    rw [ahead_iff (le_refl _), List.drop_length] at shown
    exact other shown.symm
  refine ⟨within, ?_⟩
  obtain ⟨nothing, -, takes⟩ | ⟨inserted, behind, single, goes, takes⟩ := changes
  · exact .inl ⟨nothing, takes _ ((ahead_iff within).mpr rfl)⟩
  · have moves := stage.phase_next inserted none
    rw [goes] at moves
    obtain ⟨after, moved, rfl⟩ := Option.map_eq_some_iff.mp moves
    exact .inr ⟨inserted, after, single, moved, takes _ ((ahead_iff within).mpr rfl)⟩

/-! ## Parses -/

variable {ρ : Type} [Reader ρ] {parse next : Parse (SumScanner ρ) Empty Meaning Int64 ScanNotice}

/-- A parse of sums at a stage, with some lexemes and the end in front of it. -/
structure Stands (file : Option String) (finish : Position) (stage : Stage) (rest : List Lexeme)
    (parse : Parse (SumScanner ρ) Empty Meaning Int64 ScanNotice) : Prop where
  stage : AtStage stage parse
  has : parse.Has endOfInput (fun scanner => ∃ spells, Spells file finish spells scanner)
    (fun sentinel => sentinel = none) (tokenStream file finish rest)

/-- Every parse at a stage in front of some lexemes ends and computes. -/
def Concludes (ρ : Type) [Reader ρ] (file : Option String) (finish : Position) (stage : Stage)
    (rest : List Lexeme) : Prop :=
  ∀ parse : Parse (SumScanner ρ) Empty Meaning Int64 ScanNotice,
    Stands file finish stage rest parse → ∃ told failed result,
      parse.EndsWith told failed result ∧ Computes file finish stage rest told failed result

theorem concludes_accepted (complete : stage.phase.isComplete = true) :
    Concludes ρ file finish stage [] := by
  intro parse stands
  obtain ⟨fuel, last, ran, quiet⟩ := stands.stage.exists_accept stands.has sound_spells rfl complete
  refine ⟨[], [], .ok stage.value, ⟨fuel, last, ran, ?_, ?_⟩, computes_accepted complete⟩
  · rw [quiet.reports, List.append_nil]
  · rw [quiet.failures, List.append_nil]

theorem concludes_shifted {behind : Stage} {lexeme : Lexeme}
    (goes : stage.next lexeme.symbol lexeme.value = some behind)
    (further : Concludes ρ file finish behind rest) :
    Concludes ρ file finish stage (lexeme :: rest) := by
  intro parse stands
  have plain : lexeme.symbol = plus → lexeme.value = none := by
    cases lexeme with
    | integer => exact fun same => absurd same (by decide : integer ≠ plus)
    | plus => exact fun _ => rfl
  obtain ⟨next, leads, ahead, has, quiet⟩ :=
    stands.stage.exists_shift stands.has sound_spells goes plain
  obtain ⟨told, failed, result, ends, computes⟩ := further next ⟨ahead, has⟩
  refine ⟨told, failed, result, ?_, computes.shifted goes⟩
  exact ends.of_leads leads (by rw [quiet.reports, List.append_nil]) quiet.failures

/-- What is reported of a repair at a stream. -/
def reportAt (stream : Stream' (Token Int64)) (repair : Repair) : Report :=
  .ofRepair repair ((stream.take repair.deletions).map Token.number)

theorem deleted_reportAt {repair : Repair} (within : repair.deletions ≤ rest.length) :
    (reportAt (tokenStream file finish rest) repair).deleted =
      (rest.take repair.deletions).map Lexeme.symbol := by
  rw [reportAt, tokenStream, Stream'.take_append_of_le_length _ _ _ (by simpa using within),
    ← List.map_take, Report.ofRepair, List.map_map]
  rfl

/-- An error that cannot be repaired is reported, and any other is repaired in the cheapest way. -/
theorem Stands.recovered (stands : Stands file finish stage rest parse)
    (error : stage.phase.takes (firstToken file finish rest).number = false) :
    (∃ symbol position notice,
      parse.EndsWith [] [notice] (.error (.unrepairable symbol position))) ∨
    ∃ repair next, parse.Leads next ∧ AtStage stage next ∧
      LeastOf table (Valid table (Ahead file finish rest) stage.phase.states) (some repair) ∧
      next.reports = parse.reports ++
        [(firstToken file finish rest, reportAt (tokenStream file finish rest) repair)] ∧
      next.failures = parse.failures ∧
      next.Has endOfInput (fun scanner => ∃ spells, Spells file finish spells scanner)
        (fun sentinel => sentinel = none)
        ((next.inserted (firstToken file finish rest) repair.insertion).reverse ++ₛ
          (tokenStream file finish rest).drop repair.deletions) := by
  have ahead : Ahead file finish rest 0 (tokenStream file finish rest).head.number := rfl
  rw [← firstToken_eq] at error ⊢
  obtain ⟨fuel, stuck, turned, still, has, quiet⟩ :=
    stands.stage.exists_stuck stands.has sound_spells (lt_of_ahead ahead) error
  have reads : stuck.feed.Reads = Ahead file finish rest := by
    funext distance number
    exact propext (has.reads_iff sound_spells)
  have ends : Repair.Ends stuck.table stuck.feed.Reads stuck.states := by
    rw [still.table, still.states, reads]
    exact Phase.ends (fun _ _ => lt_of_ahead) stage.phase
  obtain ⟨found, least, enough, ending, after, recovered, outcome⟩ :=
    has.recover_ok sound_spells still.repairs ends
  have stepped := Parse.step_of_stuck turned recovered
  rw [still.table, still.states, reads] at least
  cases found with
  | none =>
    obtain ⟨rfl, reports, failures⟩ := outcome
    refine .inl ⟨_, _, .unrepaired (tokenStream file finish rest).head, _, after,
      Parse.run_of_ended stepped, ?_, ?_⟩
    · rw [reports, quiet.reports, List.append_nil]
    · rw [failures, quiet.failures]
  | some repair =>
    obtain ⟨rfl, failures, tells, front⟩ := outcome
    refine .inr ⟨repair, after, Parse.leads_of_step stepped, still.tells tells, least, ?_, ?_, ?_⟩
    · rw [tells.reports_eq, quiet.reports]
      rfl
    · rw [failures, quiet.failures]
    · obtain ⟨feed, journal, rfl, -⟩ := tells
      exact front

/-- An error is repaired, and the parse goes on behind the repair; or it is reported. -/
theorem concludes_stuck
    (error : stage.phase.takes (firstToken file finish rest).number = false)
    (further : ∀ count ≤ rest.length, ∀ behind : Stage,
      behind.phase.takes (firstToken file finish (rest.drop count)).number = true →
        Concludes ρ file finish behind (rest.drop count)) :
    Concludes ρ file finish stage rest := by
  intro parse stands
  obtain ⟨symbol, position, notice, ends⟩ | ⟨repair, next, leads, still, least, reports, failures,
    has⟩ := stands.recovered error
  · exact ⟨[], [notice], _, ends, computes_unrepaired error⟩
  obtain ⟨within, changes⟩ := Stage.repaired least
  have size : (reportAt (tokenStream file finish rest) repair).deleted.length =
      repair.deletions := by
    simp [reportAt, Report.ofRepair]
  have deletes : (reportAt (tokenStream file finish rest) repair).deleted = _ :=
    deleted_reportAt within
  rw [← size] at deletes
  rw [drop_tokenStream within] at has
  obtain ⟨nothing, takes⟩ | ⟨inserted, behind, single, goes, takes⟩ := changes
  · rw [nothing] at has
    obtain ⟨told, failed, result, ends, computes⟩ := further _ within stage takes next ⟨still, has⟩
    rw [← size] at computes
    refine ⟨_, failed, result, ends.of_leads leads reports failures,
      computes.repaired error deletes ?_⟩
    simp [reportAt, Report.ofRepair, nothing, Repair.Insertion.symbols]
  · rw [single] at has
    obtain ⟨last, onwards, moved, front, quiet⟩ :=
      still.exists_shift has sound_spells goes fun _ => rfl
    obtain ⟨told, failed, result, ends, computes⟩ :=
      further _ within behind takes last ⟨moved, front⟩
    rw [← size] at computes
    refine ⟨_, failed, result, ends.of_leads (leads.trans onwards) (quiet.reports.trans reports)
      (quiet.failures.trans failures), computes.repaired error deletes ?_⟩
    rw [Stage.value_next goes, add_none]
    simp [reportAt, Report.ofRepair, single, Repair.Insertion.symbols, eq_comm]

/-- **A parse of sums ends and computes**, in front of any lexemes. -/
theorem concludes (stage : Stage) (rest : List Lexeme) : Concludes ρ file finish stage rest := by
  induction size : rest.length using Nat.strong_induction_on generalizing rest stage with
  | _ length ih =>
  -- What the phase takes is shifted, and fewer lexemes are left.
  have taken (stage : Stage)
      (takes : stage.phase.takes (firstToken file finish rest).number = true) :
      Concludes ρ file finish stage rest := by
    cases rest with
    | nil =>
      apply concludes_accepted
      cases stage <;> exact takes
    | cons lexeme rest =>
      obtain ⟨behind, goes⟩ := Stage.exists_next lexeme takes
      exact concludes_shifted goes (ih rest.length (by simp [← size]) behind rest rfl)
  by_cases takes : stage.phase.takes (firstToken file finish rest).number = true
  · exact taken stage takes
  refine concludes_stuck (by simpa using takes) fun count within behind takes => ?_
  obtain rfl | deletes := Nat.eq_zero_or_pos count
  · exact taken behind takes
  · exact ih (rest.drop count).length (by rw [List.length_drop]; omega) behind _ rfl

/-- What a calculation says about the lexemes of its input.  It fails only where an error cannot be
repaired.  A sum has its value, and nothing is reported; of anything else a repair or a failure is
reported, and the value is that of the lexemes that the repairs have left. -/
structure Faithful (file : Option String) (finish : Position) (spells : List Lexeme)
    (result : Parse.Result Int64) (notices : List Notice) : Prop where
  failing : ∀ fault, result = .error fault →
    ∃ symbol position, fault = .unrepairable symbol position
  sum : IsSum spells → notices.filterMap Parser.Notice.report? = [] ∧
    notices.filter Parser.Notice.isFailure = [] ∧
      result = .ok (some (Int64.ofNat (total spells)))
  noted : ¬IsSum spells → notices.filterMap Parser.Notice.report? ≠ [] ∨
    notices.filter Parser.Notice.isFailure ≠ []
  computed : ∀ value, result = .ok value → ∃ left,
    Spares file finish spells (notices.filterMap Parser.Notice.report?) left ∧
      value = worth left (notices.filterMap Parser.Notice.report?)

theorem Computes.faithful {spells : List Lexeme} {told : List (Token Int64 × Report)}
    {failed : List Notice} {result : Parse.Result Int64} {notices : List Notice}
    (computes : Computes file finish .start spells told failed result)
    (reports : notices.filterMap Parser.Notice.report? = told)
    (failures : notices.filter Parser.Notice.isFailure = failed) :
    Faithful file finish spells result notices where
  failing fault ended := (computes.failing fault ended).1
  sum sum := by
    obtain ⟨nothing, mild⟩ := computes.clean (isSum_iff.mp sum)
    refine ⟨reports.trans nothing, failures.trans mild, ?_⟩
    cases ended : result with
    | error fault => exact absurd mild (computes.failing fault ended).2
    | ok value =>
      obtain ⟨left, spares, same⟩ := computes.computed value ended
      obtain rfl : left = spells := by
        rw [nothing] at spares
        exact spares.eq_of_nil
      rw [same, nothing]
      exact congrArg Except.ok (zero_add _)
  noted other := by
    rw [reports, failures]
    rw [isSum_iff, Bool.not_eq_true] at other
    exact computes.noted other
  computed value ended := by
    obtain ⟨left, spares, same⟩ := computes.computed value ended
    rw [reports]
    exact ⟨left, spares, same.trans (zero_add _)⟩

/-- Whatever bytes a reader hands out, in whatever chunks, and however large the buffer is at first,
a calculation ends and says what it must about the lexemes. -/
theorem exists_evaluation {reader : ρ} {bytes : List UInt8} (buffer : Nat) (file : Option String)
    (hands : Reader.Hands reader bytes) :
    ∃ enough result notices,
      (∀ fuel, enough ≤ fuel →
        evaluateWith fuel { initialBuffer := buffer } reader file = .ok (result, notices)) ∧
        Faithful file (behind .origin bytes) (lexemes .origin bytes) result notices := by
  have stands : Stands file (behind .origin bytes) .start (lexemes .origin bytes)
      (.start (parser {}) (feed { initialBuffer := buffer } reader file)) :=
    ⟨⟨rfl, rfl, rfl, rfl⟩, streams_feed buffer file hands.delivers,
      among_feed buffer file hands.delivers⟩
  obtain ⟨told, failed, result, ⟨enough, last, ran, reports, failures⟩, computes⟩ :=
    concludes .start _ _ stands
  obtain ⟨reported, wrong⟩ :=
    last.journal_finish fun fault ended => (computes.failing fault ended).1
  have parsed : (parser {}).parse enough (feed { initialBuffer := buffer } reader file) =
      .ok (result, (last.finish result).toParser, (last.finish result).feed) := by
    rw [Parser.parse, ran]
    rfl
  refine ⟨enough, result, (last.finish result).journal.toList, fun fuel more => ?_,
    computes.faithful (reported.trans reports) (wrong.trans failures)⟩
  have evaluated := Parser.parse_mono parsed more
  change (parser { initialBuffer := buffer }).parse fuel _ = _ at evaluated
  rw [evaluateWith, evaluated]
  rfl

/-- **The calculator computes the right value or says that it did not.**  Whatever bytes a reader
hands out, and in whatever chunks, a calculation ends.  As long as positions fit into words, they
tell which lexemes the repairs have left. -/
theorem evaluateWith_faithful {reader : ρ} {bytes : List UInt8} (file : Option String)
    (hands : Reader.Hands reader bytes) :
    ∃ enough result notices,
      (∀ fuel, enough ≤ fuel → evaluateWith fuel {} reader file = .ok (result, notices)) ∧
        Faithful file (behind .origin bytes) (lexemes .origin bytes) result notices ∧
        (8 * bytes.length + 1 < UInt32.size → ∀ value, result = .ok value →
          value = worth
            (spared (lexemes .origin bytes) (notices.filterMap Parser.Notice.report?))
            (notices.filterMap Parser.Notice.report?)) := by
  obtain ⟨enough, result, notices, ends, faithful⟩ :=
    exists_evaluation Scanner.defaultBuffer file hands
  refine ⟨enough, result, notices, ends, faithful, fun short value ended => ?_⟩
  have roomy : Position.origin.place.Roomy 8 bytes.length :=
    ⟨Nat.le_refl 1, by change 1 + _ < _; omega, by change 1 + _ < _; omega⟩
  obtain ⟨left, spares, same⟩ := faithful.computed value ended
  rwa [spares.eq_spared (onwards_marks roomy).distinct] at same

/-- The text `19 + 23` in chunks of two bytes, with every third call interrupted. -/
theorem evaluateWith_two_summands :
    Reader.Hands
        (⟨[0x31, 0x39, 0x20, 0x2B, 0x20, 0x32, 0x33], some 2, some 3, none, 0⟩ : Memory)
        [0x31, 0x39, 0x20, 0x2B, 0x20, 0x32, 0x33] ∧
      ∃ enough notices, ∀ fuel, enough ≤ fuel → evaluateWith fuel {}
        (⟨[0x31, 0x39, 0x20, 0x2B, 0x20, 0x32, 0x33], some 2, some 3, none, 0⟩ : Memory) none =
          .ok (.ok (some 42), notices) := by
  have hands : Reader.Hands
      (⟨[0x31, 0x39, 0x20, 0x2B, 0x20, 0x32, 0x33], some 2, some 3, none, 0⟩ : Memory)
      [0x31, 0x39, 0x20, 0x2B, 0x20, 0x32, 0x33] := Memory.hands rfl (by decide) (by decide)
  obtain ⟨enough, result, notices, ends, faithful, -⟩ := evaluateWith_faithful none hands
  have spells : lexemes .origin [0x31, 0x39, 0x20, 0x2B, 0x20, 0x32, 0x33] =
      [.integer 19 ⟨1, 1⟩, .plus ⟨1, 4⟩, .integer 23 ⟨1, 6⟩] := by
    cbv
  rw [spells] at faithful
  obtain ⟨-, -, rfl⟩ := faithful.sum (.more 19 _ _ (.last 23 _))
  exact ⟨hands, enough, notices, ends⟩

end Calculator

end TableDriven
