import Mathlib.Data.List.TakeWhile
import TableDriven.Proofs.Binary.Tables
import TableDriven.Proofs.Calculator.Lexemes
import TableDriven.Proofs.Feed.Stream
import TableDriven.Proofs.Scanner.History

/-! # Scanning sums

The calculator's scanner delivers the lexemes of its input and then the end of file, for ever
(`streams_feed`).  A round reads a run of digits, a plus sign or a run of blanks, and takes the
first candidate that the run offers (`Reading.matched`); any other byte begins nothing and is
skipped.
-/

namespace TableDriven

namespace Lexicon

variable [ScanUnit U] {lexicon : Lexicon} {holds : U → Bool} {state : Nat}

/-- Where an automaton stays in its state for units of one kind, and ends at any other, a run takes
all of them. -/
theorem reads_run (stays : ∀ unit, lexicon.step? lexicon.forward state unit =
      if holds unit then some state else none)
    {units : List U} (trail : Trail U) (rest : List U) (read : units = trail.text ++ rest) :
    lexicon.Reads (.ofList units) state trail
      (((rest.takeWhile holds).map (·, (lexicon.forward.code state).value)).reverse ++ trail) := by
  induction rest generalizing trail with
  | nil => exact .ended fun unit found => by simp [read] at found
  | cons unit rest ih =>
    have found : (Stream'.Seq.ofList units).get? trail.length = some unit := by
      rw [Stream'.Seq.ofList_get?, read, ← Trail.length_text]
      simp
    have goes := stays unit
    cases kind : holds unit with
    | false =>
      rw [List.takeWhile_cons_of_neg (by simp [kind])]
      refine .ended fun other seen => ?_
      cases found.symm.trans seen
      simpa [kind] using goes
    | true =>
      rw [List.takeWhile_cons_of_pos kind, List.map_cons, List.reverse_cons, List.append_assoc]
      exact .step found (by simpa [kind] using goes) (ih _ (by rw [read, Trail.text_cons]; simp))

omit [ScanUnit U] in
/-- On such a run the longest match is tried first. -/
theorem attempts_run {code token : Nat} {run : List U} (some : run ≠ [])
    (lists : (lexicon.forward.tokens code).value = [token]) :
    ∃ more, lexicon.attempts (run.map (·, code)).reverse =
      (token, (run.map (·, code)).reverse) :: more := by
  obtain rfl | ⟨front, last, rfl⟩ := List.eq_nil_or_concat run
  · contradiction
  · simp [attempts, lists]

end Lexicon

namespace Scanner

variable [ScanUnit U] [TokenFactory φ U V ε] {scanner after : Scanner σ φ U ε}

/-- A candidate that is not rejected is taken if it is the first. -/
theorem Tries.first {token length : Nat} {part : Trail U} {tried : List (Nat × Trail U)}
    {events : List (Event U V)} {choice : Option (Choice V)}
    (tries : Tries ((token, part) :: tried) scanner events choice after)
    (fits : scanner.matchLength part token = .ok (some length))
    (accepts : ∀ {last}, ¬ scanner.Rules token length (none : Option (Choice V)) last) :
    scanner.Rules token length choice after := by
  cases tries with
  | absent absent => cases fits.symm.trans absent
  | rejected found ruled =>
    cases fits.symm.trans found
    exact absurd (rules_of_consult ruled) accepts
  | taken found ruled =>
    cases fits.symm.trans found
    exact rules_of_consult ruled

end Scanner

namespace Calculator

open Scanner (Bearing Event Piece Resolved Rules)

def isBlank (unit : UInt8) : Bool :=
  unit == 0x20 || unit == 0x09 || unit == 0x0D || unit == 0x0A

theorem step?_start (unit : UInt8) : lexicon.step? lexicon.forward 1 unit =
    if isDigit unit then some 2 else if unit = 0x2B then some 3
    else if isBlank unit then some 4 else none := by
  obtain ⟨⟨number⟩⟩ := unit
  revert number
  decide +kernel

theorem step?_digits (unit : UInt8) : lexicon.step? lexicon.forward 2 unit =
    if isDigit unit then some 2 else none := by
  obtain ⟨⟨number⟩⟩ := unit
  revert number
  decide +kernel

theorem step?_plus (unit : UInt8) : lexicon.step? lexicon.forward 3 unit = none := by
  obtain ⟨⟨number⟩⟩ := unit
  revert number
  decide +kernel

theorem step?_blanks (unit : UInt8) : lexicon.step? lexicon.forward 4 unit =
    if isBlank unit then some 4 else none := by
  obtain ⟨⟨number⟩⟩ := unit
  revert number
  decide +kernel

/-! ## Rounds -/

/-- What a scanner of sums decides by at a position. -/
def bearingAt (file : Option String) (isEofReported : Bool) (position : Position) :
    Bearing Spelling where
  lexicon := lexicon
  eofSymbol := endOfInput
  tabWidth := Scanner.defaultTabWidth
  factories := #[some .numeral, none, some .blank]
  file := file
  isEofReported := isEofReported
  condition := 0
  position := position

/-- What becomes of a run that matches a token. -/
def spelled (token : Nat) (run : List UInt8) : Scanner.Choice Int64 :=
  if token = digitsToken then .token run.length integer (some (numeral run))
  else if token = blanksToken then .discard run.length
  else .token run.length plus none

variable {ρ : Type} [Reader ρ] {file : Option String} {position : Position} {units : List UInt8}
  {scanner middle after : SumScanner ρ}

/-- A scanner of sums at a position, with some bytes in front of it. -/
structure Reading (file : Option String) (position : Position) (units : List UInt8)
    (scanner : SumScanner ρ) : Prop where
  has : scanner.Has (.ofList units)
  bearing : ∃ isEofReported, scanner.bearing = bearingAt file isEofReported position

omit [Reader ρ] in
/-- A candidate is never rejected, and the factories stay what they are. -/
theorem rules_spelled {isEofReported : Bool} {token : Nat} {run : List UInt8}
    {choice : Option (Scanner.Choice Int64)} (rules : scanner.Rules token run.length choice after)
    (bears : scanner.bearing = bearingAt file isEofReported position) (known : token < 3)
    (front : scanner.window.front run.length = run) :
    choice = some (spelled token run) ∧ after.bearing = scanner.bearing := by
  obtain ⟨table, -, -, factories, -, -, -, -⟩ := Bearing.mk.inj bears
  cases rules with
  | assembled alone =>
    refine ⟨?_, rfl⟩
    obtain rfl | rfl | rfl : token = 0 ∨ token = 1 ∨ token = 2 := by omega
    · simp [Scanner.factory?, factories] at alone
    · simp only [Scanner.candidate, table]
      rfl
    · simp [Scanner.factory?, factories] at alone
  | @ruled factory next ruling notes found ruled =>
    obtain rfl | rfl | rfl : token = 0 ∨ token = 1 ∨ token = 2 := by omega
    · obtain rfl : Spelling.numeral = factory := by simpa [Scanner.factory?, factories] using found
      cases ruled
      refine ⟨?_, by simp [Scanner.bearing, Scanner.switched, factories]⟩
      simp only [Scanner.candidate, table, front]
      rfl
    · simp [Scanner.factory?, factories] at found
    · obtain rfl : Spelling.blank = factory := by simpa [Scanner.factory?, factories] using found
      cases ruled
      exact ⟨rfl, by simp [Scanner.bearing, Scanner.switched, factories]⟩

theorem length_spelled (token : Nat) (run : List UInt8) :
    (spelled token run).length = run.length := by
  unfold spelled
  split
  next => rfl
  next => split <;> rfl

theorem Reading.ready (reading : Reading file position units scanner) : scanner.Ready := by
  obtain ⟨isEofReported, bears⟩ := reading.bearing
  have table : scanner.lexicon = lexicon := congrArg Bearing.lexicon bears
  have condition : scanner.condition = 0 := congrArg Bearing.condition bears
  refine ⟨?_, ?_⟩
  · rw [table]
    exact Lexicon.check_eq_ok_iff.mp calculator_lexicon_passes
  · rw [table, condition]
    decide

theorem context?_eq_none {token : Nat} (known : token < 3) :
    lexicon.context? token = .ok none := by
  obtain rfl | rfl | rfl : token = 0 ∨ token = 1 ∨ token = 2 := by omega
  all_goals rfl

section
variable {unit : UInt8} {rest : List UInt8} {holds : UInt8 → Bool} {state token : Nat}
  {events : List (Event UInt8 Int64)} {piece : Piece UInt8 Int64}

/-- The forward run over a run of some kind. -/
theorem Reading.reaches (reading : Reading file position (unit :: rest) scanner)
    (first : lexicon.step? lexicon.forward 1 unit = some state)
    (stays : ∀ unit, lexicon.step? lexicon.forward state unit =
      if holds unit then some state else none) :
    scanner.Reaches (.ofList (unit :: rest)) ((unit :: rest.takeWhile holds).map
      (·, (lexicon.forward.code state).value)).reverse := by
  obtain ⟨isEofReported, bears⟩ := reading.bearing
  have table : scanner.lexicon = lexicon := congrArg Bearing.lexicon bears
  have condition : scanner.condition = 0 := congrArg Bearing.condition bears
  have run := Lexicon.reads_run stays [(unit, (lexicon.forward.code state).value)] rest rfl
  rw [Scanner.Reaches, Scanner.start, table, condition, List.map_cons, List.reverse_cons]
  exact .step rfl first run

/-- A run of some kind is taken as the token that it matches. -/
theorem Reading.matched (reading : Reading file position (unit :: rest) scanner)
    (resolved : Resolved (.ofList (unit :: rest)) scanner events piece after)
    (first : lexicon.step? lexicon.forward 1 unit = some state)
    (stays : ∀ unit, lexicon.step? lexicon.forward state unit =
      if holds unit then some state else none)
    (lists : (lexicon.forward.tokens (lexicon.forward.code state).value).value = [token])
    (known : token < 3) :
    piece = (bearingAt file true position).piece (unit :: rest.takeWhile holds)
        (some (spelled token (unit :: rest.takeWhile holds))) ∧
      Reading file (behind position (unit :: rest.takeWhile holds)) (rest.dropWhile holds)
        after := by
  have run := reading.reaches first stays
  obtain ⟨isEofReported, bears⟩ := reading.bearing
  have table : scanner.lexicon = lexicon := congrArg Bearing.lexicon bears
  cases resolved with
  | ended nothing => simp at nothing
  | @piece looked ruled after trail tried choice something reaches looks within tries ruling _
      full settled =>
    obtain rfl := Lexicon.Reads.unique reaches run
    obtain ⟨more, attempts⟩ := Lexicon.attempts_run
      (List.cons_ne_nil unit (rest.takeWhile holds)) lists
    rw [table, attempts] at tries
    have split : unit :: rest = (unit :: rest.takeWhile holds) ++ rest.dropWhile holds := by
      rw [List.cons_append, List.takeWhile_append_dropWhile]
    generalize unit :: rest.takeWhile holds = read at *
    have still : looked.bearing = bearingAt file isEofReported position := looks.bearing.trans bears
    have front : looked.window.front read.length = read := by
      rw [looks.has.front_eq (by simpa using within), split, Content.take_ofList]
      exact List.take_left
    have fits : looked.matchLength (read.map (·, (lexicon.forward.code state).value)).reverse token
        = .ok (some read.length) := by
      have looks : looked.lexicon = lexicon := congrArg Bearing.lexicon still
      rw [Scanner.matchLength, looks, context?_eq_none known]
      simp
    have rules := tries.first fits fun rules => by
      cases (rules_spelled rules still known front).1
    obtain ⟨rfl, kept⟩ := rules_spelled rules still known front
    have size : Scanner.consumed (some (spelled token read)) = read.length :=
      length_spelled token read
    have taken : (Stream'.Seq.ofList (unit :: rest)).take read.length = read := by
      rw [split, Content.take_ofList]
      exact List.take_left
    have has := settled.has
    have behind := settled.bearing
    rw [size, split, Content.drop_ofList, List.drop_left] at has
    rw [size, taken, kept, still] at behind
    rw [size, taken, kept, still]
    exact ⟨rfl, has, isEofReported, behind⟩

/-- A byte that begins nothing is skipped. -/
theorem Reading.unmatched (reading : Reading file position (unit :: rest) scanner)
    (resolved : Resolved (.ofList (unit :: rest)) scanner events piece after)
    (stuck : lexicon.step? lexicon.forward 1 unit = none) :
    piece = .unmatched unit ∧ Reading file (behind position [unit]) rest after := by
  obtain ⟨isEofReported, bears⟩ := reading.bearing
  have table : scanner.lexicon = lexicon := congrArg Bearing.lexicon bears
  have condition : scanner.condition = 0 := congrArg Bearing.condition bears
  cases resolved with
  | ended nothing => simp at nothing
  | @piece looked ruled after trail tried choice something reaches looks within tries ruling _
      full settled =>
    have none : scanner.Reaches (.ofList (unit :: rest)) [] := by
      rw [Scanner.Reaches, Scanner.start, table, condition]
      refine .ended fun other found => ?_
      cases found
      exact stuck
    obtain rfl := Lexicon.Reads.unique reaches none
    cases tries
    have has := settled.has
    have behind := settled.bearing
    rw [looks.bearing, bears] at behind
    exact ⟨rfl, has, isEofReported, behind⟩

theorem Reading.ended (reading : Reading file position [] scanner)
    (resolved : Resolved (.ofList []) scanner events piece after) :
    piece = .eof ⟨endOfInput, none, file, position⟩ ∧ Reading file position [] after := by
  obtain ⟨isEofReported, bears⟩ := reading.bearing
  cases resolved with
  | piece something => simp at something
  | ended nothing has behind =>
    rw [bears] at behind ⊢
    exact ⟨rfl, has, true, behind⟩

end

/-- The token in front of some lexemes and the end of file at a position. -/
def firstToken (file : Option String) (finish : Position) : List Lexeme → Token Int64
  | [] => ⟨endOfInput, none, file, finish⟩
  | lexeme :: _ => lexeme.token file

theorem no_lexeme_of_isBlank {unit : UInt8} (blank : isBlank unit = true) :
    isDigit unit = false ∧ unit ≠ 0x2B := by
  revert blank
  obtain ⟨⟨number⟩⟩ := unit
  revert number
  decide +kernel

/-- Blanks are no lexemes. -/
theorem lexemes_blanks (position : Position) {blanks : List UInt8} (rest : List UInt8)
    (all : ∀ unit ∈ blanks, isBlank unit = true) :
    lexemes position (blanks ++ rest) = lexemes (behind position blanks) rest := by
  induction blanks generalizing position with
  | nil => rfl
  | cons unit blanks ih =>
    obtain ⟨noDigit, noPlus⟩ := no_lexeme_of_isBlank (all unit (.head _))
    rw [List.cons_append, lexemes.eq_2, if_neg (by simp [noDigit]), if_neg noPlus]
    exact ih _ fun other member => all other (.tail _ member)

theorem lexemes_dropWhile_isBlank (position : Position) (units : List UInt8) :
    lexemes (behind position (units.takeWhile isBlank)) (units.dropWhile isBlank) =
      lexemes position units := by
  rw [← lexemes_blanks position _ fun unit member => List.mem_takeWhile_imp member,
    List.takeWhile_append_dropWhile]

theorem behind_dropWhile (position : Position) (unit : UInt8) (rest : List UInt8)
    (holds : UInt8 → Bool) : behind (behind position (unit :: rest.takeWhile holds))
      (rest.dropWhile holds) = behind position (unit :: rest) := by
  rw [← behind_append, List.cons_append, List.takeWhile_append_dropWhile]

variable {events : List (Event UInt8 Int64)} {piece : Piece UInt8 Int64}

/-- A round takes the next lexeme off the input, or something between the lexemes. -/
theorem Reading.scanned (reading : Reading file position units scanner)
    (scans : scanner.Scans events piece after) :
    ∃ place rest, Reading file place rest after ∧
      (rest <:+ units ∧ ∀ unit, piece = .unmatched unit →
        unit ∈ units ∧ lexicon.step? lexicon.forward 1 unit = none) ∧
      behind place rest = behind position units ∧
      match piece.token? with
      | none => lexemes place rest = lexemes position units
      | some token =>
        token = firstToken file (behind position units) (lexemes position units) ∧
          lexemes place rest = (lexemes position units).tail := by
  have resolved := scans.resolved reading.has reading.ready
  cases units with
  | nil =>
    obtain ⟨rfl, still⟩ := reading.ended resolved
    refine ⟨_, _, still, ⟨List.suffix_rfl, nofun⟩, rfl, ?_, ?_⟩
    all_goals simp [lexemes, firstToken, behind]
  | cons unit rest =>
    have starts := step?_start unit
    have shorter (holds : UInt8 → Bool) : rest.dropWhile holds <:+ unit :: rest :=
      (List.dropWhile_suffix holds).trans (List.suffix_cons unit rest)
    by_cases digit : isDigit unit = true
    · rw [if_pos digit] at starts
      obtain ⟨rfl, still⟩ := reading.matched resolved starts step?_digits rfl (by decide)
      refine ⟨_, _, still, ⟨shorter isDigit, nofun⟩,
        behind_dropWhile position unit rest isDigit, ?_⟩
      have all : ∀ other ∈ unit :: rest.takeWhile isDigit, isDigit other = true := by
        simpa [digit] using fun other member => (List.mem_takeWhile_imp member)
      rw [lexemes.eq_2 position unit rest, if_pos digit]
      refine ⟨?_, rfl⟩
      simp only [firstToken, Lexeme.token, Lexeme.value, Lexeme.number?, Option.map_some,
        ← numeral_eq all]
      rfl
    rw [if_neg digit] at starts
    by_cases sign : unit = 0x2B
    · rw [if_pos sign] at starts
      have stays (unit : UInt8) : lexicon.step? lexicon.forward 3 unit =
          if (fun _ => false) unit then some 3 else none := step?_plus unit
      obtain ⟨rfl, still⟩ := reading.matched resolved starts stays rfl (by decide)
      refine ⟨_, _, still, ⟨shorter _, nofun⟩, behind_dropWhile position unit rest _, ?_⟩
      have alone : rest.takeWhile (fun _ => false) = [] ∧
          rest.dropWhile (fun _ => false) = rest := by
        cases rest <;> simp
      rw [alone.1, alone.2, lexemes.eq_2 position unit rest, if_neg digit, if_pos sign]
      exact ⟨rfl, rfl⟩
    rw [if_neg sign] at starts
    by_cases blank : isBlank unit = true
    · rw [if_pos blank] at starts
      obtain ⟨rfl, still⟩ := reading.matched resolved starts step?_blanks rfl (by decide)
      refine ⟨_, _, still, ⟨shorter isBlank, nofun⟩,
        behind_dropWhile position unit rest isBlank, ?_⟩
      rw [lexemes.eq_2 position unit rest, if_neg digit, if_neg sign]
      exact lexemes_dropWhile_isBlank (behind position [unit]) rest
    · rw [if_neg blank] at starts
      obtain ⟨rfl, still⟩ := reading.unmatched resolved starts
      refine ⟨_, _, still, ⟨List.suffix_cons unit rest, ?_⟩, rfl, ?_⟩
      · rintro _ ⟨⟩
        exact ⟨List.mem_cons_self, starts⟩
      rw [lexemes.eq_2 position unit rest, if_neg digit, if_neg sign]
      rfl

/-- The scanner has these lexemes in front of it, and then the end of file at a position. -/
def Spells (file : Option String) (finish : Position) (spells : List Lexeme)
    (scanner : SumScanner ρ) : Prop :=
  ∃ position units, Reading file position units scanner ∧ behind position units = finish ∧
    lexemes position units = spells

variable {finish : Position} {spells : List Lexeme} {token : Token Int64}

theorem Spells.pulls (pulls : scanner.Pulls events token after)
    (ahead : Spells file finish spells scanner) :
    token = firstToken file finish spells ∧ Spells file finish spells.tail after := by
  induction pulls with
  | @last scanner after events piece token scans ends =>
    obtain ⟨position, units, reading, rfl, rfl⟩ := ahead
    obtain ⟨place, rest, still, -, same, found⟩ := reading.scanned scans
    simp only [ends] at found
    exact ⟨found.1, place, rest, still, same, found.2⟩
  | @further scanner middle after events more piece token scans silent _ ih =>
    obtain ⟨position, units, reading, rfl, rfl⟩ := ahead
    obtain ⟨place, rest, still, -, same, found⟩ := reading.scanned scans
    simp only [silent] at found
    exact ih ⟨place, rest, still, same, found⟩

theorem Spells.answers (ahead : Spells file finish spells scanner) : ∃ rest,
    TokenSource.Answers ScanNotice scanner (firstToken file finish spells) rest ∧
      Spells file finish spells.tail rest := by
  obtain ⟨position, units, reading, -⟩ := id ahead
  obtain ⟨fuel, events, token, after, answered, pulls⟩ :=
    Scanner.next_ok (V := Int64) units reading.has reading.ready
  obtain ⟨rfl, place, rest, still, same⟩ := Spells.pulls pulls ahead
  refine ⟨after.takeJournal.2, ⟨fuel, after.takeJournal.1, ?_⟩, place, rest, ⟨?_, ?_⟩, same⟩
  · simp only [TokenSource.next, answered, ok_bind]
    rfl
  · exact still.has.congr rfl rfl rfl
  · exact still.bearing

/-! ## Streams -/

/-- The tokens of some lexemes, and then the end of file for ever. -/
def tokenStream (file : Option String) (finish : Position) (spells : List Lexeme) :
    Stream' (Token Int64) :=
  spells.map (Lexeme.token file) ++ₛ Stream'.const ⟨endOfInput, none, file, finish⟩

theorem firstToken_eq (file : Option String) (finish : Position) (spells : List Lexeme) :
    (tokenStream file finish spells).head = firstToken file finish spells := by
  cases spells <;> rfl

theorem number_token_ne (lexeme : Lexeme) : (lexeme.token file).number ≠ endOfInput := by
  cases lexeme <;> simp [Lexeme.token, Lexeme.symbol, integer, plus, endOfInput]

theorem isOrdinary_none (number : Nat) : Feed.IsOrdinary (none : Option (Nat × Empty)) number := by
  simp [Feed.IsOrdinary]

/-- A scanner of sums does not fail. -/
theorem sound_spells : Feed.Sound ScanNotice endOfInput
    (fun scanner : SumScanner ρ => ∃ spells, Spells file finish spells scanner)
    (fun sentinel : Option (Nat × Empty) => sentinel = none) where
  proper := by
    rintro _ rfl
    exact isOrdinary_none endOfInput
  rest := by
    rintro scanner rest token ⟨spells, ahead⟩ answers -
    obtain ⟨other, again, still⟩ := ahead.answers
    obtain ⟨-, rfl⟩ := answers.unique again
    exact ⟨_, still⟩
  included := by
    intro _ _ _ _ _ _ _ _ _ fits
    cases fits
  settles := by
    rintro scanner _ ⟨spells, ahead⟩ rfl
    obtain ⟨rest, answers, -⟩ := ahead.answers
    cases spells with
    | nil => exact .inr ⟨none, .ended answers rfl⟩
    | cons lexeme spells =>
      exact .inl ⟨_, _, .delivered answers (number_token_ne lexeme) (isOrdinary_none _)⟩

/-- What the scanner delivers is its lexemes and then the end of file. -/
theorem Spells.streams (ahead : Spells file finish spells scanner) :
    Feed.Outlook.Streams ScanNotice endOfInput
      (⟨[.source .primary scanner], none⟩ : Feed.Outlook (SumScanner ρ) Empty Int64)
      (tokenStream file finish spells) := by
  induction spells generalizing scanner with
  | nil =>
    obtain ⟨rest, answers, -⟩ := ahead.answers
    rw [tokenStream, List.map_nil, Stream'.nil_append_stream, Stream'.const_eq]
    exact Feed.Outlook.Streams.cons (.ended answers rfl)
      (Feed.Outlook.streams_eof (⟨endOfInput, none, file, finish⟩ : Token Unit))
  | cons lexeme spells ih =>
    obtain ⟨rest, answers, still⟩ := ahead.answers
    exact (ih still).cons (.delivered answers (number_token_ne lexeme) (isOrdinary_none _))

theorem spells_scanner {reader : ρ} {bytes : List UInt8} (buffer : Nat) (file : Option String)
    (delivers : UnitSource.Delivers Empty (⟨some reader⟩ : ByteSource ρ) (.ofList bytes)) :
    Spells file (behind .origin bytes) (lexemes .origin bytes)
      (Calculator.scanner { initialBuffer := buffer } reader file) :=
  ⟨.origin, bytes, ⟨Scanner.has_openSource _ _ delivers, false, Scanner.bearing_openSource _ _ _⟩,
    rfl, rfl⟩

/-- A feed of sums stands for the lexemes of the input. -/
theorem streams_feed {reader : ρ} {bytes : List UInt8} (buffer : Nat) (file : Option String)
    (delivers : UnitSource.Delivers Empty (⟨some reader⟩ : ByteSource ρ) (.ofList bytes)) :
    (feed { initialBuffer := buffer } reader file).Streams
      (tokenStream file (behind .origin bytes) (lexemes .origin bytes)) :=
  (spells_scanner buffer file delivers).streams

theorem among_feed {reader : ρ} {bytes : List UInt8} (buffer : Nat) (file : Option String)
    (delivers : UnitSource.Delivers Empty (⟨some reader⟩ : ByteSource ρ) (.ofList bytes)) :
    (feed { initialBuffer := buffer } reader file).Among endOfInput
      (fun scanner => ∃ spells, Spells file (behind .origin bytes) spells scanner)
      (fun sentinel => sentinel = none) where
  eofSymbol := rfl
  stocked := by
    intro place source held
    have alone : (feed { initialBuffer := buffer } reader file).outlook.pending =
        [.source .primary (Calculator.scanner { initialBuffer := buffer } reader file)] := rfl
    rw [alone] at held
    cases List.mem_singleton.mp held
    exact ⟨_, spells_scanner buffer file delivers⟩
  fit := rfl

end Calculator

end TableDriven
