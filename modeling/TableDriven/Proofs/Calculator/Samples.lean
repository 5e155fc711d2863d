import TableDriven.Calculator.Sample
import TableDriven.Proofs.Calculator.Alphabet
import TableDriven.Proofs.Input.Lines

/-! # Samples evaluate to their value

Whatever answers the random choices, a sample is the text of a sum with the value that it claims
(`Sample.exists_sums`), so the calculator evaluates it to this value without any repair
(`samples_evaluate`).  What the steps of a sample add to its text is read off the results that they
can lead to (`Dialogue.Yields`); that the text is a sum follows from the way in which lexemes of
texts one behind the other are put together.
-/

namespace TableDriven

namespace Dialogue

variable {Q : Type} {A : Q → Type} {α β : Type}

/-- The result of a dialogue, each question of which takes the next of some answers. -/
def play : Dialogue Q A α → (Nat → (q : Q) → A q) → α
  | done result, _ => result
  | ask q next, answers => play (next (answers 0 q)) fun index => answers (index + 1)

/-- The results that some answers lead to. -/
inductive Yields : Dialogue Q A α → α → Prop where
  | done (result : α) : Yields (done result) result
  | ask {q : Q} {next : A q → Dialogue Q A α} {result : α} (answer : A q)
      (yields : Yields (next answer) result) : Yields (ask q next) result

theorem yields_play (dialogue : Dialogue Q A α) (answers : Nat → (q : Q) → A q) :
    dialogue.Yields (dialogue.play answers) := by
  induction dialogue generalizing answers with
  | done result => exact .done result
  | ask q next ih => exact .ask _ (ih _ _)

theorem yields_done {result other : α} (yields : (done result : Dialogue Q A α).Yields other) :
    other = result := by
  cases yields
  rfl

theorem yields_bind {dialogue : Dialogue Q A α} {next : α → Dialogue Q A β} {result : β}
    (yields : (dialogue >>= next).Yields result) :
    ∃ middle, dialogue.Yields middle ∧ (next middle).Yields result := by
  induction dialogue with
  | done middle => exact ⟨middle, .done middle, yields⟩
  | ask q answered ih =>
    cases yields with
    | ask answer yields =>
      obtain ⟨middle, first, second⟩ := ih answer yields
      exact ⟨middle, .ask answer first, second⟩

/-- Dialogues that go on alike behind every result are alike. -/
theorem bind_congr {dialogue : Dialogue Q A α} {next other : α → Dialogue Q A β}
    (same : ∀ middle, dialogue.Yields middle → next middle = other middle) :
    dialogue >>= next = dialogue >>= other := by
  induction dialogue with
  | done middle => exact same middle (.done middle)
  | ask q answered ih =>
    rw [bind_ask, bind_ask]
    exact congrArg _ (funext fun answer =>
      ih answer fun middle yields => same middle (.ask answer yields))

end Dialogue

namespace Calculator

theorem takeWhile_append_of_apart (front : List UInt8) {rest : List UInt8}
    (apart : ∀ unit ∈ rest.head?, isDigit unit = false) :
    (front ++ rest).takeWhile isDigit = front.takeWhile isDigit ∧
      (front ++ rest).dropWhile isDigit = front.dropWhile isDigit ++ rest := by
  induction front with
  | nil =>
    cases rest with
    | nil => exact ⟨rfl, rfl⟩
    | cons unit rest => simp [apart unit rfl]
  | cons unit front ih =>
    cases digit : isDigit unit with
    | false => simp [digit]
    | true => simp [digit, ih]

section
variable (position : Position)

/-- A text that does not begin with a digit continues no lexeme. -/
theorem lexemes_append (front : List UInt8) {rest : List UInt8}
    (apart : ∀ unit ∈ rest.head?, isDigit unit = false) :
    lexemes position (front ++ rest) =
      lexemes position front ++ lexemes (behind position front) rest := by
  fun_induction lexemes position front with
  | case1 position => rfl
  | case2 position unit front digit digits ih =>
    obtain ⟨taken, dropped⟩ := takeWhile_append_of_apart front apart
    rw [List.cons_append, lexemes.eq_2, if_pos digit, taken, dropped]
    simp only [ih, behind_dropWhile, digits, List.cons_append]
  | case3 position front other ih =>
    rw [List.cons_append, lexemes.eq_2, if_neg other, if_pos rfl, ih, ← behind_append]
    rfl
  | case4 position unit front other noPlus ih =>
    rw [List.cons_append, lexemes.eq_2, if_neg other, if_neg noPlus, ih, ← behind_append]
    rfl

theorem lexemes_digits {digits : List UInt8} (nonempty : digits ≠ [])
    (all : ∀ unit ∈ digits, isDigit unit = true) :
    lexemes position digits = [.integer (decimal digits) position] := by
  cases digits with
  | nil => contradiction
  | cons unit rest =>
    have later : ∀ other ∈ rest, isDigit other = true :=
      fun other member => all other (.tail _ member)
    rw [lexemes.eq_2, if_pos (all unit (.head _))]
    simp only [List.takeWhile_eq_self_iff.mpr later, List.dropWhile_eq_nil_iff.mpr later, lexemes]

end

theorem IsSum.snoc {spells : List Lexeme} (sum : IsSum spells) (sign position : Position)
    (number : Nat) : IsSum (spells ++ [.plus sign, .integer number position]) := by
  induction sum with
  | last first place => exact .more first place sign (.last number position)
  | more first place other _ ih => exact .more first place other ih

theorem total_append (first second : List Lexeme) :
    total (first ++ second) = total first + total second := by
  induction first with
  | nil => exact (Nat.zero_add _).symm
  | cons lexeme first ih =>
    cases lexeme with
    | plus position => exact ih
    | integer number position => exact (congrArg (number + ·) ih).trans (Nat.add_assoc ..).symm

/-- The bytes are those of a sum with this value, modulo `2 ^ 64`. -/
def Adds (units : List UInt8) (value : Int64) : Prop :=
  ∀ position, IsSum (lexemes position units) ∧
    Int64.ofNat (total (lexemes position units)) = value

section
variable {units before behind digits : List UInt8} {value : Int64}

theorem adds_digits (nonempty : digits ≠ []) (all : ∀ unit ∈ digits, isDigit unit = true) :
    Adds digits (Int64.ofNat (decimal digits)) := by
  intro position
  rw [lexemes_digits position nonempty all]
  exact ⟨.last _ _, rfl⟩

theorem Adds.summand (adds : Adds units value) (blank : ∀ unit ∈ before, isBlank unit = true)
    (blank' : ∀ unit ∈ behind, isBlank unit = true) (nonempty : digits ≠ [])
    (all : ∀ unit ∈ digits, isDigit unit = true) :
    Adds (units ++ (before ++ 0x2B :: (behind ++ digits)))
      (value + Int64.ofNat (decimal digits)) := by
  intro position
  have apart : ∀ unit ∈ (before ++ 0x2B :: (behind ++ digits)).head?, isDigit unit = false := by
    cases before with
    | nil =>
      rintro _ ⟨⟩
      rfl
    | cons unit before =>
      rintro _ ⟨⟩
      exact (no_lexeme_of_isBlank (blank unit (.head _))).1
  have sign (place : Position) (rest : List UInt8) : lexemes place (0x2B :: rest) =
      .plus place :: lexemes (Calculator.behind place [0x2B]) rest := by
    rw [lexemes.eq_2, if_neg (by decide), if_pos rfl]
  obtain ⟨sum, same⟩ := adds position
  rw [lexemes_append position units apart, lexemes_blanks _ _ blank, sign,
    lexemes_blanks _ _ blank', lexemes_digits _ nonempty all, total_append, Int64.ofNat_add, same]
  exact ⟨sum.snoc _ _ _, rfl⟩

/-- A blank behind a sum changes nothing. -/
theorem Adds.blank (adds : Adds units value) {unit : UInt8} (blank : isBlank unit = true) :
    Adds (units ++ [unit]) value := by
  intro position
  have nothing (place : Position) : lexemes place [unit] = [] := by
    have all : ∀ other ∈ [unit], isBlank other = true := List.forall_mem_singleton.mpr blank
    have skipped := lexemes_blanks place [] all
    rw [List.append_nil] at skipped
    rw [skipped, lexemes]
  rw [lexemes_append position units (by simpa using (no_lexeme_of_isBlank blank).1), nothing,
    List.append_nil]
  exact adds position

end

namespace Sample

open Dialogue

variable {sample middle next : Sample} {units run more : List UInt8} {value other : Int64}

/-- The bytes of a sample, all of them plain. -/
structure Spells (sample : Sample) (units : List UInt8) : Prop where
  encoded : Text.Utf8.encode sample.text = units
  length : sample.length = units.length
  plain : ∀ unit ∈ units, isPlain unit = true

/-- A sample becomes another by some bytes behind its text, which add to its value. -/
structure Grows (sample : Sample) (run : List UInt8) (value : Int64) (next : Sample) : Prop where
  spells : ∀ {units}, sample.Spells units → next.Spells (units ++ run)
  total : next.total = sample.total + value

theorem Grows.trans (first : sample.Grows run value middle)
    (second : middle.Grows more other next) :
    sample.Grows (run ++ more) (value + other) next where
  spells spells := by
    rw [← List.append_assoc]
    exact second.spells (first.spells spells)
  total := by rw [second.total, first.total, Int64.add_assoc]

theorem grows_refl (sample : Sample) : sample.Grows [] 0 sample where
  spells spells := by
    rw [List.append_nil]
    exact spells
  total := (Int64.add_zero _).symm

theorem grows_push {char : Char} {unit : UInt8} (single : String.utf8EncodeChar char = [unit])
    (plain : isPlain unit = true) : sample.Grows [unit] 0 (sample.push char) where
  spells {units} spells := by
    refine ⟨?_, by simp [push, spells.length], ?_⟩
    · have same := spells.encoded
      rw [text, LineSource.encode_ofList] at same ⊢
      rw [push, List.reverse_cons, List.flatMap_append, same, List.flatMap_singleton, single]
    · simpa [or_imp, forall_and, plain] using spells.plain
  total := (Int64.add_zero _).symm

theorem exists_digit (digit : Fin 10) :
    ∃ unit, String.utf8EncodeChar (Nat.digitChar digit.val) = [unit] ∧ isDigit unit = true ∧
      (unit - 0x30).toUInt64.toInt64 = Int64.ofNat digit.val := by
  refine ⟨UInt8.ofNat (0x30 + digit.val), ?_⟩
  revert digit
  decide +kernel

theorem exists_blank (index : Fin 4) :
    ∃ unit, String.utf8EncodeChar (blank index) = [unit] ∧ isBlank unit = true := by
  refine ⟨(blank index).toUInt8, ?_⟩
  revert index
  decide +kernel

theorem yields_digits {count : Nat} (yields : (digits count value sample).Yields next) :
    ∃ run, run.length = count ∧ (∀ unit ∈ run, isDigit unit = true) ∧
      sample.Grows run (run.foldl
        (fun value digit => value * 10 + (digit - 0x30).toUInt64.toInt64) value) next := by
  induction count generalizing sample value with
  | zero =>
    obtain rfl := yields_done yields
    refine ⟨[], rfl, by simp, fun spells => ?_, rfl⟩
    rw [List.append_nil]
    exact ⟨spells.encoded, spells.length, spells.plain⟩
  | succ count ih =>
    obtain ⟨digit, -, yields⟩ := yields_bind yields
    obtain ⟨run, length, all, grows⟩ := ih yields
    obtain ⟨unit, single, kind, worth⟩ := exists_digit digit
    have pushed := (grows_push single (by simp [isPlain, kind])).trans grows
    refine ⟨unit :: run, by simp [length], by simpa [kind] using all, ?_⟩
    rw [List.foldl_cons, worth]
    rwa [Int64.zero_add] at pushed

theorem yields_integer (yields : sample.integer.Yields next) :
    ∃ run, run ≠ [] ∧ (∀ unit ∈ run, isDigit unit = true) ∧
      sample.Grows run (Int64.ofNat (decimal run)) next := by
  obtain ⟨more, -, yields⟩ := yields_bind yields
  obtain ⟨run, length, all, grows⟩ := yields_digits yields
  refine ⟨run, List.ne_nil_of_length_eq_add_one length, all, ?_⟩
  rw [← numeral_eq all]
  exact grows

theorem yields_blanks {count : Nat} (yields : (blanks count sample).Yields next) :
    ∃ run, (∀ unit ∈ run, isBlank unit = true) ∧ sample.Grows run 0 next := by
  induction count generalizing sample with
  | zero =>
    obtain rfl := yields_done yields
    exact ⟨[], by simp, grows_refl next⟩
  | succ count ih =>
    obtain ⟨index, -, yields⟩ := yields_bind yields
    obtain ⟨run, all, grows⟩ := ih yields
    obtain ⟨unit, single, kind⟩ := exists_blank index
    exact ⟨unit :: run, by simpa [kind] using all,
      (grows_push single (by simp [isPlain, kind])).trans grows⟩

theorem yields_spacing (yields : sample.spacing.Yields next) :
    ∃ run, (∀ unit ∈ run, isBlank unit = true) ∧ sample.Grows run 0 next := by
  obtain ⟨spaced, -, yields⟩ := yields_bind yields
  cases spaced with
  | false =>
    obtain rfl := yields_done yields
    exact ⟨[], by simp, grows_refl next⟩
  | true =>
    obtain ⟨more, -, yields⟩ := yields_bind yields
    exact yields_blanks yields

theorem yields_summand (yields : sample.summand.Yields next) :
    ∃ before behind run, (∀ unit ∈ before, isBlank unit = true) ∧
      (∀ unit ∈ behind, isBlank unit = true) ∧ run ≠ [] ∧
      (∀ unit ∈ run, isDigit unit = true) ∧
      sample.Grows (before ++ 0x2B :: (behind ++ run)) (Int64.ofNat (decimal run)) next := by
  obtain ⟨spaced, first, yields⟩ := yields_bind yields
  obtain ⟨signed, second, yields⟩ := yields_bind yields
  obtain ⟨before, blank, grows⟩ := yields_spacing first
  obtain ⟨behind, blank', further⟩ := yields_spacing second
  obtain ⟨run, nonempty, all, last⟩ := yields_integer yields
  have sign : spaced.Grows [0x2B] 0 (spaced.push '+') := grows_push (by decide +kernel) rfl
  have whole := grows.trans (sign.trans (further.trans last))
  simp only [Int64.zero_add] at whole
  exact ⟨before, behind, run, blank, blank', nonempty, all, whole⟩

/-! ## Samples -/

/-- A sample whose text is that of a sum with its value. -/
structure Sums (sample : Sample) (units : List UInt8) : Prop extends sample.Spells units where
  adds : Adds units sample.total

theorem sums_of_integer (yields : empty.integer.Yields next) : ∃ units, next.Sums units := by
  obtain ⟨run, nonempty, all, grows⟩ := yields_integer yields
  have nothing : empty.Spells [] := ⟨rfl, rfl, by simp⟩
  refine ⟨run, grows.spells nothing, ?_⟩
  have total : next.total = Int64.ofNat (decimal run) := grows.total.trans (Int64.zero_add _)
  rw [total]
  exact adds_digits nonempty all

theorem Sums.summand (sums : sample.Sums units) (yields : sample.summand.Yields next) :
    ∃ more, next.Sums more ∧ sample.length < next.length := by
  obtain ⟨before, behind, run, blank, blank', nonempty, all, grows⟩ := yields_summand yields
  have spells := grows.spells sums.toSpells
  refine ⟨_, ⟨spells, ?_⟩, ?_⟩
  · rw [grows.total]
    exact sums.adds.summand blank blank' nonempty all
  · rw [sums.length, spells.length, List.length_append, List.length_append, List.length_cons]
    omega

/-- Where there are enough rounds, a sample is extended until it is long enough. -/
theorem Sums.extend {target rounds : Nat} (sums : sample.Sums units)
    (enough : target ≤ sample.length + rounds)
    (yields : (extend target rounds sample).Yields next) :
    ∃ more, next.Sums more ∧ target ≤ next.length := by
  induction rounds generalizing sample units with
  | zero =>
    obtain rfl := yields_done yields
    exact ⟨units, sums, enough⟩
  | succ rounds ih =>
    rw [Sample.extend] at yields
    split at yields
    next short =>
      obtain ⟨longer, first, yields⟩ := yields_bind yields
      obtain ⟨more, still, grown⟩ := sums.summand first
      exact ih still (by omega) yields
    next long =>
      obtain rfl := yields_done yields
      exact ⟨units, sums, Nat.not_lt.mp long⟩

/-- Further rounds change nothing. -/
theorem Sums.extend_eq {target rounds more : Nat} (sums : sample.Sums units)
    (enough : target ≤ sample.length + rounds) (further : rounds ≤ more) :
    Sample.extend target more sample = Sample.extend target rounds sample := by
  induction rounds generalizing sample units more with
  | zero =>
    cases more with
    | zero => rfl
    | succ more =>
      exact if_neg (Nat.not_lt.mpr enough)
  | succ rounds ih =>
    obtain ⟨more, rfl⟩ := Nat.exists_eq_add_of_lt further
    rw [Sample.extend, Sample.extend]
    split
    next short =>
      refine bind_congr fun longer yields => ?_
      obtain ⟨_, still, grown⟩ := sums.summand yields
      exact ih still (by omega) (by omega)
    next => rfl

theorem exists_sums {target : Nat} (yields : (ofLength target).Yields sample) :
    ∃ units, sample.Sums units ∧ target ≤ units.length := by
  obtain ⟨first, begun, yields⟩ := yields_bind yields
  obtain ⟨last, extended, yields⟩ := yields_bind yields
  obtain ⟨units, sums⟩ := sums_of_integer begun
  obtain ⟨units, sums, long⟩ := sums.extend (Nat.le_add_left target _) extended
  rw [sums.length] at long
  obtain ⟨broken, -, yields⟩ := yields_bind yields
  cases broken with
  | false =>
    obtain rfl := yields_done yields
    exact ⟨units, sums, long⟩
  | true =>
    obtain rfl := yields_done yields
    have grows : last.Grows [0x0A] 0 (last.push '\n') := grows_push (by decide +kernel) rfl
    refine ⟨units ++ [0x0A], ⟨grows.spells sums.toSpells, ?_⟩, ?_⟩
    · exact sums.adds.blank rfl
    · rw [List.length_append]
      omega

end Sample

/-- A calculation that ends with a value, behind which nothing was reported: no repair, no failure
and no byte unmatched. -/
structure Evaluates {ρ : Type} [Reader ρ] (settings : Settings) (reader : ρ)
    (file : Option String) (value : Int64) (notices : List Notice) : Prop where
  ends : ∃ enough, ∀ fuel, enough ≤ fuel →
    evaluateWith fuel settings reader file = .ok (.ok (some value), notices)
  unrepaired : notices.filterMap Parser.Notice.report? = []
  mild : notices.filter Parser.Notice.isFailure = []
  matched : ∀ unit position, .fed (.noted (.unmatched unit position)) ∉ notices

theorem Sample.Sums.evaluates {sample : Sample} {units : List UInt8} (sums : sample.Sums units)
    {ρ : Type} [Reader ρ] {reader : ρ} (buffer : Nat) (file : Option String)
    (hands : Reader.Hands reader units) :
    ∃ notices, Evaluates { initialBuffer := buffer } reader file sample.total notices := by
  obtain ⟨enough, result, notices, ends, faithful⟩ := exists_evaluation buffer file hands
  obtain ⟨sum, same⟩ := sums.adds .origin
  obtain ⟨unrepaired, mild, rfl⟩ := faithful.sum sum
  rw [same] at ends
  have matched := isMatched_of_evaluateWith hands sums.plain (ends enough (Nat.le_refl enough))
  exact ⟨notices, ⟨enough, ends⟩, unrepaired, mild,
    fun unit position told => matched _ told unit position rfl⟩

/-- **Samples evaluate to their value**, whatever answers the random choices.  Making one ends: no
more rounds than the target counts make a difference, and the text is as long as was asked for.  The
calculator reads it in any chunks and with a buffer of any size, repairs nothing, leaves nothing
unmatched, and computes the total of the sample, modulo `2 ^ 64`. -/
theorem samples_evaluate (target : Nat) (answers : Nat → (choice : Choice) → choice.Answer) :
    (∀ rounds, target ≤ rounds → Sample.empty.integer >>= Sample.extend target rounds =
      Sample.empty.integer >>= Sample.extend target target) ∧
    ∃ sample, (Sample.ofLength target).play answers = sample ∧
      target ≤ (Text.Utf8.encode sample.text).length ∧
      ∀ {ρ : Type} [Reader ρ] (reader : ρ) (buffer : Nat) (file : Option String),
        Reader.Hands reader (Text.Utf8.encode sample.text) →
          ∃ notices, Evaluates { initialBuffer := buffer } reader file sample.total notices := by
  refine ⟨fun rounds further => Dialogue.bind_congr fun begun yields => ?_, _, rfl, ?_⟩
  · obtain ⟨units, sums⟩ := Sample.sums_of_integer yields
    exact sums.extend_eq (Nat.le_add_left target _) further
  · obtain ⟨units, sums, long⟩ := Sample.exists_sums (Dialogue.yields_play _ answers)
    rw [sums.encoded]
    exact ⟨long, fun reader buffer file hands => sums.evaluates buffer file hands⟩

/-- The choice that makes a sample longest. -/
def Choice.largest : (choice : Choice) → choice.Answer
  | .chance _ => true
  | .upTo last => Fin.last last

/-- Two summands that are as large and as far apart as can be, read in chunks of two bytes into a
buffer of one, with every third call interrupted. -/
theorem samples_evaluate_largest :
    Reader.Hands
        (⟨Text.Utf8.encode "999999\n\n\n\n+\n\n\n\n999999\n", some 2, some 3, none, 0⟩ : Memory)
        (Text.Utf8.encode "999999\n\n\n\n+\n\n\n\n999999\n") ∧
      ∃ notices, Evaluates { initialBuffer := 1 }
        (⟨Text.Utf8.encode "999999\n\n\n\n+\n\n\n\n999999\n", some 2, some 3, none, 0⟩ : Memory)
        none 1999998 notices := by
  have hands : Reader.Hands
      (⟨Text.Utf8.encode "999999\n\n\n\n+\n\n\n\n999999\n", some 2, some 3, none, 0⟩ : Memory)
      (Text.Utf8.encode "999999\n\n\n\n+\n\n\n\n999999\n") :=
    Memory.hands rfl (by decide) (by decide)
  obtain ⟨-, sample, made, -, evaluates⟩ := samples_evaluate 8 fun _ => Choice.largest
  have text : sample.text = "999999\n\n\n\n+\n\n\n\n999999\n" := by
    rw [← made]
    decide +kernel
  have total : sample.total = 1999998 := by
    rw [← made]
    decide +kernel
  rw [text, total] at evaluates
  exact ⟨hands, evaluates _ 1 none hands⟩

end Calculator

end TableDriven
