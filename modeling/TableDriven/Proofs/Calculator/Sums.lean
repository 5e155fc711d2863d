import TableDriven.Proofs.Calculator.Scanning
import TableDriven.Proofs.Calculator.Steps

/-! # What a calculation makes of its lexemes

`Phase.accepts` says which lexemes the parser takes without a repair, and that these make a sum
(`isSum_iff`); `Spares` says which are left when some were deleted.  `Computes` relates a stage and
the lexemes in front of it to what is reported from there on and to the result.  It holds at the end
of the input and where nothing can be repaired, and is carried back over a lexeme that is shifted
(`Computes.shifted`) and over a repair (`Computes.repaired`).
-/

namespace TableDriven.Calculator

open TableDriven.Parser (Report)

namespace Phase

/-- Whether some lexemes and the end of the input behind them are taken one after the other. -/
def accepts (phase : Phase) : List Lexeme → Bool
  | [] => phase.isComplete
  | lexeme :: rest => (phase.next lexeme.symbol).any (accepts · rest)

variable {phase behind : Phase} {lexeme : Lexeme} {rest : List Lexeme}

theorem accepts_cons (goes : phase.next lexeme.symbol = some behind) :
    phase.accepts (lexeme :: rest) = behind.accepts rest := by
  rw [accepts, goes, Option.any_some]

/-- What is an error at once is not accepted. -/
theorem accepts_of_not_takes {file : Option String} {finish : Position}
    (error : phase.takes (firstToken file finish rest).number = false) :
    phase.accepts rest = false := by
  obtain ⟨nowhere, incomplete⟩ := Bool.or_eq_false_iff.mp error
  cases rest with
  | nil => simpa [accepts, firstToken, endOfInput] using incomplete
  | cons lexeme rest =>
    have stays : phase.next lexeme.symbol = none := by
      simpa [firstToken, Lexeme.token] using nowhere
    rw [accepts, stays, Option.any_none]

theorem accepts_operator (rest : List Lexeme) : operator.accepts rest = start.accepts rest := by
  have operand (rest : List Lexeme) : Phase.operand.accepts rest = sum.accepts rest := by
    cases rest with
    | nil => rfl
    | cons lexeme rest => cases lexeme <;> rfl
  cases rest with
  | nil => rfl
  | cons lexeme rest =>
    cases lexeme with
    | integer number position => exact operand rest
    | plus position => rfl

/-- A sum is accepted, and behind an integer, what makes a sum with it. -/
theorem isSum_of_accepts (lexemes : List Lexeme) :
    (start.accepts lexemes = true → IsSum lexemes) ∧
      (sum.accepts lexemes = true → ∀ number position,
        IsSum (.integer number position :: lexemes)) := by
  induction lexemes with
  | nil => exact ⟨fun accepted => absurd accepted (by decide), fun _ => .last⟩
  | cons lexeme rest ih =>
    cases lexeme with
    | integer number position =>
      have nowhere : sum.accepts (.integer number position :: rest) = false := rfl
      refine ⟨fun accepted => ih.2 accepted number position, fun accepted => ?_⟩
      rw [nowhere] at accepted
      contradiction
    | plus sign =>
      have nowhere : start.accepts (.plus sign :: rest) = false := rfl
      refine ⟨fun accepted => ?_, fun accepted number position => ?_⟩
      · rw [nowhere] at accepted
        contradiction
      have further : operator.accepts rest = true := accepted
      rw [accepts_operator] at further
      exact .more number position sign (ih.1 further)

end Phase

theorem isSum_iff {lexemes : List Lexeme} :
    IsSum lexemes ↔ Phase.start.accepts lexemes = true := by
  constructor
  · intro sum
    induction sum with
    | last => rfl
    | more _ _ _ _ ih => exact (Phase.accepts_operator _).trans ih
  · exact (Phase.isSum_of_accepts lexemes).1

@[simp] theorem add_zero (value : Option Int64) : add value (some 0) = value := by
  cases value <;> simp [add]

@[simp] theorem zero_add (value : Option Int64) : add (some 0) value = value := by
  cases value <;> simp [add]

@[simp] theorem add_none (value : Option Int64) : add value none = none := by
  cases value <;> rfl

@[simp] theorem none_add (value : Option Int64) : add none value = none := rfl

theorem add_assoc (first second third : Option Int64) :
    add (add first second) third = add first (add second third) := by
  cases first <;> cases second <;> cases third <;> simp [add, Int64.add_assoc]

/-- What repairs leave of some lexemes: each repair in turn is reported at the first lexeme ahead or
at the end, and deletes some lexemes from there on, of the symbols that it reports. -/
inductive Spares (file : Option String) (finish : Position) :
    List Lexeme → List (Token Int64 × Report) → List Lexeme → Prop where
  | done (rest : List Lexeme) : Spares file finish rest [] rest
  | kept {rest left : List Lexeme} {told : List (Token Int64 × Report)} (lexeme : Lexeme)
      (spares : Spares file finish rest told left) :
      Spares file finish (lexeme :: rest) told (lexeme :: left)
  | repaired {rest left : List Lexeme} {told : List (Token Int64 × Report)} {report : Report}
      (deletes : report.deleted = (rest.take report.deleted.length).map Lexeme.symbol)
      (spares : Spares file finish (rest.drop report.deleted.length) told left) :
      Spares file finish rest ((firstToken file finish rest, report) :: told) left

section
variable {told : List (Token Int64 × Report)} {lexeme : Lexeme} {rest left : List Lexeme}
  {file : Option String} {finish : Position} {report : Report}

theorem Spares.eq_of_nil (spares : Spares file finish rest [] left) : left = rest := by
  generalize nothing : ([] : List (Token Int64 × Report)) = told at spares
  induction spares with
  | done => rfl
  | kept lexeme _ ih => rw [ih nothing]
  | repaired => cases nothing

theorem spared_cons (away : ∀ repair ∈ told, repair.1.position ≠ lexeme.position) :
    spared (lexeme :: rest) told = lexeme :: spared rest told := by
  cases told with
  | nil => rfl
  | cons repair told =>
    have other : lexeme.position ≠ repair.1.position := (away repair (.head _)).symm
    simp [spared, other]

theorem spared_repair : spared rest ((firstToken file finish rest, report) :: told) =
    spared (rest.drop report.deleted.length) told := by
  cases rest with
  | nil => simp [spared]
  | cons lexeme rest => simp [spared, firstToken, Lexeme.token]

/-- Repairs are reported at the lexemes or the end. -/
theorem Spares.placed (spares : Spares file finish rest told left) :
    ∀ repair ∈ told, repair.1.position ∈ marks rest finish := by
  induction spares with
  | done => simp
  | kept lexeme _ ih => exact fun repair member => List.mem_cons_of_mem _ (ih repair member)
  | @repaired rest _ _ report _ _ ih =>
    intro repair member
    obtain rfl | member := List.mem_cons.mp member
    · cases rest <;> simp [marks, firstToken, Lexeme.token]
    · have later := ih repair member
      rw [marks, List.map_drop] at later
      exact (List.Sublist.append_right (List.drop_sublist _ _) _).subset later

/-- Where no two lexemes stand at one position, the positions tell which are left. -/
theorem Spares.eq_spared (spares : Spares file finish rest told left)
    (distinct : (marks rest finish).Nodup) : left = spared rest told := by
  induction spares with
  | done => rfl
  | kept lexeme spares ih =>
    obtain ⟨alone, fewer⟩ := List.nodup_cons.mp distinct
    rw [spared_cons fun repair member same => alone (same ▸ spares.placed repair member), ih fewer]
  | repaired _ _ ih =>
    rw [spared_repair]
    refine ih ?_
    rw [marks, List.map_drop]
    exact distinct.sublist (List.Sublist.append_right (List.drop_sublist _ _) _)

/-- A lexeme that is left counts. -/
theorem worth_cons : worth (lexeme :: left) told =
    if lexeme.symbol = integer then add lexeme.value (worth left told) else worth left told := by
  rw [worth, worth]
  cases lexeme with
  | plus position => rfl
  | integer number position =>
    have counts : (Lexeme.integer number position).symbol = integer := rfl
    rw [if_pos counts]
    cases insertsInteger told with
    | true => exact (add_none _).symm
    | false => simp [total, Lexeme.number?, Lexeme.value, add, Int64.ofNat_add]

/-- A repair that inserts an integer takes everything away. -/
theorem worth_repair (token : Token Int64) : worth left ((token, report) :: told) =
    if integer ∈ report.inserted then none else worth left told := by
  have inserts : insertsInteger ((token, report) :: told) =
      (report.inserted.contains integer || insertsInteger told) := List.any_cons
  rw [worth, worth, inserts]
  cases listed : report.inserted.contains integer with
  | true => rw [if_pos (List.contains_iff_mem.mp listed), Bool.true_or, if_pos rfl]
  | false =>
    have other : integer ∉ report.inserted := by simpa using listed
    rw [if_neg other, Bool.false_or]

@[simp] theorem worth_nil : worth [] [] = some 0 := rfl

end

/-- What a parse at a stage does with the lexemes in front of it and the end behind them: the
repairs and failures that it reports, and its result. -/
structure Computes (file : Option String) (finish : Position) (stage : Stage) (rest : List Lexeme)
    (told : List (Token Int64 × Report)) (failed : List Notice)
    (result : Parse.Result Int64) : Prop where
  clean : stage.phase.accepts rest = true → told = [] ∧ failed = []
  noted : stage.phase.accepts rest = false → told ≠ [] ∨ failed ≠ []
  computed : ∀ value, result = .ok value → ∃ left,
    Spares file finish rest told left ∧ value = add stage.value (worth left told)
  failing : ∀ fault, result = .error fault →
    (∃ symbol position, fault = .unrepairable symbol position) ∧ failed ≠ []

section
variable {stage behind : Stage} {lexeme : Lexeme} {rest : List Lexeme} {file : Option String}
  {finish : Position} {told : List (Token Int64 × Report)} {failed : List Notice}
  {result : Parse.Result Int64} {report : Report}

theorem Phase.accepts_stage_cons {value : Option Int64}
    (goes : stage.next lexeme.symbol value = some behind) :
    stage.phase.accepts (lexeme :: rest) = behind.phase.accepts rest := by
  apply Phase.accepts_cons
  rw [← stage.phase_next lexeme.symbol value, goes]
  rfl

theorem computes_accepted (complete : stage.phase.isComplete = true) :
    Computes file finish stage [] [] [] (.ok stage.value) where
  clean _ := ⟨rfl, rfl⟩
  noted rejected := absurd complete (by simpa [Phase.accepts] using rejected)
  computed := by
    rintro _ ⟨⟩
    exact ⟨[], .done [], by simp⟩
  failing := by simp

theorem computes_unrepaired {symbol : Nat} {position : Position} {notice : Notice}
    (error : stage.phase.takes (firstToken file finish rest).number = false) :
    Computes file finish stage rest [] [notice] (.error (.unrepairable symbol position)) where
  clean accepted := by
    rw [Phase.accepts_of_not_takes error] at accepted
    contradiction
  noted _ := .inr (List.cons_ne_nil _ _)
  computed := by simp
  failing := by
    rintro _ ⟨⟩
    exact ⟨⟨_, _, rfl⟩, List.cons_ne_nil _ _⟩

/-- Over a lexeme that is shifted. -/
theorem Computes.shifted (computes : Computes file finish behind rest told failed result)
    (goes : stage.next lexeme.symbol lexeme.value = some behind) :
    Computes file finish stage (lexeme :: rest) told failed result where
  clean := by
    rw [Phase.accepts_stage_cons goes]
    exact computes.clean
  noted := by
    rw [Phase.accepts_stage_cons goes]
    exact computes.noted
  computed := by
    rintro value rfl
    obtain ⟨left, spares, rfl⟩ := computes.computed value rfl
    refine ⟨lexeme :: left, spares.kept lexeme, ?_⟩
    rw [worth_cons, Stage.value_next goes]
    split
    next => exact add_assoc _ _ _
    next => rfl
  failing := computes.failing

/-- Over the repair of an error, behind which the parse is at a stage of the same value unless an
integer was inserted. -/
theorem Computes.repaired
    (computes : Computes file finish behind (rest.drop report.deleted.length) told failed result)
    (error : stage.phase.takes (firstToken file finish rest).number = false)
    (deletes : report.deleted = (rest.take report.deleted.length).map Lexeme.symbol)
    (keeps : behind.value = if integer ∈ report.inserted then none else stage.value) :
    Computes file finish stage rest ((firstToken file finish rest, report) :: told) failed
      result where
  clean accepted := by
    rw [Phase.accepts_of_not_takes error] at accepted
    contradiction
  noted _ := .inl (List.cons_ne_nil _ _)
  computed := by
    rintro value rfl
    obtain ⟨left, spares, rfl⟩ := computes.computed value rfl
    refine ⟨left, .repaired deletes spares, ?_⟩
    rw [worth_repair, keeps]
    split
    next => simp
    next => rfl
  failing := computes.failing

end

end TableDriven.Calculator
