import TableDriven.Proofs.Lexicon.Checked
import TableDriven.Scanner.Trail

/-! # Walks

What the automata of a lexicon do with given units.  `Lexicon.walk` is the state that an automaton
comes to over them, if each has a category and none leads to the invalid state; in a checked
lexicon the scanner's look-ups answer just that (`advance?_eq`, `retreat?_eq`).  `Traced` says that
a trail is what the forward automaton leaves behind.
-/

namespace TableDriven

/-- The answer of a computation, or the default if it breaks down. -/
def Run.value [Inhabited α] : Run α → α
  | .ok answer => answer
  | .error _ => default

theorem Run.lt_of_lookup {items : Array α} {index : Nat} {item : α}
    (found : Run.lookup items index = .ok item) : index < items.size := by
  simp only [Run.lookup] at found
  split at found
  next stored => exact (Array.getElem?_eq_some_iff.mp stored).1
  next => cases found

namespace Trail

/-- The units of a trail in the order in which they were read. -/
def text (trail : Trail U) : List U := (trail.map Prod.fst).reverse

@[simp] theorem text_nil : text ([] : Trail U) = [] := rfl

@[simp] theorem text_cons (unit : U) (code : Nat) (trail : Trail U) :
    text ((unit, code) :: trail) = text trail ++ [unit] := by
  simp [text]

@[simp] theorem length_text (trail : Trail U) : (text trail).length = trail.length := by
  simp [text]

end Trail

namespace Lexicon

variable [ScanUnit U] (lexicon : Lexicon)

/-- The state after `unit`, unless the unit has no category or leads to the invalid state. -/
def step? (automaton : Automaton) (state : Nat) (unit : U) : Option Nat :=
  match lexicon.category? (ScanUnit.ordinal unit) with
  | none => none
  | some category =>
    let next := (automaton.next state category).value
    if next = Automaton.invalidState then none else some next

/-- The state after `units`, unless the walk ends before. -/
def walk (automaton : Automaton) (state : Nat) (units : List U) : Option Nat :=
  units.foldlM (lexicon.step? automaton) state

section
variable {lexicon : Lexicon} {automaton : Automaton} {state : Nat}

@[simp] theorem walk_nil : lexicon.walk automaton state ([] : List U) = some state := rfl

theorem walk_cons (unit : U) (units : List U) :
    lexicon.walk automaton state (unit :: units) =
      (lexicon.step? automaton state unit).bind fun next => lexicon.walk automaton next units :=
  List.foldlM_cons

theorem walk_append (first second : List U) :
    lexicon.walk automaton state (first ++ second) =
      (lexicon.walk automaton state first).bind fun middle =>
        lexicon.walk automaton middle second :=
  List.foldlM_append

theorem walk_concat (units : List U) (unit : U) :
    lexicon.walk automaton state (units ++ [unit]) =
      (lexicon.walk automaton state units).bind fun middle =>
        lexicon.step? automaton middle unit := by
  simp [walk]

end

section
variable {lexicon : Lexicon} {automaton : Automaton} {state next : Nat}

theorem step?_lt {unit : U} (holds : automaton.Checked lexicon.frame)
    (categorized : lexicon.Checked) (known : state < automaton.stateCount)
    (goes : lexicon.step? automaton state unit = some next) : next < automaton.stateCount := by
  unfold step? at goes
  split at goes
  next => cases goes
  next category found =>
    obtain ⟨other, looked, below⟩ := holds.next_ok known (categorized.category?_lt found)
    simp only [looked, Run.value] at goes
    split at goes
    next => cases goes
    next => exact Option.some.inj goes ▸ below

theorem walk_lt {units : List U} (holds : automaton.Checked lexicon.frame)
    (categorized : lexicon.Checked) (known : state < automaton.stateCount)
    (walks : lexicon.walk automaton state units = some next) : next < automaton.stateCount := by
  induction units generalizing state with
  | nil => exact Option.some.inj walks ▸ known
  | cons unit units ih =>
    obtain ⟨middle, goes, walks⟩ := Option.bind_eq_some_iff.mp walks
    exact ih (step?_lt holds categorized known goes) walks

variable (checked : lexicon.Checked)
include checked

theorem advance?_eq (known : state < lexicon.forward.stateCount) (unit : U) :
    lexicon.advance? state unit = .ok (lexicon.step? lexicon.forward state unit) := by
  cases found : lexicon.category? (ScanUnit.ordinal unit) with
  | none => simp [advance?, step?, found]
  | some category =>
    obtain ⟨next, looked, -⟩ := checked.forward.next_ok known (checked.category?_lt found)
    simp [advance?, step?, found, looked, Run.value]

theorem retreat?_eq (known : state < lexicon.reverse.stateCount) (unit : U) :
    lexicon.retreat? state unit = .ok (lexicon.step? lexicon.reverse state unit) := by
  cases found : lexicon.category? (ScanUnit.ordinal unit) with
  | none => simp [retreat?, step?, found]
  | some category =>
    obtain ⟨next, looked, -⟩ := checked.reverse.next_ok known (checked.category?_lt found)
    simp [retreat?, step?, found, looked, Run.value]

end

/-- A trail of the forward automaton from `start`, and the state that it is in behind it. -/
inductive Traced (lexicon : Lexicon) (start : Nat) : Trail U → Nat → Prop where
  | start : Traced lexicon start [] start
  | step {trail : Trail U} {state next : Nat} {unit : U} (traced : Traced lexicon start trail state)
      (goes : lexicon.step? lexicon.forward state unit = some next) :
      Traced lexicon start ((unit, (lexicon.forward.code next).value) :: trail) next

namespace Traced

variable {lexicon : Lexicon} {start state : Nat} {trail : Trail U}

theorem walk_eq (traced : lexicon.Traced start trail state) :
    lexicon.walk lexicon.forward start trail.text = some state := by
  induction traced with
  | start => rfl
  | step _ goes ih => rw [Trail.text_cons, walk_concat, ih, Option.bind_some, goes]

theorem state_lt (traced : lexicon.Traced start trail state) (checked : lexicon.Checked)
    (known : start < lexicon.forward.stateCount) : state < lexicon.forward.stateCount :=
  walk_lt checked.forward checked known traced.walk_eq

end Traced

end Lexicon

end TableDriven
