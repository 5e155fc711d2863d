import TableDriven.Fault

/-! # Computations that run alike

Two computations run alike if they break down for the same cause or answer with related results.
The relation passes through `>>=` (`Alike.bind`), so two programs of one shape are compared step
by step.  `BreaksOnly` bounds the causes for which a computation can break down, and computations
`Agree` that do both.
-/

namespace TableDriven.Run

/-- The same breakdown, or related answers. -/
inductive Alike (related : α → β → Prop) : Run α → Run β → Prop where
  | broken (why : Breakdown) : Alike related (.error why) (.error why)
  | answered {first : α} {second : β} (holds : related first second) :
      Alike related (.ok first) (.ok second)

namespace Alike

variable {related : α → β → Prop} {others : γ → δ → Prop}
  {first : Run α} {second : Run β} {one : α → Run γ} {two : β → Run δ}

theorem refl (run : Run α) : Alike Eq run run := by
  cases run with
  | error why => exact .broken why
  | ok answer => exact .answered rfl

theorem bind (alike : Alike related first second)
    (next : ∀ {left right}, related left right → Alike others (one left) (two right)) :
    Alike others (first >>= one) (second >>= two) := by
  cases alike with
  | broken why => exact .broken why
  | answered holds => exact next holds

/-- Related answers are the answers of these two computations. -/
theorem remember (alike : Alike related first second) :
    Alike (fun left right => first = .ok left ∧ related left right) first second := by
  cases alike with
  | broken why => exact .broken why
  | answered holds => exact .answered ⟨rfl, holds⟩

theorem of_ok_left {answer : α} (alike : Alike related (.ok answer) second) :
    ∃ other, second = .ok other ∧ related answer other := by
  cases alike with
  | answered holds => exact ⟨_, rfl, holds⟩

theorem of_ok_right {answer : β} (alike : Alike related first (.ok answer)) :
    ∃ other, first = .ok other ∧ related other answer := by
  cases alike with
  | answered holds => exact ⟨_, rfl, holds⟩

end Alike

section
variable {α β : Type} {causes : Breakdown → Prop} {why : Breakdown} {run : Run α}

/-- A computation that breaks down for these causes at most. -/
def BreaksOnly (causes : Breakdown → Prop) (run : Run α) : Prop :=
  ∀ why, run = .error why → causes why

theorem BreaksOnly.ok (answer : α) : BreaksOnly causes (.ok answer : Run α) := by
  intro why broken
  cases broken

theorem BreaksOnly.error (cause : causes why) : BreaksOnly causes (.error why : Run α) := by
  intro other broken
  cases broken
  exact cause

theorem BreaksOnly.bind {next : α → Run β} (first : run.BreaksOnly causes)
    (second : ∀ answer, run = .ok answer → (next answer).BreaksOnly causes) :
    (run >>= next).BreaksOnly causes := by
  cases run with
  | error why => exact .error (first why rfl)
  | ok answer => exact second answer rfl

theorem BreaksOnly.mono {more : Breakdown → Prop} (breaks : run.BreaksOnly causes)
    (weaker : ∀ why, causes why → more why) : run.BreaksOnly more :=
  fun why broken => weaker why (breaks why broken)

theorem Alike.breaksOnly {related : α → β → Prop} {other : Run β} (alike : Alike related run other)
    (breaks : run.BreaksOnly causes) : other.BreaksOnly causes := by
  cases alike with
  | broken why => exact .error (breaks why rfl)
  | answered => exact .ok _

end

/-- Computations that run alike and break down for these causes at most. -/
structure Agree (causes : Breakdown → Prop) (related : α → β → Prop) (first : Run α)
    (second : Run β) : Prop where
  alike : Alike related first second
  breaks : first.BreaksOnly causes

namespace Agree

variable {causes : Breakdown → Prop} {related more : α → β → Prop} {others : γ → δ → Prop}
  {first : Run α} {second : Run β}

theorem broken {why : Breakdown} (cause : causes why) :
    Agree causes related (.error why) (.error why) :=
  ⟨.broken why, .error cause⟩

theorem answered {left : α} {right : β} (holds : related left right) :
    Agree causes related (.ok left) (.ok right) :=
  ⟨.answered holds, .ok left⟩

theorem refl {run : Run α} (breaks : run.BreaksOnly causes) : Agree causes Eq run run :=
  ⟨.refl run, breaks⟩

theorem bind {one : α → Run γ} {two : β → Run δ} (agree : Agree causes related first second)
    (next : ∀ {left right}, related left right → Agree causes others (one left) (two right)) :
    Agree causes others (first >>= one) (second >>= two) := by
  obtain ⟨alike, breaks⟩ := agree
  cases alike with
  | broken why => exact .broken (breaks why rfl)
  | answered holds => exact next holds

theorem mono (agree : Agree causes related first second)
    (weaker : ∀ {left right}, related left right → more left right) :
    Agree causes more first second := by
  obtain ⟨alike, breaks⟩ := agree
  cases alike with
  | broken why => exact .broken (breaks why rfl)
  | answered holds => exact .answered (weaker holds)

/-- Computations whose answers agree are the same. -/
theorem eq {same : α → α → Prop} {one other : Run α} (agree : Agree causes same one other)
    (equal : ∀ {left right}, same left right → left = right) : one = other := by
  cases agree.alike with
  | broken => rfl
  | answered holds => rw [equal holds]

theorem of_ok {answer : β} (agree : Agree causes related first (.ok answer)) :
    ∃ left, first = .ok left ∧ related left answer :=
  agree.alike.of_ok_right

end Agree

end TableDriven.Run
