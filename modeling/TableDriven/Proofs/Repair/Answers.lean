import TableDriven.Proofs.Trial.Fuel
import TableDriven.Repair.Search

/-! # What a search answers

A search asks for the symbols ahead.  `Search.Answers` relates it to what it answers when these
are known; it passes through `>>=` (`answers_bind_iff`), so an answer is taken apart the way the
search was put together.  `Concludes` is the same for a search that is given more and more fuel.
-/

namespace TableDriven.Repair

/-- What a search answers where `ahead` tells the symbol at a distance. -/
inductive Search.Answers (ahead : Nat → Nat → Prop) : Search α → α → Prop where
  | done (result : α) : Search.Answers ahead (.done result) result
  | symbol {distance number : Nat} {next : Nat → Search α} {result : α}
      (shown : ahead distance number) (rest : Search.Answers ahead (next number) result) :
      Search.Answers ahead (.ask (.symbol distance) next) result
  | lost {next : Unit → Search α} {result : α} (rest : Search.Answers ahead (next ()) result) :
      Search.Answers ahead (.ask .lost next) result

namespace Search

variable {ahead : Nat → Nat → Prop} {distance number : Nat}

@[simp] theorem answers_done_iff {result other : α} :
    Answers ahead (.done result) other ↔ result = other := by
  constructor
  · intro answers
    cases answers
    rfl
  · rintro rfl
    exact .done _

@[simp] theorem answers_lost_iff {next : Unit → Search α} {result : α} :
    Answers ahead (.ask .lost next) result ↔ Answers ahead (next ()) result := by
  constructor
  · intro answers
    cases answers with
    | lost rest => exact rest
  · exact .lost

@[simp] theorem answers_symbol_iff :
    Answers ahead (symbol distance) number ↔ ahead distance number := by
  constructor
  · intro answers
    cases answers with
    | symbol shown rest =>
      cases rest
      exact shown
  · intro shown
    exact .symbol shown (.done number)

@[simp] theorem answers_ofRun_iff {run : Run α} {result : α} :
    Answers ahead (ofRun run) result ↔ run = .ok result := by
  constructor
  · intro answers
    cases run with
    | ok other =>
      cases answers
      rfl
    | error why => cases answers
  · rintro rfl
    exact .done result

theorem answers_bind_iff {search : Search α} {next : α → Search β} {result : β} :
    Answers ahead (search >>= next) result ↔
      ∃ middle, Answers ahead search middle ∧ Answers ahead (next middle) result := by
  constructor
  · intro answers
    induction search with
    | done middle => exact ⟨middle, .done middle, answers⟩
    | ask probe answered ih =>
      rw [Dialogue.bind_ask] at answers
      cases answers with
      | symbol shown rest =>
        obtain ⟨middle, first, second⟩ := ih _ rest
        exact ⟨middle, .symbol shown first, second⟩
      | lost rest =>
        obtain ⟨middle, first, second⟩ := ih _ rest
        exact ⟨middle, .lost first, second⟩
  · rintro ⟨middle, first, second⟩
    induction first with
    | done => exact second
    | symbol shown _ ih => exact .symbol shown (ih second)
    | lost _ ih => exact .lost (ih second)

theorem Answers.mono {other : Nat → Nat → Prop} {search : Search α} {result : α}
    (answers : Answers ahead search result)
    (more : ∀ distance number, ahead distance number → other distance number) :
    Answers other search result := by
  induction answers with
  | done result => exact .done result
  | symbol shown _ ih => exact .symbol (more _ _ shown) ih
  | lost _ ih => exact .lost ih

/-- With enough fuel the search answers this, and it looks no further ahead than some bound. -/
def Concludes (ahead : Nat → Nat → Prop) (search : Nat → Search α) (result : α) : Prop :=
  ∃ bound enough, ∀ fuel, enough ≤ fuel →
    Answers (fun distance number => distance < bound ∧ ahead distance number) (search fuel) result

theorem Concludes.bind {search : Nat → Search α} {next : Nat → α → Search β} {middle : α}
    {result : β} (first : Concludes ahead search middle)
    (second : Concludes ahead (fun fuel => next fuel middle) result) :
    Concludes ahead (fun fuel => search fuel >>= next fuel) result := by
  obtain ⟨bound, enough, first⟩ := first
  obtain ⟨further, least, second⟩ := second
  refine ⟨max bound further, max enough least, fun fuel more => answers_bind_iff.mpr ?_⟩
  refine ⟨middle, (first fuel (by omega)).mono ?_, (second fuel (by omega)).mono ?_⟩
  · rintro distance number ⟨near, shown⟩
    exact ⟨by omega, shown⟩
  · rintro distance number ⟨near, shown⟩
    exact ⟨by omega, shown⟩

/-- A search that goes on with a conclusion concludes if its second part does. -/
theorem Concludes.exists_bind {search : Nat → Search α} {next : Nat → α → Search β} {middle : α}
    (first : Concludes ahead search middle)
    (second : ∃ result, Concludes ahead (fun fuel => next fuel middle) result) :
    ∃ result, Concludes ahead (fun fuel => search fuel >>= next fuel) result := by
  obtain ⟨result, second⟩ := second
  exact ⟨result, first.bind second⟩

theorem Concludes.done (result : α) : Concludes ahead (fun _ => Dialogue.done result) result :=
  ⟨0, 0, fun _ _ => .done result⟩

theorem Concludes.symbol (shown : ahead distance number) :
    Concludes ahead (fun _ => Search.symbol distance) number :=
  ⟨distance + 1, 0, fun _ _ => answers_symbol_iff.mpr ⟨by omega, shown⟩⟩

theorem Concludes.lost {next : Nat → Unit → Search α} {result : α}
    (rest : Concludes ahead (fun fuel => next fuel ()) result) :
    Concludes ahead (fun fuel => .ask .lost (next fuel)) result := by
  obtain ⟨bound, enough, rest⟩ := rest
  exact ⟨bound, enough, fun fuel more => .lost (rest fuel more)⟩

variable {table : LrTable} {stack : StateStack} {symbol : Nat}

theorem Concludes.advance {outcome : LrTable.Outcome}
    (advances : table.Advances stack symbol outcome) :
    Concludes ahead (fun fuel => ofRun (table.advance fuel stack symbol)) outcome := by
  obtain ⟨enough, advanced⟩ := advances
  exact ⟨0, enough, fun fuel more => answers_ofRun_iff.mpr (LrTable.advance_mono advanced more)⟩

theorem Concludes.expected {expectation : LrTable.Expectation}
    (expects : table.Expects stack expectation) :
    Concludes ahead (fun fuel => ofRun (table.expected fuel stack)) expectation := by
  obtain ⟨enough, found⟩ := expects
  exact ⟨0, enough, fun fuel more => answers_ofRun_iff.mpr (LrTable.expected_mono found more)⟩

end Search

end TableDriven.Repair
