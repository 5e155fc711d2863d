import TableDriven.TableFault

/-! # Lists of requirements

A check is a chain of requirements, on one thing or on each item of an array.  It passes if each
of them is met, and the lemmas here take the chain apart.
-/

namespace TableDriven

theorem ensureEach_eq_ok_iff {check : Nat → α → Except δ Unit} {items : List α} {first : Nat} :
    ensureEach first check items = .ok () ↔
      ∀ index item, items[index]? = some item → check (first + index) item = .ok () := by
  induction items generalizing first with
  | nil => simp [ensureEach]
  | cons item rest ih =>
    constructor
    · intro accepted index other found
      simp only [ensureEach] at accepted
      split at accepted
      next ok =>
        cases index with
        | zero =>
          simp only [List.getElem?_cons_zero, Option.some.injEq] at found
          exact found ▸ ok
        | succ index =>
          have later := ih.mp accepted index other (by simpa using found)
          rwa [Nat.add_assoc, Nat.add_comm 1] at later
      next => contradiction
    · intro each
      have head : check first item = .ok () := each 0 item rfl
      simp only [ensureEach, head]
      apply ih.mpr
      intro index other found
      have later := each (index + 1) other (by simpa using found)
      rwa [Nat.add_assoc, Nat.add_comm 1]

theorem ensureAll_eq_ok_iff {check : Nat → α → Except δ Unit} {items : Array α} :
    ensureAll items check = .ok () ↔
      ∀ index item, items[index]? = some item → check index item = .ok () := by
  simp [ensureAll, ensureEach_eq_ok_iff]

theorem and_then_eq_ok_iff {first second : Except δ Unit} :
    (first >>= fun _ => second) = .ok () ↔ first = .ok () ∧ second = .ok () := by
  cases first <;> simp

theorem mapError_eq_ok_iff {attempt : Except γ α} {describe : γ → δ} {result : α} :
    attempt.mapError describe = .ok result ↔ attempt = .ok result := by
  cases attempt with
  | ok => constructor <;> (intro same; cases same; rfl)
  | error => constructor <;> (intro passed; cases passed)

end TableDriven
