import TableDriven.Proofs.Repair.Valid

/-! # The best repair so far

The search visits the repairs in the order of their deletions and places, and keeps the best one
so far.  The invariant is that it is the least of the valid repairs that have been `Seen`.  A part
of the space is left out (`LeastOf.skip`) where nothing is valid or nothing is cheaper than the
best so far, which comes first and so wins a tie; a new best one (`LeastOf.improve`) is cheaper
than all before it.
-/

namespace TableDriven.Repair

variable {table : LrTable} {ahead : Nat → Nat → Prop} {stack : StateStack} {best : Option Repair}
  {deletions position : Nat}

/-- The repair comes before a position behind some deletions. -/
def Before (table : LrTable) (deletions position : Nat) (repair : Repair) : Prop :=
  repair.deletions < deletions ∨
    repair.deletions = deletions ∧ place table repair.insertion < position

/-- The valid repairs before a position. -/
def Seen (table : LrTable) (ahead : Nat → Nat → Prop) (stack : StateStack)
    (deletions position : Nat) (repair : Repair) : Prop :=
  Valid table ahead stack repair ∧ Before table deletions position repair

theorem Seen.mono {later : Nat} {repair : Repair}
    (seen : Seen table ahead stack deletions position repair) (more : position ≤ later) :
    Seen table ahead stack deletions later repair := by
  refine ⟨seen.1, ?_⟩
  have earlier := seen.2
  simp only [Before] at earlier ⊢
  omega

/-- What does not improve on the best repair does not at a higher cost either. -/
theorem improves_eq_false_of_le {cost higher : Nat} (worse : improves cost best = false)
    (more : cost ≤ higher) : improves higher best = false := by
  cases best with
  | none => cases worse
  | some repair =>
    simp only [improves, decide_eq_false_iff_not] at worse ⊢
    omega

section
variable (least : LeastOf table (Seen table ahead stack deletions position) best)
  {more : Repair → Prop}
include least

section
variable (valid : ∀ repair, more repair → Valid table ahead stack repair)
include valid

/-- The best repair stays the least of more repairs if none of the others is cheaper. -/
theorem LeastOf.skip
    (grows : ∀ repair, Seen table ahead stack deletions position repair → more repair)
    (rest : ∀ repair, more repair → ¬Before table deletions position repair →
      improves repair.cost best = false) :
    LeastOf table more best := by
  cases best with
  | none =>
    intro repair member
    by_cases before : Before table deletions position repair
    · exact least repair ⟨valid repair member, before⟩
    · cases rest repair member before
  | some best =>
    refine ⟨grows best least.1, fun repair member => ?_⟩
    by_cases before : Before table deletions position repair
    · exact least.2 repair ⟨valid repair member, before⟩
    · have cost : best.cost ≤ repair.cost := by simpa [improves] using rest repair member before
      have earlier := least.1.2
      simp only [Before] at before earlier
      rw [Precedes]
      omega

/-- A repair that is cheaper than the best so far is the least of those before it and those that
it precedes. -/
theorem LeastOf.improve {found : Repair} (new : more found)
    (better : improves found.cost best = true)
    (rest : ∀ repair, more repair → ¬Before table deletions position repair →
      repair = found ∨ Precedes table found repair) :
    LeastOf table more (some found) := by
  refine ⟨new, fun repair member => ?_⟩
  by_cases before : Before table deletions position repair
  · right
    have seen : Seen table ahead stack deletions position repair := ⟨valid repair member, before⟩
    cases best with
    | none => exact absurd seen (least repair)
    | some best =>
      have cheaper : found.cost < best.cost := by simpa [improves] using better
      rcases least.2 repair seen with rfl | precedes
      · exact .inl cheaper
      · simp only [Precedes] at precedes ⊢
        omega
  · exact rest repair member before

end

/-- The best repair stays the least with a place at which nothing is both valid and cheaper. -/
theorem LeastOf.skipPlace
    (none : ∀ repair, Valid table ahead stack repair → repair.deletions = deletions →
      place table repair.insertion = position → improves repair.cost best = false) :
    LeastOf table (Seen table ahead stack deletions (position + 1)) best := by
  refine least.skip (fun _ seen => seen.1) (fun _ seen => seen.mono (Nat.le_succ _))
    fun repair seen later => ?_
  have placed := seen.2
  simp only [Before] at placed later
  exact none repair seen.1 (by omega) (by omega)

end

end TableDriven.Repair
