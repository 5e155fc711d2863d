import TableDriven.Proofs.Repair.Insertions

/-! # The search finds the least repair

`search_least`: what the search answers is the most preferred of the valid repairs, and nothing if
there is none.
-/

namespace TableDriven.Repair

variable {table : LrTable} {ahead : Nat → Nat → Prop} {stack : StateStack} {best : Option Repair}
  {deletions spent fuel : Nat}

section
variable (unique : Unambiguous ahead) (deletes : Deletes table ahead deletions spent)
  (least : LeastOf table (Seen table ahead stack deletions 0) best)
include unique deletes least

omit least in
/-- A valid repair that was not seen before these deletions costs at least as much as they do. -/
theorem Valid.spent_le {repair : Repair} (valid : Valid table ahead stack repair)
    (later : ¬Before table deletions 0 repair) :
    deletions ≤ repair.deletions ∧ spent ≤ repair.cost := by
  obtain ⟨-, -, ⟨paid, deletes', cost⟩, -⟩ := valid
  simp only [Before] at later
  have more : deletions ≤ repair.deletions := by omega
  have paid := deletes.le_of_le unique deletes' more
  omega

theorem LeastOf.skipDeletions (worse : improves spent best = false) :
    LeastOf table (Valid table ahead stack) best := by
  refine least.skip (fun _ valid => valid) (fun _ seen => seen.1) fun repair valid later => ?_
  exact improves_eq_false_of_le worse (valid.spent_le unique deletes later).2

omit least in
/-- The deletion alone is the only repair at its place. -/
theorem Valid.eq_deletion {repair : Repair} (valid : Valid table ahead stack repair)
    (deleted : repair.deletions = deletions) (placed : place table repair.insertion = 0) :
    repair = ⟨deletions, .nothing, spent⟩ := by
  obtain ⟨-, -, ⟨paid, deletes', cost⟩, next, inserts, -⟩ := valid
  obtain ⟨count, insertion, total⟩ := repair
  dsimp only at *
  subst deleted
  obtain rfl := deletes.unique unique deletes'
  cases inserts with
  | nothing =>
    rw [cost]
    rfl
  | single _ _ =>
    simp only [place] at placed
    omega
  | continuation some _ _ =>
    have positive := List.length_pos_iff.mpr some
    simp only [place] at placed
    omega

/-- A valid deletion alone is the least of all: what was not seen before costs as much and comes
later. -/
theorem LeastOf.improveDeletion (better : improves spent best = true)
    (valid : Valid table ahead stack ⟨deletions, .nothing, spent⟩) :
    LeastOf table (Valid table ahead stack) (some ⟨deletions, .nothing, spent⟩) := by
  refine least.improve (fun _ valid => valid) valid better fun repair other later => ?_
  obtain ⟨more, paid⟩ := other.spent_le unique deletes later
  by_cases here : repair.deletions = deletions ∧ place table repair.insertion = 0
  · exact .inl (other.eq_deletion unique deletes here.1 here.2)
  · -- It has more deletions or a later place, and no lower cost.
    right
    have placed : place table .nothing = 0 := rfl
    simp only [Precedes, placed]
    omega

theorem LeastOf.skipDeletion (invalid : ¬Valid table ahead stack ⟨deletions, .nothing, spent⟩) :
    LeastOf table (Seen table ahead stack deletions 1) best :=
  least.skipPlace fun _ valid deleted placed =>
    absurd (valid.eq_deletion unique deletes deleted placed ▸ valid) invalid

end

section
variable (unique : Unambiguous ahead) (deletes : Deletes table ahead deletions spent)
  (allowed : deletions ≤ table.maxDeletion.toNat)
include unique deletes allowed

theorem tryDeletion_iff_valid {tried : Bool}
    (answers : Search.Answers ahead (tryDeletion table fuel stack deletions) tried) :
    tried = true ↔ Valid table ahead stack ⟨deletions, .nothing, spent⟩ := by
  simp only [tryDeletion] at answers
  split at answers
  next none =>
    cases answers
    refine iff_of_false Bool.false_ne_true fun valid => ?_
    have some := valid.changes rfl
    exact absurd none (Nat.pos_iff_ne_zero.mp some)
  next some =>
    refine (validate_iff_passes unique answers).trans ⟨fun passes => ?_, fun valid => ?_⟩
    · exact ⟨allowed, fun _ => Nat.pos_of_ne_zero some, ⟨spent, deletes, rfl⟩, stack, .nothing,
        passes⟩
    · obtain ⟨-, -, -, next, inserts, passes⟩ := valid
      rwa [inserts.unique .nothing] at passes

/-- Behind all insertions the best repair is the least behind these deletions. -/
theorem tryInsertions_least {result : Option Repair}
    (least : LeastOf table (Seen table ahead stack deletions 1) best)
    (answers : Search.Answers ahead
      (tryInsertions table fuel stack deletions spent best) result) :
    LeastOf table (Seen table ahead stack (deletions + 1) 0) result := by
  simp only [tryInsertions, Search.answers_bind_iff] at answers
  obtain ⟨middle, singles, continuations⟩ := answers
  have least := trySingles_least unique deletes allowed (List.nil_append _).symm least singles
  have follows : Follows table stack [].reverse stack := .nil stack
  exact tryContinuation_least unique deletes allowed follows (Nat.zero_add _) least continuations

end

section
variable (least : LeastOf table (Seen table ahead stack (deletions + 1) 0) best)
include least

/-- Where no more is deleted the best repair is the least of all. -/
theorem LeastOf.noMoreDeletions
    (most : ∀ repair, Valid table ahead stack repair → repair.deletions ≤ deletions) :
    LeastOf table (Valid table ahead stack) best := by
  refine least.skip (fun _ valid => valid) (fun _ seen => seen.1) fun repair valid later => ?_
  exact absurd (.inl (Nat.lt_succ_of_le (most repair valid))) later

/-- A repair for nothing is not improved on. -/
theorem LeastOf.free (free : improves 0 best = false) :
    LeastOf table (Valid table ahead stack) best := by
  exact least.skip (fun _ valid => valid) (fun _ seen => seen.1)
    fun _ _ _ => improves_eq_false_of_le free (Nat.zero_le _)

end

/-- The end of file and markers are never deleted, so no valid repair deletes more. -/
theorem Valid.deletions_le {repair : Repair} {symbol : Nat} (unique : Unambiguous ahead)
    (valid : Valid table ahead stack repair) (shown : ahead deletions symbol)
    (stays : symbol = table.eof ∨ table.isMarker symbol = true) :
    repair.deletions ≤ deletions := by
  apply Decidable.byContradiction
  intro later
  obtain ⟨paid, deletes, -⟩ := valid.costs
  obtain ⟨other, seen, noEof, unmarked⟩ := deletes.exists_symbol (Nat.not_le.mp later)
  cases unique _ _ _ shown seen
  simp [noEof, unmarked] at stays

/-- The search goes on from the least of the repairs before some deletions to the least of all. -/
theorem searchFrom_least {left deletions spent : Nat} {best result : Option Repair}
    (unique : Unambiguous ahead)
    (deletes : Deletes table ahead deletions spent)
    (room : deletions + left = table.maxDeletion.toNat)
    (least : LeastOf table (Seen table ahead stack deletions 0) best)
    (answers : Search.Answers ahead
      (searchFrom table fuel stack left deletions spent best) result) :
    LeastOf table (Valid table ahead stack) result := by
  have allowed : deletions ≤ table.maxDeletion.toNat := by omega
  rw [searchFrom.eq_def] at answers
  dsimp only at answers
  split at answers
  next worse =>
    cases answers
    exact least.skipDeletions unique deletes (by simpa using worse)
  next better =>
  simp only [Search.answers_bind_iff] at answers
  obtain ⟨tried, deleted, answers⟩ := answers
  have decided := tryDeletion_iff_valid unique deletes allowed deleted
  cases tried with
  | true =>
    cases answers
    exact least.improveDeletion unique deletes (by simpa using better) (decided.mp rfl)
  | false =>
  have least := least.skipDeletion unique deletes (mt decided.mpr Bool.false_ne_true)
  simp only [Bool.false_eq_true, if_false, Search.answers_bind_iff] at answers
  obtain ⟨middle, inserted, answers⟩ := answers
  have least := tryInsertions_least unique deletes allowed least inserted
  cases left with
  | zero =>
    cases answers
    refine least.noMoreDeletions fun repair valid => ?_
    rw [← Nat.add_zero deletions, room]
    exact valid.allowed
  | succ left =>
    dsimp only at answers
    split at answers
    next free =>
      cases answers
      exact least.free (by simpa using free)
    next =>
    simp only [Search.answers_bind_iff, Search.answers_symbol_iff] at answers
    obtain ⟨symbol, shown, answers⟩ := answers
    split at answers
    next stays =>
      cases answers
      exact least.noMoreDeletions fun repair valid =>
        valid.deletions_le unique shown (by simpa using stays)
    next goes =>
      obtain ⟨noEof, unmarked⟩ : symbol ≠ table.eof ∧ table.isMarker symbol = false := by
        simpa using goes
      exact searchFrom_least unique (.more deletes shown noEof unmarked) (by omega) least answers
termination_by left

/-- **The search finds the least repair.**  Where a search answers, it answers the valid repair
that precedes all others, and nothing if no repair is valid. -/
theorem search_least {result : Option Repair} (unique : Unambiguous ahead)
    (answers : Search.Answers ahead (search table fuel stack) result) :
    LeastOf table (Valid table ahead stack) result := by
  refine searchFrom_least unique .none (Nat.zero_add _) ?_ answers
  rintro repair ⟨-, before⟩
  simp only [Before] at before
  omega

end TableDriven.Repair
