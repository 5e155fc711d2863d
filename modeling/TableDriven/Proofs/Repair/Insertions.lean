import TableDriven.Proofs.Repair.Seen

/-! # Insertions behind the same deletions

The two loops over what may be inserted.  Each carries the best repair from the least before a
place to the least before the next (`trySingles_least`, `tryContinuation_least`), one symbol at a
time: the symbol is skipped, or its repair is the new best one.
-/

namespace TableDriven.Repair

variable {table : LrTable} {ahead : Nat → Nat → Prop} {stack : StateStack} {best : Option Repair}
  {deletions spent fuel : Nat}

/-- At the place of a listed symbol stands the insertion of that symbol. -/
theorem insertion_eq_single {insertion : Insertion} {next : StateStack} {symbol : Nat}
    {before rest : List Nat} (listed : singles table = before ++ symbol :: rest)
    (inserts : Inserts table stack insertion next)
    (placed : place table insertion = 1 + before.length) : insertion = .single symbol := by
  have length : (singles table).length = before.length + (rest.length + 1) := by simp [listed]
  cases inserts with
  | nothing =>
    simp only [place] at placed
    omega
  | @single other terminal next member advances =>
    have index : (singles table).idxOf other = before.length := by
      simp only [place] at placed
      omega
    have inside := List.idxOf_lt_length_of_mem member
    have found : (singles table)[(singles table).idxOf other]? = some other := by
      rw [List.getElem?_eq_getElem inside, List.getElem_idxOf]
    rw [index, listed] at found
    have same : symbol = other := by simpa using found
    rw [same]
  | continuation some _ _ =>
    have positive := List.length_pos_iff.mpr some
    simp only [place] at placed
    omega

section
variable (unique : Unambiguous ahead) (deletes : Deletes table ahead deletions spent)
  (allowed : deletions ≤ table.maxDeletion.toNat)

include deletes allowed in
theorem valid_single_iff {symbol terminal : Nat} {next : StateStack}
    (member : symbol ∈ singles table)
    (advances : table.Advances stack symbol (.shifted terminal next)) :
    Valid table ahead stack ⟨deletions, .single symbol, spent + table.insertionCost symbol⟩ ↔
      Passes table ahead (demand table) next deletions := by
  constructor
  · rintro ⟨-, -, -, last, inserts, passes⟩
    rwa [inserts.unique (.single member advances)] at passes
  · intro passes
    refine ⟨allowed, by simp, ⟨spent, deletes, ?_⟩, next, .single member advances, passes⟩
    simp [Insertion.symbols]

include unique deletes in
/-- A valid repair at the place of a listed symbol inserts that symbol at its cost. -/
theorem Valid.eq_single {repair : Repair} {symbol : Nat} {before rest : List Nat}
    (valid : Valid table ahead stack repair) (listed : singles table = before ++ symbol :: rest)
    (deleted : repair.deletions = deletions)
    (placed : place table repair.insertion = 1 + before.length) :
    repair = ⟨deletions, .single symbol, spent + table.insertionCost symbol⟩ := by
  obtain ⟨-, -, ⟨paid, deletes', cost⟩, next, inserts, -⟩ := valid
  obtain ⟨count, insertion, total⟩ := repair
  dsimp only at *
  subst deleted
  obtain rfl := insertion_eq_single listed inserts placed
  obtain rfl := deletes.unique unique deletes'
  obtain rfl : total = spent + table.insertionCost symbol := by
    simpa [Insertion.symbols] using cost
  rfl

section
variable {symbol : Nat} {before rest : List Nat} (listed : singles table = before ++ symbol :: rest)
  (least : LeastOf table (Seen table ahead stack deletions (1 + before.length)) best)
include unique deletes listed least

theorem LeastOf.skipSingle
    (none : improves (spent + table.insertionCost symbol) best = false ∨
      ¬Valid table ahead stack ⟨deletions, .single symbol, spent + table.insertionCost symbol⟩) :
    LeastOf table (Seen table ahead stack deletions (1 + before.length + 1)) best := by
  refine least.skipPlace fun repair valid deleted placed => ?_
  have same := valid.eq_single unique deletes listed deleted placed
  subst same
  exact none.resolve_right fun invalid => invalid valid

theorem LeastOf.improveSingle
    (better : improves (spent + table.insertionCost symbol) best = true)
    (valid : Valid table ahead stack
      ⟨deletions, .single symbol, spent + table.insertionCost symbol⟩) :
    LeastOf table (Seen table ahead stack deletions (1 + before.length + 1))
      (some ⟨deletions, .single symbol, spent + table.insertionCost symbol⟩) := by
  -- The symbol may be listed twice; its place is the first one.
  have placed : (singles table).idxOf symbol ≤ before.length := by
    rw [listed, List.idxOf_append]
    split
    next member => exact Nat.le_of_lt (List.idxOf_lt_length_of_mem member)
    next => simp
  have here : Before table deletions (1 + before.length + 1)
      ⟨deletions, .single symbol, spent + table.insertionCost symbol⟩ := by
    refine .inr ⟨rfl, ?_⟩
    simp only [place]
    omega
  refine least.improve (fun _ seen => seen.1) ⟨valid, here⟩ better fun repair seen later => ?_
  have placed := seen.2
  simp only [Before] at placed later
  exact .inl (seen.1.eq_single unique deletes listed (by omega) (by omega))

end

include unique deletes allowed

/-- Behind the single symbols the best repair is the least of those up to them. -/
theorem trySingles_least {before rest : List Nat} {result : Option Repair}
    (listed : singles table = before ++ rest)
    (least : LeastOf table (Seen table ahead stack deletions (1 + before.length)) best)
    (answers : Search.Answers ahead
      (trySingles table fuel stack deletions spent rest best) result) :
    LeastOf table (Seen table ahead stack deletions (1 + (singles table).length)) result := by
  -- On the symbols still to be tried; those tried before give the place.
  induction rest generalizing before best with
  | nil =>
    cases answers
    rw [List.append_nil] at listed
    rwa [listed]
  | cons symbol rest ih =>
    have listed' : singles table = (before ++ [symbol]) ++ rest := by simp [listed]
    have length : 1 + (before ++ [symbol]).length = 1 + before.length + 1 := by simp; omega
    have member : symbol ∈ singles table := by simp [listed]
    simp only [trySingles] at answers
    split at answers
    next better =>
      simp only [Search.answers_bind_iff, Search.answers_ofRun_iff] at answers
      obtain ⟨outcome, advanced, answers⟩ := answers
      have advances : table.Advances stack symbol outcome := ⟨fuel, advanced⟩
      cases outcome with
      | accepted | error =>
        refine ih listed' (length ▸ least.skipSingle unique deletes listed (.inr ?_)) answers
        rintro ⟨-, -, -, next, inserts, -⟩
        cases inserts with
        | single _ shifts => cases advances.unique shifts
      | shifted terminal next =>
        simp only [Search.answers_bind_iff] at answers
        obtain ⟨passed, validated, answers⟩ := answers
        have decided := (validate_iff_passes unique validated).trans
          (valid_single_iff deletes allowed member advances).symm
        cases passed with
        | false =>
          have invalid := mt decided.mpr Bool.false_ne_true
          exact ih listed' (length ▸ least.skipSingle unique deletes listed (.inr invalid)) answers
        | true =>
          have valid := decided.mp rfl
          exact ih listed' (length ▸ least.improveSingle unique deletes listed better valid) answers
    next worse =>
      have worse : improves (spent + table.insertionCost symbol) best = false := by
        simpa using worse
      exact ih listed' (length ▸ least.skipSingle unique deletes listed (.inl worse)) answers

end

/-! ## Continuations -/

section
variable {start : StateStack} {inserted : List Nat} (unique : Unambiguous ahead)
  (deletes : Deletes table ahead deletions spent)
  (follows : Follows table start inserted.reverse stack)
include unique deletes follows

/-- A valid repair behind the place of what is inserted so far inserts that and more. -/
theorem Valid.eq_continuation {repair : Repair} (valid : Valid table ahead start repair)
    (deleted : repair.deletions = deletions)
    (later : 1 + (singles table).length + inserted.length ≤ place table repair.insertion) :
    ∃ symbol rest next, repair = ⟨deletions, .continuation (inserted.reverse ++ symbol :: rest),
        spent + insertionCost table inserted.reverse + insertionCost table (symbol :: rest)⟩ ∧
      inserted.length + (rest.length + 1) ≤ table.maxInsertion.toNat ∧
      Follows table stack (symbol :: rest) next ∧
      Passes table ahead (demand table) next deletions := by
  obtain ⟨-, -, ⟨paid, deletes', cost⟩, next, inserts, passes⟩ := valid
  obtain ⟨count, insertion, total⟩ := repair
  dsimp only at *
  subst deleted
  obtain rfl := deletes.unique unique deletes'
  cases inserts with
  | nothing =>
    simp only [place] at later
    omega
  | single member _ =>
    have inside := List.idxOf_lt_length_of_mem member
    simp only [place] at later
    omega
  | @continuation symbols _ some short longer =>
    simp only [place] at later
    have length : inserted.reverse.length < symbols.length := by
      rw [List.length_reverse]
      omega
    obtain ⟨rest, rfl, continues⟩ := follows.split longer (Nat.le_of_lt length)
    cases rest with
    | nil => simp at length
    | cons symbol rest =>
      refine ⟨symbol, rest, next, ?_, ?_, continues, passes⟩
      · simp only [Insertion.symbols, insertionCost_append] at cost
        rw [cost, Nat.add_assoc]
      · simpa using short

variable (least : LeastOf table
  (Seen table ahead start deletions (1 + (singles table).length + inserted.length)) best)
include least

/-- Nothing that inserts more is better: the best repair is the least behind these deletions. -/
theorem LeastOf.skipContinuations
    (none : ∀ symbol rest next, Follows table stack (symbol :: rest) next →
      inserted.length + (rest.length + 1) ≤ table.maxInsertion.toNat →
        improves (spent + insertionCost table inserted.reverse +
          insertionCost table (symbol :: rest)) best = false) :
    LeastOf table (Seen table ahead start (deletions + 1) 0) best := by
  have grows (repair : Repair)
      (seen : Seen table ahead start deletions
        (1 + (singles table).length + inserted.length) repair) :
      Seen table ahead start (deletions + 1) 0 repair := by
    refine ⟨seen.1, ?_⟩
    have earlier := seen.2
    simp only [Before] at earlier ⊢
    omega
  refine least.skip (fun _ seen => seen.1) grows fun repair seen later => ?_
  have placed := seen.2
  simp only [Before] at placed later
  obtain ⟨symbol, rest, next, rfl, short, continues, -⟩ :=
    seen.1.eq_continuation unique deletes follows (by omega) (by omega)
  exact none symbol rest next continues short

section
variable {symbol terminal : Nat} {waiting next : StateStack}
  (expects : table.Expects stack (.terminal symbol waiting))
  (advances : table.Advances waiting symbol (.shifted terminal next))
include expects advances

/-- One more symbol makes no valid repair: the best one is the least with the place of that one. -/
theorem LeastOf.skipContinuation (fails : ¬Passes table ahead (demand table) next deletions) :
    LeastOf table
      (Seen table ahead start deletions (1 + (singles table).length + (inserted.length + 1)))
      best := by
  refine least.skipPlace fun repair valid deleted placed => absurd ?_ fails
  obtain ⟨other, rest, last, rfl, -, continues, passes⟩ :=
    valid.eq_continuation unique deletes follows deleted (Nat.le_of_eq placed.symm)
  have single : rest = [] := by
    simp only [place, List.length_append, List.length_reverse, List.length_cons] at placed
    exact List.length_eq_zero_iff.mp (by omega)
  subst single
  obtain ⟨_, _, _, same, -, advanced, ended⟩ := continues.uncons expects
  cases same
  cases advances.unique advanced
  cases ended
  exact passes

/-- One more symbol makes a valid repair that is cheaper than the best so far.  Those that insert
more come later and are no cheaper. -/
theorem LeastOf.improveContinuation (allowed : deletions ≤ table.maxDeletion.toNat)
    (other : symbol ≠ table.eof) (short : inserted.length + 1 ≤ table.maxInsertion.toNat)
    (better : improves (spent + insertionCost table inserted.reverse + table.insertionCost symbol)
      best = true)
    (passes : Passes table ahead (demand table) next deletions) :
    LeastOf table (Seen table ahead start (deletions + 1) 0)
      (some ⟨deletions, .continuation (inserted.reverse ++ [symbol]),
        spent + insertionCost table inserted.reverse + table.insertionCost symbol⟩) := by
  have valid : Valid table ahead start ⟨deletions, .continuation (inserted.reverse ++ [symbol]),
      spent + insertionCost table inserted.reverse + table.insertionCost symbol⟩ := by
    refine ⟨allowed, by simp, ⟨spent, deletes, ?_⟩, next, .continuation (by simp) ?_ ?_, passes⟩
    · simp only [Insertion.symbols, insertionCost_append, insertionCost_cons, insertionCost_nil]
      omega
    · simpa using short
    · exact follows.append (.cons expects other advances (.nil next))
  refine least.improve (fun _ seen => seen.1) ⟨valid, .inl (Nat.lt_succ_self deletions)⟩ better
    fun repair seen later => ?_
  have placed := seen.2
  simp only [Before] at placed later
  obtain ⟨found, rest, last, rfl, -, continues, -⟩ :=
    seen.1.eq_continuation unique deletes follows (by omega) (by omega)
  obtain ⟨_, _, _, same, -⟩ := continues.uncons expects
  cases same
  -- Longer chains come later and cost no less.
  cases rest with
  | nil => exact .inl (by simp)
  | cons more rest =>
    right
    simp only [Precedes, place, List.length_append, List.length_reverse, List.length_cons,
      List.length_nil, insertionCost_cons, true_and]
    omega

end

end

/-- Behind the continuations the best repair is the least behind these deletions. -/
theorem tryContinuation_least {start : StateStack} {inserted : List Nat} {left : Nat}
    {result : Option Repair} (unique : Unambiguous ahead)
    (deletes : Deletes table ahead deletions spent) (allowed : deletions ≤ table.maxDeletion.toNat)
    (follows : Follows table start inserted.reverse stack)
    (room : inserted.length + left = table.maxInsertion.toNat)
    (least : LeastOf table
      (Seen table ahead start deletions (1 + (singles table).length + inserted.length)) best)
    (answers : Search.Answers ahead (tryContinuation table fuel deletions best left stack inserted
      (spent + insertionCost table inserted.reverse)) result) :
    LeastOf table (Seen table ahead start (deletions + 1) 0) result := by
  -- On the symbols that may still be inserted.  Whatever stops the chain rules out all that
  -- goes on with it, so that the best repair is the least of all continuations.
  induction left generalizing stack inserted with
  | zero =>
    cases answers
    refine least.skipContinuations unique deletes follows fun symbol rest next _ short => ?_
    omega
  | succ left ih =>
    simp only [tryContinuation, Search.answers_bind_iff, Search.answers_ofRun_iff] at answers
    obtain ⟨expectation, expected, answers⟩ := answers
    have expects : table.Expects stack expectation := ⟨fuel, expected⟩
    cases expectation with
    | nothing =>
      cases answers
      refine least.skipContinuations unique deletes follows fun symbol rest next continues _ => ?_
      obtain ⟨_, _, _, same, -⟩ := continues.uncons expects
      cases same
    | lost =>
      cases answers with
      | lost answers =>
        cases answers
        refine least.skipContinuations unique deletes follows fun symbol rest next continues _ => ?_
        obtain ⟨_, _, _, same, -⟩ := continues.uncons expects
        cases same
    | terminal symbol waiting =>
      dsimp only at answers
      split at answers
      next stops =>
        -- The end of file is expected, or every longer chain costs too much as well.
        cases answers
        refine least.skipContinuations unique deletes follows fun found rest next continues _ => ?_
        obtain ⟨_, _, _, same, other, -⟩ := continues.uncons expects
        cases same
        have worse : improves
            (spent + insertionCost table inserted.reverse + table.insertionCost symbol) best =
              false := by
          simpa [other] using stops
        rw [insertionCost_cons, ← Nat.add_assoc]
        exact improves_eq_false_of_le worse (Nat.le_add_right _ _)
      next goes =>
        obtain ⟨other, better⟩ : symbol ≠ table.eof ∧ improves
            (spent + insertionCost table inserted.reverse + table.insertionCost symbol) best =
              true := by
          simpa using goes
        simp only [Search.answers_bind_iff, Search.answers_ofRun_iff] at answers
        obtain ⟨outcome, advanced, answers⟩ := answers
        have advances : table.Advances waiting symbol outcome := ⟨fuel, advanced⟩
        cases outcome with
        | accepted | error =>
          cases answers
          refine least.skipContinuations unique deletes follows
            fun found rest next continues _ => ?_
          obtain ⟨_, _, _, same, -, shifts, -⟩ := continues.uncons expects
          cases same
          cases advances.unique shifts
        | shifted terminal next =>
          simp only [Search.answers_bind_iff] at answers
          obtain ⟨passed, validated, answers⟩ := answers
          have decided := validate_iff_passes unique validated
          cases passed with
          | true =>
            cases answers
            rw [List.reverse_cons]
            exact least.improveContinuation unique deletes follows expects advances allowed other
              (by omega) better (decided.mp rfl)
          | false =>
            have fails := mt decided.mpr Bool.false_ne_true
            have least := least.skipContinuation unique deletes follows expects advances fails
            have longer : Follows table start (symbol :: inserted).reverse next := by
              rw [List.reverse_cons]
              exact follows.append (.cons expects other advances (.nil next))
            refine ih longer (by rw [List.length_cons]; omega) least ?_
            simpa [Nat.add_assoc] using answers

end TableDriven.Repair
