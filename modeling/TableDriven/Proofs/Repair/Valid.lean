import TableDriven.Proofs.Repair.Answers

/-! # Valid repairs

The space that the search for a repair is about, without the search: which tokens may be deleted
(`Deletes`), what may be inserted (`Inserts`), when the tokens behind a repair parse (`Passes`),
and which repairs are `Valid`.  `Precedes` orders repairs by what the search prefers: the lower
cost, then the fewer deletions, then the place of the insertion.
-/

namespace TableDriven.Repair

/-- The tokens from `distance` on are shifted one after the other, `count` of them, unless the end
of file is shifted or the input accepted before. -/
inductive Passes (table : LrTable) (ahead : Nat → Nat → Prop) : Nat → StateStack → Nat → Prop where
  | enough {stack : StateStack} {distance : Nat} : Passes table ahead 0 stack distance
  | accepted {count distance symbol : Nat} {stack : StateStack} (shown : ahead distance symbol)
      (advances : table.Advances stack symbol .accepted) :
      Passes table ahead (count + 1) stack distance
  | ended {count distance terminal : Nat} {stack next : StateStack}
      (shown : ahead distance table.eof)
      (advances : table.Advances stack table.eof (.shifted terminal next)) :
      Passes table ahead (count + 1) stack distance
  | shifted {count distance symbol terminal : Nat} {stack next : StateStack}
      (shown : ahead distance symbol)
      (advances : table.Advances stack symbol (.shifted terminal next))
      (rest : Passes table ahead count next (distance + 1)) :
      Passes table ahead (count + 1) stack distance

/-- The terminals that the unwinding table names, one behind the other, up to the end of file or
a terminal that is not shifted. -/
inductive Follows (table : LrTable) : StateStack → List Nat → StateStack → Prop where
  | nil (stack : StateStack) : Follows table stack [] stack
  | cons {stack waiting next last : StateStack} {symbol terminal : Nat} {symbols : List Nat}
      (expects : table.Expects stack (.terminal symbol waiting)) (other : symbol ≠ table.eof)
      (advances : table.Advances waiting symbol (.shifted terminal next))
      (rest : Follows table next symbols last) : Follows table stack (symbol :: symbols) last

/-- What may be inserted, and the stack behind it. -/
inductive Inserts (table : LrTable) (stack : StateStack) : Insertion → StateStack → Prop where
  | nothing : Inserts table stack .nothing stack
  | single {symbol terminal : Nat} {next : StateStack} (listed : symbol ∈ singles table)
      (advances : table.Advances stack symbol (.shifted terminal next)) :
      Inserts table stack (.single symbol) next
  | continuation {symbols : List Nat} {next : StateStack} (some : symbols ≠ [])
      (short : symbols.length ≤ table.maxInsertion.toNat)
      (follows : Follows table stack symbols next) :
      Inserts table stack (.continuation symbols) next

/-- The next `count` tokens may be deleted, at this cost: none is the end of file or a marker. -/
inductive Deletes (table : LrTable) (ahead : Nat → Nat → Prop) : Nat → Nat → Prop where
  | none : Deletes table ahead 0 0
  | more {count cost symbol : Nat} (deletes : Deletes table ahead count cost)
      (shown : ahead count symbol) (other : symbol ≠ table.eof)
      (unmarked : table.isMarker symbol = false) :
      Deletes table ahead (count + 1) (cost + table.deletionCost symbol)

/-- The cost of inserting symbols. -/
def insertionCost (table : LrTable) : List Nat → Nat
  | [] => 0
  | symbol :: symbols => table.insertionCost symbol + insertionCost table symbols

@[simp] theorem insertionCost_nil {table : LrTable} : insertionCost table [] = 0 := rfl

@[simp] theorem insertionCost_cons {table : LrTable} (symbol : Nat) (symbols : List Nat) :
    insertionCost table (symbol :: symbols) =
      table.insertionCost symbol + insertionCost table symbols := rfl

@[simp] theorem insertionCost_append {table : LrTable} (first second : List Nat) :
    insertionCost table (first ++ second) =
      insertionCost table first + insertionCost table second := by
  induction first with
  | nil => simp
  | cons symbol first ih => simp [ih, Nat.add_assoc]

/-- A repair that changes something and behind which the tokens parse. -/
structure Valid (table : LrTable) (ahead : Nat → Nat → Prop) (stack : StateStack)
    (repair : Repair) : Prop where
  allowed : repair.deletions ≤ table.maxDeletion.toNat
  changes : repair.insertion = .nothing → 0 < repair.deletions
  costs : ∃ spent, Deletes table ahead repair.deletions spent ∧
    repair.cost = spent + insertionCost table repair.insertion.symbols
  parses : ∃ next, Inserts table stack repair.insertion next ∧
    Passes table ahead (demand table) next repair.deletions

/-- The place of an insertion among those that are tried after the same deletions: nothing, then
the single symbols as listed, then the continuations, the shortest first. -/
def place (table : LrTable) : Insertion → Nat
  | .nothing => 0
  | .single symbol => 1 + (singles table).idxOf symbol
  | .continuation symbols => (singles table).length + symbols.length

/-- The first repair is preferred to the second. -/
def Precedes (table : LrTable) (first second : Repair) : Prop :=
  first.cost < second.cost ∨ first.cost = second.cost ∧
    (first.deletions < second.deletions ∨ first.deletions = second.deletions ∧
      place table first.insertion < place table second.insertion)

/-- The most preferred of some repairs, if there is any. -/
def LeastOf (table : LrTable) (repairs : Repair → Prop) : Option Repair → Prop
  | none => ∀ repair, ¬repairs repair
  | some best =>
    repairs best ∧ ∀ repair, repairs repair → repair = best ∨ Precedes table best repair

/-- There is one symbol at each distance, if any. -/
def Unambiguous (ahead : Nat → Nat → Prop) : Prop :=
  ∀ distance symbol other, ahead distance symbol → ahead distance other → symbol = other

section
variable {table : LrTable} {ahead : Nat → Nat → Prop} {stack next last : StateStack}
  {count cost other : Nat}

theorem Passes.mono {more : Nat → Nat → Prop} {distance : Nat}
    (passes : Passes table ahead count stack distance)
    (shows : ∀ distance symbol, ahead distance symbol → more distance symbol) :
    Passes table more count stack distance := by
  induction passes with
  | enough => exact .enough
  | accepted shown advances => exact .accepted (shows _ _ shown) advances
  | ended shown advances => exact .ended (shows _ _ shown) advances
  | shifted shown advances _ ih => exact .shifted (shows _ _ shown) advances ih

theorem Deletes.exists_le (deletes : Deletes table ahead count cost) (fewer : other ≤ count) :
    ∃ spent ≤ cost, Deletes table ahead other spent := by
  induction deletes with
  | none =>
    obtain rfl : other = 0 := by omega
    exact ⟨0, Nat.le_refl _, .none⟩
  | @more count cost symbol deletes shown noEof unmarked ih =>
    by_cases all : other = count + 1
    · subst all
      exact ⟨_, Nat.le_refl _, .more deletes shown noEof unmarked⟩
    · obtain ⟨spent, less, prior⟩ := ih (by omega)
      exact ⟨spent, by omega, prior⟩

theorem Deletes.exists_symbol (deletes : Deletes table ahead count cost) (fewer : other < count) :
    ∃ symbol, ahead other symbol ∧ symbol ≠ table.eof ∧ table.isMarker symbol = false := by
  induction deletes with
  | none => omega
  | @more count cost symbol deletes shown noEof unmarked ih =>
    by_cases last : other = count
    · subst last
      exact ⟨symbol, shown, noEof, unmarked⟩
    · exact ih (by omega)

theorem Deletes.unique (unique : Unambiguous ahead) {spent : Nat}
    (first : Deletes table ahead count cost) (second : Deletes table ahead count spent) :
    cost = spent := by
  induction first generalizing spent with
  | none =>
    cases second
    rfl
  | more _ shown _ _ ih =>
    cases second with
    | more prior other _ _ =>
      cases unique _ _ _ shown other
      rw [ih prior]

/-- The more is deleted, the more it costs. -/
theorem Deletes.le_of_le (unique : Unambiguous ahead) {spent : Nat}
    (first : Deletes table ahead count cost) (second : Deletes table ahead other spent)
    (fewer : count ≤ other) : cost ≤ spent := by
  obtain ⟨prior, less, deletes⟩ := second.exists_le fewer
  rw [first.unique unique deletes]
  exact less

/-- Only what is expected follows a stack, and only if it is shifted. -/
theorem Follows.uncons {expectation : LrTable.Expectation} {symbol : Nat} {symbols : List Nat}
    (follows : Follows table stack (symbol :: symbols) last)
    (expects : table.Expects stack expectation) :
    ∃ waiting terminal next, expectation = .terminal symbol waiting ∧ symbol ≠ table.eof ∧
      table.Advances waiting symbol (.shifted terminal next) ∧
        Follows table next symbols last := by
  cases follows with
  | cons expected other advances rest =>
    exact ⟨_, _, _, expects.unique expected, other, advances, rest⟩

/-- One continuation of a stack is the beginning of every longer one. -/
theorem Follows.split {symbols longer : List Nat} (first : Follows table stack symbols next)
    (second : Follows table stack longer last) (short : symbols.length ≤ longer.length) :
    ∃ rest, longer = symbols ++ rest ∧ Follows table next rest last := by
  induction first generalizing longer with
  | nil => exact ⟨longer, rfl, second⟩
  | cons expects _ advances _ ih =>
    cases longer with
    | nil => simp at short
    | cons other longer =>
      obtain ⟨_, _, _, same, -, advanced, rest⟩ := second.uncons expects
      cases same
      cases advances.unique advanced
      obtain ⟨left, rfl, follows⟩ := ih rest (by simpa using short)
      exact ⟨left, rfl, follows⟩

theorem Follows.append {symbols more : List Nat} (first : Follows table stack symbols next)
    (second : Follows table next more last) : Follows table stack (symbols ++ more) last := by
  induction first with
  | nil => exact second
  | cons expects other advances _ ih => exact .cons expects other advances (ih second)

theorem Follows.unique {symbols : List Nat} (first : Follows table stack symbols next)
    (second : Follows table stack symbols last) : next = last := by
  obtain ⟨rest, same, follows⟩ := first.split second (Nat.le_refl _)
  rw [List.self_eq_append_right] at same
  subst same
  cases follows
  rfl

theorem Inserts.unique {insertion : Insertion} (first : Inserts table stack insertion next)
    (second : Inserts table stack insertion last) : next = last := by
  cases first with
  | nothing =>
    cases second
    rfl
  | single _ advances =>
    cases second with
    | single _ advanced =>
      cases advances.unique advanced
      rfl
  | continuation _ _ follows =>
    cases second with
    | continuation _ _ followed => exact follows.unique followed

end

section
variable {table : LrTable} {ahead : Nat → Nat → Prop} {fuel count distance : Nat}
  {stack : StateStack}

/-- Whether tokens parse is decided by what becomes of the first of them. -/
theorem passes_succ_iff (unique : Unambiguous ahead) {symbol : Nat} {outcome : LrTable.Outcome}
    (shown : ahead distance symbol) (advances : table.Advances stack symbol outcome) :
    Passes table ahead (count + 1) stack distance ↔
      match outcome with
      | .error => False
      | .accepted => True
      | .shifted _ next => symbol = table.eof ∨ Passes table ahead count next (distance + 1) := by
  constructor
  · intro passes
    cases passes with
    | accepted seen advanced =>
      cases unique _ _ _ shown seen
      cases advances.unique advanced
      trivial
    | ended seen advanced =>
      cases unique _ _ _ shown seen
      cases advances.unique advanced
      exact .inl rfl
    | shifted seen advanced rest =>
      cases unique _ _ _ shown seen
      cases advances.unique advanced
      exact .inr rest
  · intro decided
    cases outcome with
    | error => contradiction
    | accepted => exact .accepted shown advances
    | shifted terminal next =>
      rcases decided with rfl | rest
      · exact .ended shown advances
      · exact .shifted shown advances rest

/-- Validation answers whether the tokens parse. -/
theorem validate_iff_passes (unique : Unambiguous ahead) {passed : Bool}
    (answers : Search.Answers ahead (validate table fuel count stack distance) passed) :
    passed = true ↔ Passes table ahead count stack distance := by
  induction count generalizing stack distance with
  | zero =>
    cases answers
    exact iff_of_true rfl .enough
  | succ count ih =>
    simp only [validate, Search.answers_bind_iff, Search.answers_symbol_iff,
      Search.answers_ofRun_iff] at answers
    obtain ⟨symbol, shown, outcome, advanced, answers⟩ := answers
    rw [passes_succ_iff unique shown ⟨fuel, advanced⟩]
    cases outcome with
    | error | accepted =>
      cases answers
      simp
    | shifted terminal next =>
      by_cases ended : symbol = table.eof
      · simp only [if_pos ended] at answers
        cases answers
        simp [ended]
      · simp only [if_neg ended] at answers
        simp only [ended, false_or]
        exact ih answers

end

end TableDriven.Repair
