import TableDriven.Proofs.Parse.History

/-! # What a production makes of values

A factory sees the values that are reduced through a recipe.  `Recipe.perform` follows a recipe on
these values alone, and where it has a result, following the recipe on the stack has the same and
leaves what lies below as it was (`follow_of_perform`).  Factories that mean a function of the
production and its values (`Bindings.Means`) therefore make what this function says, whatever else
is on the stack (`produce_evaluate`).
-/

namespace TableDriven

namespace Parser

variable {V α φ ε : Type}

/-- Follows a recipe on the values of a right-hand side, the first symbol's first.  There is no
result if it asks for another value. -/
def Recipe.perform : Recipe V α → List (Option V) → Option α
  | .done result, _ => some result
  | .ask (.look offset) next, values =>
    (offset.toNat?.bind fun index => values[index]?).bind fun value => perform (next value) values
  | .ask (.take offset) next, values =>
    (offset.toNat?.bind fun index => values[index]?).bind fun value =>
      perform (next value) (values.set offset.toNat none)

section
variable {cells : List (Cell V)} {values : List (Option V)} {value : Option V} {index : Nat}

theorem depth?_of_lt {length : Nat} (inside : index < length) :
    depth? length (index : Int) = some (length - 1 - index) := by
  have inside : (index : Int) < length := by omega
  rw [depth?, if_pos inside]
  congr 1
  omega

theorem modify_append_of_lt {items rest : List α} (change : α → α)
    (inside : index < items.length) :
    (items ++ rest).modify index change = items.modify index change ++ rest := by
  apply List.ext_getElem?
  intro place
  simp only [List.getElem?_modify, List.getElem?_append, List.length_modify]
  grind

theorem map_value_modify (held : cells.map Cell.value = values.reverse)
    (inside : index < values.length) :
    (cells.modify (values.length - 1 - index) fun cell => { cell with value := none }).map
      Cell.value = (values.set index none).reverse := by
  have count : cells.length = values.length := by simpa using congrArg List.length held
  apply List.ext_getElem?
  intro place
  have same : (cells.map Cell.value)[place]? = values.reverse[place]? := by rw [held]
  by_cases near : place < values.length
  · rw [List.getElem?_map, List.getElem?_reverse near] at same
    rw [List.getElem?_reverse (by simpa using near), List.length_set, List.getElem?_map,
      List.getElem?_modify, List.getElem?_set]
    by_cases here : values.length - 1 - index = place
    · simp only [here, if_true]
      grind
    · grind
  · simp only [List.getElem?_map, List.getElem?_modify]
    grind

/-- The values on top of a stack are those of the right-hand side, the last one first. -/
theorem valueAt_append (below : List (Cell V)) (held : cells.map Cell.value = values.reverse)
    (there : values[index]? = some value) :
    valueAt (cells ++ below) values.length index = value := by
  obtain ⟨inside, -⟩ := List.getElem?_eq_some_iff.mp there
  have count : cells.length = values.length := by simpa using congrArg List.length held
  have cell : (cells.map Cell.value)[values.length - 1 - index]? = some value := by
    rw [held, List.getElem?_reverse (by omega), ← there]
    congr 1
    omega
  rw [List.getElem?_map, Option.map_eq_some_iff] at cell
  obtain ⟨top, found, rfl⟩ := cell
  rw [valueAt, depth?_of_lt inside, Option.bind_some, List.getElem?_append_left (by omega), found]
  rfl

theorem dropValue_append (below : List (Cell V)) (held : cells.map Cell.value = values.reverse)
    (inside : index < values.length) :
    ∃ kept, dropValue (cells ++ below) values.length index = kept ++ below ∧
      kept.map Cell.value = (values.set index none).reverse := by
  have count : cells.length = values.length := by simpa using congrArg List.length held
  refine ⟨_, ?_, map_value_modify held inside⟩
  rw [dropValue, depth?_of_lt inside]
  exact modify_append_of_lt _ (by omega)

/-- Following a recipe on a stack comes to what it comes to on the values that are reduced, and
leaves what lies below them. -/
theorem follow_of_perform (below : List (Cell V)) {recipe : Recipe V α} {result : α}
    (performed : recipe.perform values = some result)
    (held : cells.map Cell.value = values.reverse) :
    ∃ kept, follow values.length recipe (cells ++ below) = (result, kept ++ below) ∧
      kept.length = values.length := by
  induction recipe generalizing cells values with
  | done other =>
    cases performed
    exact ⟨cells, rfl, by simpa using congrArg List.length held⟩
  | ask access next ih =>
    cases access with
    | look offset =>
      obtain ⟨value, asked, rest⟩ := Option.bind_eq_some_iff.mp performed
      obtain ⟨index, near, there⟩ := Option.bind_eq_some_iff.mp asked
      obtain rfl := Int.mem_toNat?.mp near
      simp only [follow, valueAt_append below held there]
      exact ih value rest held
    | take offset =>
      obtain ⟨value, asked, rest⟩ := Option.bind_eq_some_iff.mp performed
      obtain ⟨index, near, there⟩ := Option.bind_eq_some_iff.mp asked
      obtain rfl := Int.mem_toNat?.mp near
      obtain ⟨inside, -⟩ := List.getElem?_eq_some_iff.mp there
      obtain ⟨kept, dropped, held'⟩ := dropValue_append below held inside
      obtain ⟨last, followed, count⟩ := ih value rest held'
      rw [List.length_set] at followed count
      refine ⟨last, ?_, count⟩
      simp only [follow, valueAt_append below held there, dropped, followed]

end

namespace Bindings

/-- The factory that is bound to a production. -/
def factory? (bindings : Bindings φ) (production : Nat) : Option φ :=
  (bindings.slot? production).bind fun slot => bindings.factories[slot]?

/-- The value of a production over those that it reduces: what `meaning` says if a factory is
bound to it, and otherwise the first of them. -/
def evaluate (bindings : Bindings φ) (meaning : Nat → List (Option V) → Option V)
    (production : Nat) (values : List (Option V)) : Option V :=
  if (bindings.factory? production).isSome then meaning production values else values.head?.join

/-- A factory of this kind, bound to the production, asks for no other values than those that are
reduced, makes what `meaning` says of them, and is of this kind afterwards. -/
def Computes (ε : Type) [ValueFactory φ V ε] (table : LrTable)
    (meaning : Nat → List (Option V) → Option V) (production : Nat) (kind : φ → Prop) : Prop :=
  ∀ (factory : φ) (param : Int) (position : Token Unit) (values : List (Option V)),
    kind factory → table.param production = .ok param →
      table.rhsLength production = .ok values.length →
        ∃ (next : φ) (notes : List ε),
          (ValueFactory.produce factory ⟨production, param, values.length, position⟩ :
            Recipe V (Option V × φ × List ε)).perform values =
              some (meaning production values, next, notes) ∧ kind next

/-- The factories in each slot are of a kind that computes the productions bound to the slot. -/
structure Means (ε : Type) [ValueFactory φ V ε] (bindings : Bindings φ) (table : LrTable)
    (meaning : Nat → List (Option V) → Option V) (kind : Nat → φ → Prop) : Prop where
  kinds : ∀ slot factory, bindings.factories[slot]? = some factory → kind slot factory
  computes : ∀ production slot, bindings.slot? production = some slot →
    Computes ε table meaning production (kind slot)

/-- The same productions are bound to the same slots. -/
structure Lasts (bindings next : Bindings φ) : Prop where
  slots : next.slots = bindings.slots
  size : next.factories.size = bindings.factories.size

variable {bindings middle next : Bindings φ} {table : LrTable}
  {meaning : Nat → List (Option V) → Option V} {kind : Nat → φ → Prop}

theorem Lasts.refl (bindings : Bindings φ) : bindings.Lasts bindings := ⟨rfl, rfl⟩

theorem Lasts.trans (first : bindings.Lasts middle) (second : middle.Lasts next) :
    bindings.Lasts next :=
  ⟨second.slots.trans first.slots, second.size.trans first.size⟩

theorem Lasts.evaluate_eq (lasts : bindings.Lasts next) :
    next.evaluate meaning = bindings.evaluate meaning := by
  funext production values
  have same : (next.factory? production).isSome = (bindings.factory? production).isSome := by
    simp only [factory?, slot?, lasts.slots]
    cases (bindings.slots[production]?.join : Option Nat) with
    | none => rfl
    | some slot =>
      have size := lasts.size
      grind
  rw [evaluate, same, evaluate]

/-- A factory that has been at work stays of its kind. -/
theorem Means.set [ValueFactory φ V ε] (means : bindings.Means ε table meaning kind) {slot : Nat}
    {factory : φ} (kept : kind slot factory) :
    { bindings with factories := bindings.factories.setIfInBounds slot factory }.Means ε table
      meaning kind := by
  refine ⟨fun other held found => ?_, means.computes⟩
  rw [Array.getElem?_setIfInBounds] at found
  split at found
  next same =>
    split at found
    next => cases found; exact same ▸ kept
    next => cases found
  next => exact means.kinds other held found

end Bindings

end Parser

/-! ## Productions -/

open TableDriven.Parser

namespace Parse

variable {σ ρ φ V ε : Type} [ValueFactory φ V ε] {parse made : Parse σ ρ φ V ε}
  {production length : Nat} {value : Option V}

/-- The values on the stack, the topmost first. -/
def values (parse : Parse σ ρ φ V ε) : List (Option V) := parse.stack.map Cell.value

/-- Nothing has been done to the table, the feed and the reports. -/
structure Keeps (parse next : Parse σ ρ φ V ε) : Prop where
  table : next.table = parse.table
  feed : next.feed = parse.feed
  reports : next.reports = parse.reports

theorem keeps_of_produce (produced : parse.produce production length = .ok (value, made)) :
    parse.Keeps made := by
  obtain ⟨param, -, produced⟩ := bind_eq_ok_iff.mp produced
  dsimp only at produced
  split at produced
  next =>
    cases produced
    exact ⟨rfl, rfl, rfl⟩
  next =>
    cases produced
    refine ⟨rfl, rfl, ?_⟩
    simp [reports, List.filterMap_map, Function.comp_def, Parser.Notice.report?]

omit [ValueFactory φ V ε] in
theorem keeps_push (parse : Parse σ ρ φ V ε) (state : Option Nat) (value : Option V) :
    parse.Keeps (parse.push state value) :=
  ⟨rfl, rfl, rfl⟩

omit [ValueFactory φ V ε] in
theorem Keeps.trans {next : Parse σ ρ φ V ε} (first : parse.Keeps made) (second : made.Keeps next) :
    parse.Keeps next where
  table := second.table.trans first.table
  feed := second.feed.trans first.feed
  reports := second.reports.trans first.reports

theorem Pops.keeps (pops : parse.Pops production value made) : parse.Keeps made := by
  cases pops with
  | intro _ _ produced =>
    have kept := keeps_of_produce produced
    exact ⟨kept.table, kept.feed, kept.reports⟩

theorem Chains.keeps {productions : List Nat} {answer : Option (Result V) × Parse σ ρ φ V ε}
    (chains : parse.Chains production productions answer) : parse.Keeps answer.2 := by
  induction chains with
  | popsInitial => exact ⟨rfl, rfl, rfl⟩
  | noGoto pops => exact pops.keeps
  | landed pops => exact pops.keeps.trans (keeps_push _ _ _)
  | accepted pops =>
    refine pops.keeps.trans ⟨rfl, rfl, ?_⟩
    rw [(tells_note _ _).reports_eq]
    exact List.append_nil _
  | chained pops _ _ _ ih => exact (pops.keeps.trans (keeps_push _ _ _)).trans ih

/-- The value of an unbound production is the first that it reduces. -/
theorem follow_take (below : List (Cell V)) {cells : List (Cell V)} {values : List (Option V)}
    (held : cells.map Cell.value = values.reverse) :
    ∃ kept, follow values.length (Recipe.take 0) (cells ++ below) =
      (values.head?.join, kept ++ below) ∧ kept.length = values.length := by
  cases values with
  | nil =>
    obtain rfl : cells = [] := by simpa using held
    exact ⟨[], rfl, rfl⟩
  | cons value values => exact follow_of_perform below rfl held

/-- Bindings that mean something make of the values on top of the stack what they mean. -/
theorem produce_evaluate {meaning : Nat → List (Option V) → Option V} {kind : Nat → φ → Prop}
    {cells below : List (Cell V)} {values : List (Option V)}
    (means : parse.bindings.Means ε parse.table meaning kind)
    (reduces : parse.table.rhsLength production = .ok values.length)
    (stack : parse.stack = cells ++ below) (held : cells.map Cell.value = values.reverse)
    (produced : parse.produce production values.length = .ok (value, made)) :
    value = parse.bindings.evaluate meaning production values ∧
      made.stack.drop values.length = below ∧ parse.bindings.Lasts made.bindings ∧
      made.bindings.Means ε parse.table meaning kind := by
  obtain ⟨param, numbered, produced⟩ := bind_eq_ok_iff.mp produced
  dsimp only at produced
  split at produced
  next unbound =>
    have unbound : parse.bindings.factory? production = none := by
      rw [Bindings.factory?, Option.bind_eq_none_iff]
      intro slot named
      rw [named] at unbound
      cases there : parse.bindings.factories[slot]? with
      | none => rfl
      | some factory => simp [there] at unbound
    obtain ⟨kept, followed, count⟩ := follow_take below held
    rw [stack, followed] at produced
    cases produced
    refine ⟨by simp [Bindings.evaluate, unbound], ?_, .refl _, means⟩
    simp [← count]
  next slot factory found =>
    obtain ⟨bound, named, found⟩ := Option.bind_eq_some_iff.mp found
    obtain ⟨held', there, found⟩ := Option.bind_eq_some_iff.mp found
    cases found
    obtain ⟨next, notes, performed, kept⟩ := means.computes production slot named factory param
      parse.lastShift values (means.kinds slot factory there) numbered reduces
    obtain ⟨cells, followed, count⟩ := follow_of_perform below performed held
    rw [stack, followed] at produced
    cases produced
    refine ⟨by simp [Bindings.evaluate, Bindings.factory?, named, there], ?_, ⟨rfl, ?_⟩,
      means.set kept⟩
    · simp [← count]
    · simp

end Parse

end TableDriven
