import Mathlib.Data.List.Infix
import Mathlib.Data.List.Nodup
import Mathlib.Tactic.Tauto
import TableDriven.Lexicon.Trie

/-! # What a trie stands for

The states of a trie are the paths that were put into it, in the order in which they first came up:
`Trie.Represents trie paths` says that state `k + 1` stands for the path `paths[k]`, and that a
category leads from a path to the path that is longer by it, or to the invalid state.  Putting a
path in adds its beginnings and changes nothing else (`Represents.insertFrom`), so that the trie of
some paths represents all beginnings of theirs (`represents_ofPaths`).
-/

namespace TableDriven

section
variable [BEq α] [LawfulBEq α] {items : List α} {item other : α}

/-- The place of an item in a list, counted from 1, or 0. -/
def place (items : List α) (item : α) : Nat :=
  if item ∈ items then items.idxOf item + 1 else 0

theorem place_eq_zero_iff : place items item = 0 ↔ item ∉ items := by
  simp [place]

theorem place_pos_iff : 0 < place items item ↔ item ∈ items := by
  rw [Nat.pos_iff_ne_zero, ne_eq, place_eq_zero_iff, not_not]

theorem place_le (items : List α) (item : α) : place items item ≤ items.length := by
  unfold place
  split
  next member => exact List.idxOf_lt_length_of_mem member
  next => exact Nat.zero_le _

theorem place_inj (member : item ∈ items) (same : place items item = place items other) :
    item = other := by
  have found : other ∈ items := place_pos_iff.mp (same ▸ place_pos_iff.mpr member)
  simp only [place, member, found, ↓reduceIte, Nat.add_right_cancel_iff] at same
  exact (List.idxOf_inj member).mp same

theorem place_append_of_mem (member : item ∈ items) (more : List α) :
    place (items ++ more) item = place items item := by
  simp [place, member, List.idxOf_append_of_mem member]

theorem place_concat_self (new : item ∉ items) :
    place (items ++ [item]) item = items.length + 1 := by
  simp [place, List.idxOf_append_of_notMem new]

theorem place_concat_of_ne (different : other ≠ item) :
    place (items ++ [item]) other = place items other := by
  by_cases member : other ∈ items
  · exact place_append_of_mem member [item]
  · rw [place_eq_zero_iff.mpr member, place_eq_zero_iff.mpr (by simp [member, different])]

theorem place_of_head (first : items.head? = some item) : place items item = 1 := by
  obtain ⟨rest, rfl⟩ := List.head?_eq_some_iff.mp first
  simp [place]

end

namespace Trie

/-! ## Paths and states -/

/-- The states of a trie stand for `paths`, in order and from 1 on. -/
structure Represents (trie : Trie) (paths : List Path) : Prop where
  size : trie.size = paths.length + 1
  width : ∀ (state : Nat) (row : Array Nat), trie.rows[state]? = some row →
    row.size = trie.categories
  nodup : paths.Nodup
  root : paths.head? = some []
  closed : ∀ (path : Path) (category : Nat), path ++ [category] ∈ paths → path ∈ paths
  below : ∀ path ∈ paths, ∀ category ∈ path, category < trie.categories
  invalid : ∀ category, trie.next Automaton.invalidState category = Automaton.invalidState
  next : ∀ path ∈ paths, ∀ category,
    trie.next (place paths path) category = place paths (path ++ [category])

theorem next_eq (trie : Trie) (state category : Nat) :
    trie.next state category = ((trie.rows[state]?.bind (·[category]?)).getD 0) := by
  simp only [next, Array.getD_eq_getD_getElem?]
  cases trie.rows[state]? <;> simp

theorem find_concat (trie : Trie) (path : Path) (category : Nat) :
    trie.find (path ++ [category]) = trie.next (trie.find path) category := by
  simp [find]

theorem represents_root (categories : Nat) : (root categories).Represents [[]] := by
  have nowhere (state category : Nat) : (root categories).next state category = 0 := by
    rw [next_eq]
    simp only [root, Array.getElem?_replicate]
    by_cases known : state < 2 <;> by_cases within : category < categories <;> simp [known, within]
  refine ⟨rfl, fun state row found => ?_, by simp, rfl, by simp, by simp, fun _ => nowhere _ _,
    fun path member category => ?_⟩
  · simp only [root, Array.getElem?_replicate] at found ⊢
    split at found
    next => simp [← Option.some.inj found]
    next => cases found
  · rw [nowhere, place_eq_zero_iff.mpr (by simp)]

section
variable (trie : Trie) (state category : Nat)

/-- The trie with a new state, to which `category` leads from `state`. -/
def grown : Trie := (trie.link state category trie.size).addState

theorem rows_grown (other : Nat) : (trie.grown state category).rows[other]? =
    if other = trie.size then some (Array.replicate trie.categories 0)
    else if state = other then trie.rows[other]?.map (·.setIfInBounds category trie.size)
    else trie.rows[other]? := by
  have same : (trie.link state category trie.size).rows.size = trie.size := Array.size_modify
  rw [grown, addState, Array.getElem?_push, same, link, Array.getElem?_modify]

theorem size_grown : (trie.grown state category).size = trie.size + 1 := by
  simp [grown, addState, link, size]

theorem next_grown_new (further : Nat) :
    (trie.grown state category).next trie.size further = Automaton.invalidState := by
  rw [next_eq, rows_grown, if_pos rfl]
  by_cases within : further < trie.categories <;> simp [within, Automaton.invalidState]

theorem next_grown_old {other further : Nat} (old : other ≠ trie.size)
    (elsewhere : ¬ (other = state ∧ further = category)) :
    (trie.grown state category).next other further = trie.next other further := by
  rw [next_eq, next_eq, rows_grown, if_neg old]
  split
  next here =>
    have different : category ≠ further := fun same => elsewhere ⟨here.symm, same.symm⟩
    cases trie.rows[other]? <;> simp [different]
  next => rfl

variable {trie state category}

theorem next_grown_link {row : Array Nat} (stored : trie.rows[state]? = some row)
    (within : category < row.size) :
    (trie.grown state category).next state category = trie.size := by
  have known : state < trie.size := (Array.getElem?_eq_some_iff.mp stored).1
  rw [next_eq, rows_grown, if_neg (Nat.ne_of_lt known), if_pos rfl, stored]
  simp [within]

theorem width_grown (wide : ∀ (other : Nat) (row : Array Nat), trie.rows[other]? = some row →
      row.size = trie.categories) (other : Nat) (row : Array Nat)
    (stored : (trie.grown state category).rows[other]? = some row) :
    row.size = trie.categories := by
  rw [rows_grown] at stored
  split at stored
  next => simp [← Option.some.inj stored]
  next =>
    split at stored
    next =>
      obtain ⟨old, found, rfl⟩ := Option.map_eq_some_iff.mp stored
      rw [Array.size_setIfInBounds]
      exact wide other old found
    next => exact wide other row stored

end

namespace Represents

variable {trie : Trie} {paths : List Path} (represents : trie.Represents paths)
include represents

theorem nil_mem : [] ∈ paths := List.mem_of_head? represents.root

theorem place_nil : place paths [] = rootState := place_of_head represents.root

theorem place_lt (path : Path) : place paths path < trie.size := by
  rw [represents.size]
  exact Nat.lt_succ_of_le (place_le paths path)

theorem next_place (path : Path) (category : Nat) :
    trie.next (place paths path) category = place paths (path ++ [category]) := by
  by_cases member : path ∈ paths
  · exact represents.next path member category
  · have further : path ++ [category] ∉ paths := fun longer => member (represents.closed _ _ longer)
    rw [place_eq_zero_iff.mpr member, place_eq_zero_iff.mpr further]
    exact represents.invalid category

theorem foldl_next (start path : Path) :
    path.foldl trie.next (place paths start) = place paths (start ++ path) := by
  induction path generalizing start with
  | nil => simp
  | cons category rest ih =>
    rw [List.foldl_cons, represents.next_place, ih, List.append_assoc]
    rfl

/-- A path leads to its own state. -/
theorem find_eq (path : Path) : trie.find path = place paths path := by
  rw [find, ← represents.place_nil]
  exact represents.foldl_next [] path

theorem find_lt (path : Path) : trie.find path < trie.size := by
  rw [represents.find_eq]
  exact represents.place_lt path

theorem find_ne_zero_iff {path : Path} : trie.find path ≠ 0 ↔ path ∈ paths := by
  rw [represents.find_eq, ne_eq, place_eq_zero_iff, not_not]

/-- Different paths have different states. -/
theorem find_inj {path other : Path} (known : trie.find path ≠ 0)
    (same : trie.find path = trie.find other) : path = other := by
  rw [represents.find_eq, represents.find_eq] at same
  exact place_inj (represents.find_ne_zero_iff.mp known) same

/-- No category leads out of the trie. -/
theorem next_lt (state category : Nat) : trie.next state category < trie.size := by
  cases state with
  | zero =>
    have stays : trie.next 0 category = 0 := represents.invalid category
    rw [stays, represents.size]
    exact Nat.succ_pos _
  | succ index =>
    by_cases known : index < paths.length
    · have here : place paths paths[index] = index + 1 := by
        simp [place, represents.nodup.idxOf_getElem]
      rw [← here, represents.next_place]
      exact represents.place_lt _
    · have size := represents.size
      have outside : trie.rows[index + 1]? = none :=
        Array.getElem?_eq_none (by simp only [Trie.size] at size; omega)
      rw [next_eq, outside, size]
      exact Nat.succ_pos _

/-- A state for a path that is one category longer than one that has a state. -/
theorem grow {path : Path} {category : Nat} (member : path ∈ paths)
    (new : path ++ [category] ∉ paths) (within : category < trie.categories) :
    (trie.grown (place paths path) category).Represents (paths ++ [path ++ [category]]) := by
  have size := represents.size
  have short {part : Path} {more : Nat} (longer : part ++ [more] ∈ paths ++ [path ++ [category]]) :
      part ∈ paths := by
    obtain old | same := List.mem_append.mp longer
    · exact represents.closed part more old
    · exact (List.append_inj' (List.mem_singleton.mp same) rfl).1 ▸ member
  refine {
    size := by rw [size_grown, size, List.length_append, List.length_singleton]
    width := width_grown represents.width
    nodup := by simpa using represents.nodup.concat new
    root := by rw [List.head?_append, represents.root, Option.some_or]
    closed := fun part more longer => List.mem_append_left _ (short longer)
    below := fun part known other among => ?_
    invalid := fun other => ?_
    next := fun part known other => ?_ }
  · obtain old | same := List.mem_append.mp known
    · exact represents.below part old other among
    · rw [List.mem_singleton.mp same, List.mem_append, List.mem_singleton] at among
      obtain among | rfl := among
      · exact represents.below path member other among
      · exact within
  · have positive := place_pos_iff.mpr member
    have old : Automaton.invalidState ≠ trie.size := by simp [size, Automaton.invalidState]
    rw [next_grown_old _ _ _ old fun here => Nat.ne_of_lt positive here.1]
    exact represents.invalid other
  · obtain old | same := List.mem_append.mp known
    · have known := place_le paths part
      rw [place_append_of_mem old]
      by_cases here : part = path ∧ other = category
      · obtain ⟨rfl, rfl⟩ := here
        obtain ⟨row, stored⟩ : ∃ row, trie.rows[place paths part]? = some row :=
          ⟨_, Array.getElem?_eq_getElem (by simp only [Trie.size] at size; omega)⟩
        rw [next_grown_link stored (represents.width _ row stored ▸ within), size,
          place_concat_self new]
      · have different : part ++ [other] ≠ path ++ [category] := by
          intro same
          obtain ⟨first, last⟩ := List.append_inj' same rfl
          exact here ⟨first, List.singleton_inj.mp last⟩
        rw [place_concat_of_ne different, next_grown_old _ _ _ (by omega) fun there =>
          here ⟨place_inj old there.1, there.2⟩]
        exact represents.next part old other
    · rw [List.mem_singleton.mp same, place_concat_self new, ← size, next_grown_new]
      exact (place_eq_zero_iff.mpr fun longer => new (short longer)).symm

omit represents in
/-- The beginnings of a path are the empty one and those of the rest, one category longer. -/
theorem beginning_cons_iff {start rest other : Path} {category : Nat} :
    (∃ part, part <+: category :: rest ∧ other = start ++ part) ↔
      other = start ∨ ∃ part, part <+: rest ∧ other = start ++ [category] ++ part := by
  simp only [List.prefix_cons_iff]
  constructor
  · rintro ⟨part, rfl | ⟨part, rfl, begins⟩, rfl⟩
    · simp
    · exact .inr ⟨part, begins, by simp⟩
  · rintro (rfl | ⟨part, begins, rfl⟩)
    · exact ⟨[], .inl rfl, by simp⟩
    · exact ⟨category :: part, .inr ⟨part, rfl, begins⟩, by simp⟩

/-- Putting a path in adds its beginnings. -/
theorem insertFrom {start path : Path} (member : start ∈ paths)
    (within : ∀ category ∈ path, category < trie.categories) :
    ∃ more, (trie.insertFrom (place paths start) path).Represents more ∧
      (trie.insertFrom (place paths start) path).categories = trie.categories ∧
      ∀ other, other ∈ more ↔ other ∈ paths ∨ ∃ part, part <+: path ∧ other = start ++ part := by
  induction path generalizing trie paths start with
  | nil =>
    refine ⟨paths, represents, rfl, fun other => ⟨.inl, ?_⟩⟩
    rintro (old | ⟨part, begins, rfl⟩)
    · exact old
    · simpa [List.prefix_nil.mp begins] using member
  | cons category rest ih =>
    have first : category < trie.categories := within category (.head _)
    have others : ∀ category ∈ rest, category < trie.categories :=
      fun category member => within category (.tail _ member)
    have old (other : Path) : other = start → other ∈ paths := fun same => same ▸ member
    rw [Trie.insertFrom]
    simp only [represents.next_place, Automaton.invalidState, place_eq_zero_iff]
    split
    next new =>
      have grown := represents.grow member new first
      have added : trie.size = place (paths ++ [start ++ [category]]) (start ++ [category]) := by
        rw [place_concat_self new, represents.size]
      have last : start ++ [category] ∈ paths ++ [start ++ [category]] := by simp
      obtain ⟨more, done, same, all⟩ := ih grown last others
      rw [← added] at done same
      refine ⟨more, done, same, fun other => ?_⟩
      have here : other = start ++ [category] →
          ∃ part, part <+: rest ∧ other = start ++ [category] ++ part :=
        fun same => ⟨[], List.nil_prefix, by simpa using same⟩
      have known := old other
      rw [all, beginning_cons_iff, List.mem_append, List.mem_singleton]
      tauto
    next known =>
      obtain ⟨more, done, same, all⟩ := ih represents (not_not.mp known) others
      refine ⟨more, done, same, fun other => ?_⟩
      have known := old other
      rw [all, beginning_cons_iff]
      tauto

end Represents

theorem represents_foldl {trie : Trie} {known : List Path} (represents : trie.Represents known)
    {paths : List Path} (within : ∀ path ∈ paths, ∀ category ∈ path, category < trie.categories) :
    ∃ all, (paths.foldl insert trie).Represents all ∧
      (paths.foldl insert trie).categories = trie.categories ∧
      ∀ other, other ∈ all ↔ other ∈ known ∨ ∃ path ∈ paths, other <+: path := by
  induction paths generalizing trie known with
  | nil => exact ⟨known, represents, rfl, by simp⟩
  | cons path paths ih =>
    obtain ⟨more, inserted, wide, new⟩ :=
      represents.insertFrom represents.nil_mem (within path (.head _))
    rw [represents.place_nil] at inserted wide
    obtain ⟨all, done, same, every⟩ := ih inserted fun other member =>
      wide ▸ within other (.tail _ member)
    refine ⟨all, done, same.trans wide, fun other => ?_⟩
    simp [every, new, or_assoc]

/-- The states of the trie of some paths stand for the beginnings of these. -/
theorem represents_ofPaths {categories : Nat} {paths : List Path}
    (within : ∀ path ∈ paths, ∀ category ∈ path, category < categories) :
    ∃ all, (ofPaths categories paths).Represents all ∧
      (ofPaths categories paths).categories = categories ∧
      ∀ other, other ∈ all ↔ other = [] ∨ ∃ path ∈ paths, other <+: path := by
  obtain ⟨all, done, same, every⟩ := represents_foldl (represents_root categories) within
  exact ⟨all, done, same, by simpa using every⟩

end Trie

end TableDriven
