import TableDriven.Proofs.Lexicon.Checked
import TableDriven.Proofs.Lexicon.Trie

/-! # The automaton of a trie

The automaton keeps the states of its trie and tells of each what was given for it: the tokens in
ascending order, and whether a token may end before a context.  It holds together in every lexicon
of its sizes if its states have numbers of 16 bits (`checked_automaton`).
-/

namespace TableDriven

namespace Trie

section
variable {count key : Nat}

/-- Changing items by their keys changes each item by the values of its own key. -/
theorem getElem?_foldl_modify (key : Nat) (entries : List (Nat × β)) (change : β → γ → γ)
    (items : Array γ) :
    (entries.foldl (fun items entry => items.modify entry.1 (change entry.2)) items)[key]? =
      items[key]?.map fun item => ((entries.filter (·.1 = key)).map Prod.snd).foldl
        (fun item value => change value item) item := by
  induction entries generalizing items with
  | nil => simp
  | cons entry rest ih =>
    rw [List.foldl_cons, ih, Array.getElem?_modify]
    by_cases same : entry.1 = key
    · simp [same, Function.comp_def]
    · simp [same]

theorem size_foldl_modify (entries : List (Nat × β)) (change : β → γ → γ) (items : Array γ) :
    (entries.foldl (fun items entry => items.modify entry.1 (change entry.2)) items).size =
      items.size := by
  induction entries generalizing items with
  | nil => rfl
  | cons entry rest ih => rw [List.foldl_cons, ih, Array.size_modify]

/-- The values of a key, in order. -/
def valuesOf (entries : List (Nat × β)) (key : Nat) : List β :=
  (entries.filter (·.1 = key)).map Prod.snd

theorem mem_valuesOf {entries : List (Nat × β)} {value : β} :
    value ∈ valuesOf entries key ↔ (key, value) ∈ entries := by
  simp [valuesOf]

theorem getElem?_grouped (known : key < count) (entries : List (Nat × β)) :
    (grouped count entries)[key]? = some (valuesOf entries key).toArray := by
  have pushed (values : List β) (group : Array β) :
      values.foldl (fun group value => group.push value) group = group ++ values.toArray := by
    induction values generalizing group with
    | nil => simp
    | cons value rest ih => simp [ih]
  have found := getElem?_foldl_modify key entries (fun value group => group.push value)
    (Array.replicate count #[])
  rw [Array.getElem?_replicate, if_pos known, Option.map_some, pushed, Array.empty_append] at found
  exact found

theorem size_grouped (count : Nat) (entries : List (Nat × β)) :
    (grouped count entries).size = count :=
  (size_foldl_modify entries (fun value (group : Array β) => group.push value) _).trans
    Array.size_replicate

theorem size_flagged (count width : Nat) (entries : List (Nat × Nat)) :
    (flagged count width entries).size = count :=
  (size_foldl_modify entries (fun flag (row : Array Bool) => row.setIfInBounds flag true) _).trans
    Array.size_replicate

theorem getElem?_flagged (width : Nat) (known : key < count) (entries : List (Nat × Nat)) :
    ∃ row, (flagged count width entries)[key]? = some row ∧ row.size = width ∧
      ∀ flag < width, row[flag]? = some (decide ((key, flag) ∈ entries)) := by
  have set (flags : List Nat) (row : Array Bool) :
      (flags.foldl (fun row flag => row.setIfInBounds flag true) row).size = row.size ∧
      ∀ flag : Nat, (flags.foldl (fun row flag => row.setIfInBounds flag true) row)[flag]? =
        row[flag]?.map (· || decide (flag ∈ flags)) := by
    induction flags generalizing row with
    | nil => simp
    | cons first rest ih =>
      refine ⟨by simp [ih], fun flag => ?_⟩
      rw [List.foldl_cons, (ih _).2, Array.getElem?_setIfInBounds]
      by_cases same : first = flag
      · subst same
        by_cases inside : first < row.size <;> simp [inside]
      · have other : flag ≠ first := Ne.symm same
        simp [same, other]
  have found := getElem?_foldl_modify key entries
    (fun flag row => row.setIfInBounds flag true)
    (Array.replicate count (Array.replicate width false))
  rw [Array.getElem?_replicate, if_pos known, Option.map_some] at found
  obtain ⟨size, flags⟩ := set (valuesOf entries key) (Array.replicate width false)
  refine ⟨_, found, by simpa [valuesOf] using size, fun flag within => ?_⟩
  have told := flags flag
  simp only [mem_valuesOf, Array.getElem?_replicate, within, ↓reduceIte, Option.map_some,
    Bool.false_or] at told
  exact told

theorem eraseReps_eq {numbers : List UInt16} (ascending : numbers.Pairwise (· < ·)) :
    numbers.eraseReps = numbers := by
  have kept (first : UInt16) (rest done : List UInt16)
      (ascending : (first :: rest).Pairwise (· < ·)) :
      List.eraseRepsBy.loop (· == ·) first rest done = done.reverse ++ first :: rest := by
    induction rest generalizing first done with
    | nil => simp [List.eraseRepsBy.loop]
    | cons second rest ih =>
      obtain ⟨less, others⟩ := List.pairwise_cons.mp ascending
      have different : (first == second) = false :=
        beq_false_of_ne (UInt16.ne_of_lt (less second (.head _)))
      simp [List.eraseRepsBy.loop, different, ih _ _ others]
  cases numbers with
  | nil => rfl
  | cons first rest => exact kept first rest [] ascending

theorem sorted_eq {numbers : List UInt16} (ascending : numbers.Pairwise (· < ·)) :
    sorted numbers.toArray = numbers.toArray := by
  have ordered : numbers.Pairwise fun first second => decide (first ≤ second) = true :=
    ascending.imp fun less => decide_eq_true (UInt16.le_of_lt less)
  rw [sorted, List.mergeSort_of_pairwise ordered, eraseReps_eq ascending]

theorem ascending_eq_true {numbers : List UInt16} (ascending : numbers.Pairwise (· < ·)) :
    Automaton.ascending numbers = true := by
  fun_induction Automaton.ascending with
  | case1 first second rest ih =>
    obtain ⟨less, others⟩ := List.pairwise_cons.mp ascending
    simp [less second (.head _), ih others]
  | case2 => rfl

end

/-! ## The automaton -/

section
variable {trie : Trie} {paths : List Path} {contexts : Nat} {tokens splits : List (Nat × Nat)}

@[simp] theorem stateCount_automaton :
    (trie.automaton contexts tokens splits).stateCount = trie.size := by
  simp [automaton, Automaton.stateCount, size]

variable (few : trie.size < UInt16.size)
include few

theorem code_automaton {state : Nat} (known : state < trie.size) :
    (trie.automaton contexts tokens splits).code state = .ok state := by
  have small : state < UInt16.size := known.trans few
  have same : trie.size % UInt16.size = trie.size := Nat.mod_eq_of_lt few
  simp [Automaton.code, automaton, known, Run.lookup, UInt16.toNat_ofNat_of_lt' few,
    UInt16.toNat_ofNat_of_lt' small]

theorem next_automaton (represents : trie.Represents paths) (path : Path) {category : Nat}
    (within : category < trie.categories) :
    (trie.automaton contexts tokens splits).next (trie.find path) category =
      .ok (trie.find (path ++ [category])) := by
  have known : trie.find path < trie.rows.size := represents.find_lt path
  have wide := represents.width _ _ (Array.getElem?_eq_getElem known)
  have inside : category < trie.rows[trie.find path].size := by rwa [wide]
  have next : trie.rows[trie.find path][category] = trie.find (path ++ [category]) := by
    rw [find_concat, next_eq]
    simp [known, inside]
  have small := (represents.find_lt (path ++ [category])).trans few
  simp [Automaton.next, automaton, known, inside, next, UInt16.toNat_ofNat_of_lt' small]

end

section
variable {trie : Trie} {contexts : Nat} {tokens splits : List (Nat × Nat)} {state : Nat}

theorem splits_automaton (known : state < trie.size) {context : Nat}
    (numbered : context < contexts) :
    (trie.automaton contexts tokens splits).splits state context =
      .ok (decide ((state, context) ∈ splits)) := by
  obtain ⟨row, stored, -, flags⟩ := getElem?_flagged contexts known splits
  simp [Automaton.splits, automaton, Run.lookup, stored, flags context numbered]

variable (ordered : (tokens.map Prod.snd).Pairwise (· < ·))
  (small : ∀ entry ∈ tokens, entry.2 < UInt16.size)
include ordered small

theorem pairwise_valuesOf (state : Nat) :
    ((valuesOf tokens state).map UInt16.ofNat).Pairwise (· < ·) := by
  have part : (valuesOf tokens state).Sublist (tokens.map Prod.snd) :=
    List.filter_sublist.map Prod.snd
  refine List.pairwise_map.mpr ((ordered.sublist part).imp_of_mem ?_)
  intro first second one two less
  have below {token : Nat} (member : token ∈ valuesOf tokens state) : token < UInt16.size :=
    small _ (mem_valuesOf.mp member)
  rw [UInt16.lt_iff_toNat_lt, UInt16.toNat_ofNat_of_lt' (below one),
    UInt16.toNat_ofNat_of_lt' (below two)]
  exact less

theorem tokenLists_automaton (known : state < trie.size) :
    (trie.automaton contexts tokens splits).tokenLists[state]? =
      some ((valuesOf tokens state).map UInt16.ofNat).toArray := by
  have values : valuesOf (tokens.map fun entry => (entry.1, UInt16.ofNat entry.2)) state =
      (valuesOf tokens state).map UInt16.ofNat := by
    simp [valuesOf, List.filter_map, Function.comp_def]
  simp only [automaton, Array.getElem?_map, getElem?_grouped known, values, Option.map_some,
    sorted_eq (pairwise_valuesOf ordered small state)]

theorem tokens_automaton (known : state < trie.size) :
    (trie.automaton contexts tokens splits).tokens state = .ok (valuesOf tokens state) := by
  have listed : (trie.automaton contexts tokens splits).tokenLists[state]? = _ :=
    tokenLists_automaton ordered small known
  have same : (valuesOf tokens state).map (UInt16.toNat ∘ UInt16.ofNat) = valuesOf tokens state :=
    (List.map_congr_left fun token member =>
      UInt16.toNat_ofNat_of_lt' (small _ (mem_valuesOf.mp member))).trans (List.map_id _)
  simp [Automaton.tokens, Run.lookup, listed, same]

end

section
variable {trie : Trie} {paths : List Path} {contexts state : Nat} {tokens splits : List (Nat × Nat)}

@[simp] theorem codeCount_automaton :
    (trie.automaton contexts tokens splits).codeCount = trie.size := by
  simp [automaton, Automaton.codeCount, size_grouped]

variable (represents : trie.Represents paths)
include represents

/-- The rows of the automaton are those of the trie, and no category leads out of it. -/
theorem row_automaton (few : trie.size < UInt16.size) {row : Array UInt16}
    (found : (trie.automaton contexts tokens splits).transitions[state]? = some row) :
    row.size = trie.categories ∧ ∀ (category : Nat) (next : UInt16),
      row[category]? = some next → next.toNat = trie.next state category := by
  simp only [automaton, Array.getElem?_map] at found
  obtain ⟨old, stored, rfl⟩ := Option.map_eq_some_iff.mp found
  refine ⟨by rw [Array.size_map, represents.width state old stored], fun category word found => ?_⟩
  rw [Array.getElem?_map] at found
  obtain ⟨next, read, rfl⟩ := Option.map_eq_some_iff.mp found
  have leads : trie.next state category = next := by
    rw [next_eq, stored, Option.bind_some, read, Option.getD_some]
  have below := leads ▸ represents.next_lt state category
  rw [leads, UInt16.toNat_ofNat_of_lt' (below.trans few)]

theorem invalid_automaton (few : trie.size < UInt16.size) :
    (trie.automaton contexts tokens splits).transitions[Automaton.invalidState]?.all
      (·.all fun next => next.toNat == Automaton.invalidState) = true := by
  cases found : (trie.automaton contexts tokens splits).transitions[Automaton.invalidState]? with
  | none => rfl
  | some row =>
    rw [Option.all_some, Array.all_eq_true']
    intro next member
    obtain ⟨category, read⟩ := Array.mem_iff_getElem?.mp member
    have stays := ((row_automaton represents few found).2 category next read).trans
      (represents.invalid category)
    exact beq_iff_eq.mpr stays

end

/-- The automaton of a trie holds together in any lexicon of its sizes. -/
theorem checked_automaton {trie : Trie} {paths : List Path} {tokens splits : List (Nat × Nat)}
    {frame : Automaton.Frame} (represents : trie.Represents paths) (few : trie.size < UInt16.size)
    (categories : frame.categories = trie.categories) (conditions : frame.conditions = 1)
    (ordered : (tokens.map Prod.snd).Pairwise (· < ·)) (many : frame.tokens ≤ UInt16.size)
    (known : ∀ entry ∈ tokens, entry.2 < frame.tokens) :
    (trie.automaton frame.contexts tokens splits).Checked frame := by
  have small : ∀ entry ∈ tokens, entry.2 < UInt16.size :=
    fun entry member => (known entry member).trans_le many
  have flags := size_flagged trie.size frame.contexts splits
  refine {
    states_pos := ?_
    initial_size := conditions.symm
    initial_lt := fun condition state found => ?_
    row := fun state row found => ?_
    invalid := invalid_automaton represents few
    codes_size := ?_
    code_lt := fun state code found => ?_
    splits_size := by rw [codeCount_automaton]; exact flags
    split := fun code row found => ?_
    tokens := fun code list found => ?_ }
  · rw [stateCount_automaton, represents.size]
    exact Nat.succ_pos _
  · obtain ⟨-, rfl⟩ := List.getElem?_eq_some_iff.mp (Array.getElem?_toList ▸ found)
    have root := represents.place_nil ▸ represents.place_lt []
    rw [stateCount_automaton]
    simpa [automaton, UInt16.toNat_ofNat_of_lt' (root.trans few)] using root
  · obtain ⟨size, leads⟩ := row_automaton represents few found
    refine ⟨size.trans categories.symm, fun category next read => ?_⟩
    rw [leads category next read, stateCount_automaton]
    exact represents.next_lt state category
  · rw [stateCount_automaton]
    simp [automaton, UInt16.toNat_ofNat_of_lt' few]
  · have inside : state < trie.size := by
      have inside := (Array.getElem?_eq_some_iff.mp found).1
      simpa [automaton, UInt16.toNat_ofNat_of_lt' few] using inside
    have coded : (trie.automaton frame.contexts tokens splits).code state = _ :=
      code_automaton few inside
    simp only [Automaton.code, Run.lookup, found] at coded
    cases coded
    rwa [codeCount_automaton]
  · have inside : code < trie.size := flags ▸ (Array.getElem?_eq_some_iff.mp found).1
    obtain ⟨other, stored, size, -⟩ := getElem?_flagged frame.contexts inside splits
    cases found.symm.trans stored
    exact size
  · have inside : code < (trie.automaton frame.contexts tokens splits).codeCount :=
      (Array.getElem?_eq_some_iff.mp found).1
    rw [codeCount_automaton] at inside
    cases found.symm.trans (tokenLists_automaton ordered small inside)
    refine ⟨ascending_eq_true (pairwise_valuesOf ordered small code), fun index word read => ?_⟩
    rw [List.getElem?_toArray, List.getElem?_map] at read
    obtain ⟨token, listed, rfl⟩ := Option.map_eq_some_iff.mp read
    have member := mem_valuesOf.mp (List.mem_of_getElem? listed)
    rw [UInt16.toNat_ofNat_of_lt' (small _ member)]
    exact known _ member

end Trie

end TableDriven
