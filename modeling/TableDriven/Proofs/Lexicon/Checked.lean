import TableDriven.Lexicon.Check
import TableDriven.Proofs.Requirements

/-! # What the check of a scanner table guarantees

`Automaton.Checked` and `Lexicon.Checked` say in one structure each what every requirement of the
check comes to, and `Lexicon.check_eq_ok_iff` that the check accepts exactly such tables.  From it
follows that no look-up with a state, category, token or context of the table breaks down.
-/

namespace TableDriven

namespace Automaton

variable {automaton : Automaton} {frame : Frame}

/-- An automaton that holds together, in a lexicon of the given sizes. -/
structure Checked (automaton : Automaton) (frame : Frame) : Prop where
  states_pos : invalidState < automaton.stateCount
  initial_size : automaton.initialStates.size = frame.conditions
  initial_lt : ∀ (condition : Nat) (state : UInt16),
    automaton.initialStates[condition]? = some state → state.toNat < automaton.stateCount
  row : ∀ (state : Nat) (row : Array UInt16), automaton.transitions[state]? = some row →
    row.size = frame.categories ∧ ∀ (category : Nat) (next : UInt16),
      row[category]? = some next → next.toNat < automaton.stateCount
  invalid : automaton.transitions[invalidState]?.all
    (·.all fun next => next.toNat == invalidState) = true
  codes_size : automaton.codes.size = automaton.stateCount
  code_lt : ∀ (state : Nat) (code : UInt16), automaton.codes[state]? = some code →
    code.toNat < automaton.codeCount
  splits_size : automaton.contextSplits.size = automaton.codeCount
  split : ∀ (code : Nat) (row : Array Bool), automaton.contextSplits[code]? = some row →
    row.size = frame.contexts
  tokens : ∀ (code : Nat) (tokens : Array UInt16), automaton.tokenLists[code]? = some tokens →
    ascending tokens.toList = true ∧ ∀ (index : Nat) (token : UInt16),
      tokens[index]? = some token → token.toNat < frame.tokens

/-- The check of an automaton accepts exactly those that hold together. -/
theorem check_eq_ok_iff : automaton.check frame = .ok () ↔ automaton.Checked frame := by
  simp only [check, checkRow, checkTokens, and_then_eq_ok_iff, ensure_eq_ok_iff,
    ensureAll_eq_ok_iff]
  constructor
  · rintro ⟨h₁, h₂, h₃, h₄, h₅, h₆, h₇, h₈, h₉, h₁₀⟩
    exact ⟨h₁, h₂, h₃, h₄, h₅, h₆, h₇, h₈, h₉, h₁₀⟩
  · rintro ⟨h₁, h₂, h₃, h₄, h₅, h₆, h₇, h₈, h₉, h₁₀⟩
    exact ⟨h₁, h₂, h₃, h₄, h₅, h₆, h₇, h₈, h₉, h₁₀⟩

namespace Checked

variable (checked : automaton.Checked frame)
include checked

theorem initial_ok {condition : Nat} (known : condition < frame.conditions) :
    ∃ state, automaton.initial condition = .ok state ∧ state < automaton.stateCount := by
  have inside : condition < automaton.initialStates.size := checked.initial_size ▸ known
  exact ⟨automaton.initialStates[condition].toNat, by simp [initial, inside],
    checked.initial_lt condition _ (by simp [inside])⟩

theorem next_ok {state category : Nat} (known : state < automaton.stateCount)
    (categorized : category < frame.categories) :
    ∃ next, automaton.next state category = .ok next ∧ next < automaton.stateCount := by
  have inside : state < automaton.transitions.size := known
  obtain ⟨size, leads⟩ := checked.row state automaton.transitions[state] (by simp)
  have within : category < automaton.transitions[state].size := size ▸ categorized
  exact ⟨automaton.transitions[state][category].toNat, by simp [next, inside, within],
    leads category _ (by simp [within])⟩

theorem code_ok {state : Nat} (known : state < automaton.stateCount) :
    ∃ code, automaton.code state = .ok code ∧ code < automaton.codeCount := by
  have inside : state < automaton.codes.size := checked.codes_size ▸ known
  exact ⟨automaton.codes[state].toNat, by simp [code, inside],
    checked.code_lt state _ (by simp [inside])⟩

theorem tokens_ok {code : Nat} (known : code < automaton.codeCount) :
    ∃ tokens, automaton.tokens code = .ok tokens ∧ ∀ token ∈ tokens, token < frame.tokens := by
  have inside : code < automaton.tokenLists.size := known
  refine ⟨automaton.tokenLists[code].toList.map UInt16.toNat, by simp [Automaton.tokens, inside],
    fun token member => ?_⟩
  obtain ⟨word, listed, rfl⟩ := List.mem_map.mp member
  obtain ⟨index, found⟩ := List.mem_iff_getElem?.mp listed
  exact (checked.tokens code automaton.tokenLists[code] (by simp)).2 index word
    (by simpa using found)

theorem splits_ok {code context : Nat} (known : code < automaton.codeCount)
    (numbered : context < frame.contexts) :
    ∃ splits, automaton.splits code context = .ok splits := by
  have inside : code < automaton.contextSplits.size := checked.splits_size ▸ known
  have within : context < automaton.contextSplits[code].size :=
    checked.split code automaton.contextSplits[code] (by simp) ▸ numbered
  exact ⟨automaton.contextSplits[code][context], by simp [splits, inside, within]⟩

end Checked

end Automaton

namespace Lexicon

variable {lexicon : Lexicon}

/-- A lexicon that holds together. -/
structure Checked (lexicon : Lexicon) : Prop where
  categories_pos : 0 < lexicon.frame.categories
  conditions_pos : 0 < lexicon.conditions
  category_lt : ∀ (unit : Nat) (category : UInt16), lexicon.categories[unit]? = some category →
    category.toNat < lexicon.frame.categories
  contexts_size : lexicon.tokenContexts.size = lexicon.tokenCount
  names_size : lexicon.tokenNames.size = 0 ∨ lexicon.tokenNames.size = lexicon.tokenCount
  context : ∀ (token : Nat) (context : Int32), lexicon.tokenContexts[token]? = some context →
    context.toInt = noContext ∨ (0 ≤ context.toInt ∧ context.toInt.toNat < lexicon.contexts)
  forward : lexicon.forward.Checked lexicon.frame
  reverse : lexicon.reverse.Checked lexicon.frame

/-- The check accepts exactly the tables that hold together. -/
theorem check_eq_ok_iff : lexicon.check = .ok () ↔ lexicon.Checked := by
  simp only [check, and_then_eq_ok_iff, ensure_eq_ok_iff, ensureAll_eq_ok_iff, mapError_eq_ok_iff,
    Automaton.check_eq_ok_iff]
  constructor
  · rintro ⟨h₁, h₂, h₃, h₄, h₅, h₆, h₇, h₈⟩
    exact ⟨h₁, h₂, h₃, h₄, h₅, h₆, h₇, h₈⟩
  · rintro ⟨h₁, h₂, h₃, h₄, h₅, h₆, h₇, h₈⟩
    exact ⟨h₁, h₂, h₃, h₄, h₅, h₆, h₇, h₈⟩

namespace Checked

variable (checked : lexicon.Checked)
include checked

theorem category?_lt {unit category : Nat} (found : lexicon.category? unit = some category) :
    category < lexicon.frame.categories := by
  obtain ⟨word, listed, rfl⟩ := Option.map_eq_some_iff.mp found
  exact checked.category_lt unit word listed

omit checked in
theorem param_ok {token : Nat} (known : token < lexicon.tokenCount) :
    ∃ param, lexicon.param token = .ok param := by
  have inside : token < lexicon.tokenParams.size := known
  exact ⟨lexicon.tokenParams[token].toInt, by simp [param, inside]⟩

theorem context?_ok {token : Nat} (known : token < lexicon.tokenCount) :
    ∃ context, lexicon.context? token = .ok context ∧
      ∀ number ∈ context, number < lexicon.contexts := by
  have inside : token < lexicon.tokenContexts.size := checked.contexts_size ▸ known
  have numbered := checked.context token lexicon.tokenContexts[token] (by simp)
  refine ⟨_, by simp only [context?, Run.lookup_of_lt inside]; rfl, fun number found => ?_⟩
  by_cases negative : lexicon.tokenContexts[token].toInt < 0
  · simp [negative] at found
  · simp only [negative, ↓reduceIte, Option.mem_def, Option.some.injEq] at found
    obtain none | ⟨-, below⟩ := numbered
    · simp [none, noContext] at negative
    · exact found ▸ below

end Checked

end Lexicon

end TableDriven
