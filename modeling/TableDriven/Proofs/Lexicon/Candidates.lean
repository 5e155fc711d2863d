import TableDriven.Proofs.Lexicon.Walk

/-! # Candidates

Which tokens an input begins with under a start condition, and with which texts, said without the
scanner.  `Lexicon.reach` is how far the forward automaton gets, `Lexicon.lengthOf` the length of a
token whose text and right context are given together, and `Lexicon.candidates` puts the two
together: from the longest match down, and of one length in the order of the token list.  On a
trail of the forward automaton the scanner's own way of looking finds the same lengths
(`split_eq`), and what it tries on the way down is these candidates (`filterMap_attempts`).
-/

namespace TableDriven

/-- The numbers from `count` down to one. -/
def downFrom : Nat → List Nat
  | 0 => []
  | count + 1 => (count + 1) :: downFrom count

@[simp] theorem mem_downFrom_iff {number count : Nat} :
    number ∈ downFrom count ↔ 1 ≤ number ∧ number ≤ count := by
  induction count with
  | zero => simp [downFrom]; omega
  | succ count ih => simp only [downFrom, List.mem_cons, ih]; omega

/-- Counting down finds the greatest number that has a property. -/
theorem find?_downFrom_eq_some_iff {holds : Nat → Bool} {number count : Nat} :
    (downFrom count).find? holds = some number ↔
      (1 ≤ number ∧ number ≤ count ∧ holds number = true) ∧
        ∀ greater, number < greater → greater ≤ count → holds greater = false := by
  induction count with
  | zero => simp [downFrom]; omega
  | succ count ih =>
    simp only [downFrom]
    cases top : holds (count + 1) with
    | true =>
      rw [List.find?_cons_of_pos top, Option.some.injEq]
      constructor
      · rintro rfl
        exact ⟨⟨by omega, Nat.le_refl _, top⟩, fun greater _ _ => by omega⟩
      · rintro ⟨⟨-, below, -⟩, none⟩
        by_cases last : number = count + 1
        · exact last.symm
        · have other := none (count + 1) (by omega) (Nat.le_refl _)
          exact absurd (other.symm.trans top) Bool.false_ne_true
    | false =>
      rw [List.find?_cons_of_neg (by simp [top]), ih]
      constructor
      · rintro ⟨⟨positive, below, holds⟩, none⟩
        refine ⟨⟨positive, by omega, holds⟩, fun greater more within => ?_⟩
        by_cases last : greater = count + 1
        · exact last ▸ top
        · exact none greater more (by omega)
      · rintro ⟨⟨positive, below, holds⟩, none⟩
        have other : number ≠ count + 1 := by
          rintro rfl
          exact Bool.false_ne_true (top.symm.trans holds)
        exact ⟨⟨positive, by omega, holds⟩, fun greater more within => none greater more (by omega)⟩

theorem findSome?_downFrom {found : Nat → Option α} {number count : Nat} {item : α}
    (positive : 1 ≤ number) (within : number ≤ count) (here : found number = some item)
    (none : ∀ greater, number < greater → greater ≤ count → found greater = none) :
    (downFrom count).findSome? found = some item := by
  induction count with
  | zero => omega
  | succ count ih =>
    rw [downFrom, List.findSome?_cons]
    obtain rfl | below := Nat.eq_or_lt_of_le within
    · rw [here]
    · rw [none (count + 1) below (Nat.le_refl _)]
      exact ih (Nat.le_of_lt_succ below) fun greater more less =>
        none greater more (Nat.le_succ_of_le less)

theorem find?_downFrom_eq_none_iff {holds : Nat → Bool} {count : Nat} :
    (downFrom count).find? holds = none ↔
      ∀ number, 1 ≤ number → number ≤ count → holds number = false := by
  simp [List.find?_eq_none]

namespace Lexicon

/-- A token that an input may begin with, and the length of its text. -/
structure Candidate where
  token : Nat
  length : Nat
  deriving DecidableEq, Inhabited

variable [ScanUnit U] (lexicon : Lexicon) (condition : Nat)

/-- The state of the forward automaton behind `text`. -/
def stateBehind (text : List U) : Option Nat :=
  lexicon.walk lexicon.forward (lexicon.forward.initial condition).value text

/-- The state of the reverse automaton once it has read `behind` backwards. -/
def stateBefore (behind : List U) : Option Nat :=
  lexicon.walk lexicon.reverse (lexicon.reverse.initial condition).value behind.reverse

/-- The length of the longest beginning of `units` that the forward automaton gets over. -/
def reach (units : List U) : Nat :=
  ((downFrom units.length).find? fun length =>
    (lexicon.stateBehind condition (units.take length)).isSome).getD 0

/-- The tokens whose pattern is `text`. -/
def tokensBehind (text : List U) : List Nat :=
  match lexicon.stateBehind condition text with
  | none => []
  | some state => (lexicon.forward.tokens (lexicon.forward.code state).value).value

/-- Whether a token may end behind `text` with `behind` as its right context. -/
def endsBefore (context : Nat) (text behind : List U) : Bool :=
  ((lexicon.stateBehind condition text).any fun state =>
    (lexicon.forward.splits (lexicon.forward.code state).value context).value) &&
  ((lexicon.stateBefore condition behind).any fun state =>
    (lexicon.reverse.splits (lexicon.reverse.code state).value context).value)

/-- The length of `token` in `text`, which holds its right context too: the longest there is. -/
def lengthOf (token : Nat) (text : List U) : Option Nat :=
  match (lexicon.context? token).value with
  | none => some text.length
  | some context => (downFrom text.length).find? fun length =>
      lexicon.endsBefore condition context (text.take length) (text.drop length)

/-- What `units` may begin with, in the order in which it is tried. -/
def candidates (units : List U) : List Candidate :=
  (downFrom (lexicon.reach condition units)).flatMap fun length =>
    (lexicon.tokensBehind condition (units.take length)).filterMap fun token =>
      (lexicon.lengthOf condition token (units.take length)).map (⟨token, ·⟩)

variable {lexicon condition}

theorem stateBefore_append (first second : List U) :
    lexicon.stateBefore condition (first ++ second) =
      (lexicon.stateBefore condition second).bind fun state =>
        lexicon.walk lexicon.reverse state first.reverse := by
  simp [stateBefore, walk_append]

theorem stateBefore_cons (unit : U) (behind : List U) :
    lexicon.stateBefore condition (unit :: behind) =
      (lexicon.stateBefore condition behind).bind (lexicon.step? lexicon.reverse · unit) := by
  simp [stateBefore, walk_concat]

theorem reach_le (units : List U) : lexicon.reach condition units ≤ units.length := by
  unfold reach
  cases found : (downFrom units.length).find? _ with
  | none => exact Nat.zero_le _
  | some length => exact (find?_downFrom_eq_some_iff.mp found).1.2.1

theorem le_reach {units : List U} {length : Nat} (positive : 1 ≤ length)
    (within : length ≤ units.length)
    (walks : (lexicon.stateBehind condition (units.take length)).isSome) :
    length ≤ lexicon.reach condition units := by
  unfold reach
  cases found : (downFrom units.length).find? _ with
  | none =>
    have stuck := find?_downFrom_eq_none_iff.mp found length positive within
    exact absurd (stuck.symm.trans walks) Bool.false_ne_true
  | some longest =>
    refine Nat.le_of_not_lt fun longer => ?_
    have stuck := (find?_downFrom_eq_some_iff.mp found).2 length longer within
    exact absurd (stuck.symm.trans walks) Bool.false_ne_true

/-- A walk that the next unit ends, if there is one, reaches as far as any. -/
theorem reach_eq {units text rest : List U} {state : Nat} (split : units = text ++ rest)
    (walks : lexicon.stateBehind condition text = some state)
    (ends : ∀ unit ∈ rest.head?, lexicon.step? lexicon.forward state unit = none) :
    lexicon.reach condition units = text.length := by
  subst split
  have none : ∀ length, text.length < length → length ≤ (text ++ rest).length →
      (lexicon.stateBehind condition ((text ++ rest).take length)).isSome = false := by
    intro length longer within
    cases rest with
    | nil => simp at within; omega
    | cons unit rest =>
      obtain ⟨more, rfl⟩ : ∃ more, length = text.length + (more + 1) :=
        ⟨length - text.length - 1, by omega⟩
      have stuck := ends unit (by simp)
      simp only [stateBehind] at walks
      simp [stateBehind, List.take_length_add_append, walk_append, walks, walk_cons, stuck]
  unfold reach
  by_cases empty : text.length = 0
  · rw [find?_downFrom_eq_none_iff.mpr fun length positive within =>
      none length (by omega) within, Option.getD_none, empty]
  · rw [find?_downFrom_eq_some_iff.mpr ⟨⟨by omega, by simp, by simp [walks]⟩, none⟩,
      Option.getD_some]

/-! ## Splits on a trail -/

theorem Traced.stateBehind_eq {trail : Trail U} {state : Nat}
    (traced : lexicon.Traced (lexicon.forward.initial condition).value trail state) :
    lexicon.stateBehind condition trail.text = some state :=
  traced.walk_eq

section
variable (checked : lexicon.Checked) {context : Nat} (numbered : context < lexicon.contexts)
include checked numbered

theorem isSplit_ok {state before : Nat} (known : state < lexicon.forward.stateCount)
    (within : before < lexicon.reverse.stateCount) :
    lexicon.isSplit context (lexicon.forward.code state).value before =
      .ok ((lexicon.forward.splits (lexicon.forward.code state).value context).value &&
        (lexicon.reverse.splits (lexicon.reverse.code before).value context).value) := by
  obtain ⟨code, coded, below⟩ := checked.forward.code_ok known
  obtain ⟨back, told, behind⟩ := checked.reverse.code_ok within
  obtain ⟨ends, looked⟩ := checked.forward.splits_ok below numbered
  obtain ⟨begins, found⟩ := checked.reverse.splits_ok behind numbered
  simp only [isSplit, coded, told, looked, found, Run.value, ok_bind]
  cases ends <;> rfl

/-- Going back over a trail answers, wherever the forward run began. -/
theorem splitFrom_ok {trail : Trail U} {start state before : Nat}
    (traced : lexicon.Traced start trail state) (known : start < lexicon.forward.stateCount)
    (within : before < lexicon.reverse.stateCount) :
    ∃ found, lexicon.splitFrom context before trail = .ok found ∧
      ∀ length ∈ found, 1 ≤ length ∧ length ≤ trail.length := by
  induction traced generalizing before with
  | start => exact ⟨none, rfl, by simp⟩
  | @step shorter middle state unit traced goes ih =>
    have below := (Traced.step traced goes).state_lt checked known
    rw [splitFrom, isSplit_ok checked numbered below within, ok_bind]
    split
    next => exact ⟨some (shorter.length + 1), rfl, by simp⟩
    next =>
      split
      next => exact ⟨none, rfl, by simp⟩
      next =>
        rw [retreat?_eq checked within, ok_bind]
        cases back : lexicon.step? lexicon.reverse before unit with
        | none => exact ⟨none, rfl, by simp⟩
        | some next =>
          obtain ⟨found, split, fits⟩ := ih (step?_lt checked.reverse checked within back)
          exact ⟨found, split, fun length member =>
            ⟨(fits length member).1, Nat.le_succ_of_le (fits length member).2⟩⟩

end

section
variable (checked : lexicon.Checked) (inForce : condition < lexicon.conditions)
include checked inForce

theorem stateBehind_lt {text : List U} {state : Nat}
    (behind : lexicon.stateBehind condition text = some state) :
    state < lexicon.forward.stateCount := by
  obtain ⟨initial, looked, known⟩ := checked.forward.initial_ok inForce
  exact walk_lt checked.forward checked (by rwa [looked]) behind

theorem stateBefore_lt {behind : List U} {state : Nat}
    (before : lexicon.stateBefore condition behind = some state) :
    state < lexicon.reverse.stateCount := by
  obtain ⟨initial, looked, known⟩ := checked.reverse.initial_ok inForce
  exact walk_lt checked.reverse checked (by rwa [looked]) before

variable {context : Nat} (numbered : context < lexicon.contexts)
include numbered

theorem isSplit_eq {text behind : List U} {state before : Nat}
    (walks : lexicon.stateBehind condition text = some state)
    (reads : lexicon.stateBefore condition behind = some before) :
    lexicon.isSplit context (lexicon.forward.code state).value before =
      .ok (lexicon.endsBefore condition context text behind) := by
  rw [isSplit_ok checked numbered (stateBehind_lt checked inForce walks)
    (stateBefore_lt checked inForce reads)]
  simp only [endsBefore, walks, reads, Option.any_some]

/-- Going back over a trail finds the greatest length at which both automata let the token end. -/
theorem splitFrom_eq {trail : Trail U} {state before : Nat} {behind : List U}
    (traced : lexicon.Traced (lexicon.forward.initial condition).value trail state)
    (reads : lexicon.stateBefore condition behind = some before) :
    lexicon.splitFrom context before trail =
      .ok ((downFrom trail.length).find? fun length =>
        lexicon.endsBefore condition context ((trail.text ++ behind).take length)
          ((trail.text ++ behind).drop length)) := by
  induction traced generalizing before behind with
  | start => rfl
  | @step shorter middle state unit traced goes ih =>
    have whole := (Traced.step traced goes).stateBehind_eq
    have here := isSplit_eq checked inForce numbered whole reads
    rw [Trail.text_cons] at here ⊢
    have size : (shorter.text ++ [unit]).length = shorter.length + 1 := by simp
    have front : (shorter.text ++ [unit] ++ behind).take (shorter.length + 1) =
        shorter.text ++ [unit] := List.take_left' size
    have back : (shorter.text ++ [unit] ++ behind).drop (shorter.length + 1) = behind :=
      List.drop_left' size
    simp only [splitFrom, here, ok_bind, List.length_cons, downFrom, List.find?_cons, front, back]
    cases ends : lexicon.endsBefore condition context (shorter.text ++ [unit]) behind with
    | true => rfl
    | false =>
      simp only [Bool.false_eq_true, ↓reduceIte, List.append_assoc, List.singleton_append]
      by_cases last : shorter = []
      · simp [last, downFrom]
      rw [if_neg (by simpa using last),
        retreat?_eq checked (stateBefore_lt checked inForce reads), ok_bind]
      have further : lexicon.stateBefore condition (unit :: behind) =
          (lexicon.stateBefore condition behind).bind (lexicon.step? lexicon.reverse · unit) :=
        stateBefore_cons unit behind
      rw [reads, Option.bind_some] at further
      cases went : lexicon.step? lexicon.reverse before unit with
      | some next => exact ih (further.trans went)
      | none =>
        -- Whatever is shorter has the unit that no context goes back over behind it.
        have nowhere : (downFrom shorter.length).find? (fun length =>
            lexicon.endsBefore condition context ((shorter.text ++ unit :: behind).take length)
              ((shorter.text ++ unit :: behind).drop length)) = none := by
          refine find?_downFrom_eq_none_iff.mpr fun length _ within => ?_
          have rest : (shorter.text ++ unit :: behind).drop length =
              shorter.text.drop length ++ unit :: behind :=
            List.drop_append_of_le_length (by simpa using within)
          simp [endsBefore, rest, stateBefore_append, further, went]
        rw [nowhere]
        rfl

theorem split_eq {trail : Trail U} {state : Nat}
    (traced : lexicon.Traced (lexicon.forward.initial condition).value trail state) :
    lexicon.split condition context trail =
      .ok ((downFrom trail.length).find? fun length =>
        lexicon.endsBefore condition context (trail.text.take length)
          (trail.text.drop length)) := by
  obtain ⟨initial, looked, -⟩ := checked.reverse.initial_ok inForce
  have none : lexicon.stateBefore condition ([] : List U) = some initial := by
    simp [stateBefore, looked, Run.value]
  have found := splitFrom_eq checked inForce numbered traced none
  simpa [split, looked] using found

end

/-- What is tried on a trail: each token with the part of the trail that it ends. -/
def attempts (lexicon : Lexicon) : Trail U → List (Nat × Trail U)
  | [] => []
  | (unit, code) :: shorter =>
    (lexicon.forward.tokens code).value.map (·, (unit, code) :: shorter) ++ attempts lexicon shorter

theorem mem_attempts {trail part : Trail U} {state token : Nat} {start : Nat}
    (traced : lexicon.Traced start trail state) (tried : (token, part) ∈ lexicon.attempts trail) :
    ∃ behind, lexicon.Traced start part behind ∧ part ≠ [] ∧ part.length ≤ trail.length ∧
      token ∈ (lexicon.forward.tokens (lexicon.forward.code behind).value).value := by
  induction traced with
  | start => cases tried
  | @step shorter middle state unit traced goes ih =>
    obtain here | below := List.mem_append.mp tried
    · obtain ⟨listed, member, same⟩ := List.mem_map.mp here
      cases same
      exact ⟨state, .step traced goes, by simp, Nat.le_refl _, member⟩
    · obtain ⟨behind, part, some, short, member⟩ := ih below
      exact ⟨behind, part, some, by simp only [List.length_cons]; omega, member⟩

/-- What is tried are parts of a trail from `start`, of some units and at most `bound`. -/
def Along (lexicon : Lexicon) (start bound : Nat) (tried : List (Nat × Trail U)) : Prop :=
  ∀ token part, (token, part) ∈ tried →
    part ≠ [] ∧ part.length ≤ bound ∧ ∃ state, lexicon.Traced start part state

theorem Along.tail {start bound : Nat} {first : Nat × Trail U} {rest : List (Nat × Trail U)}
    (along : lexicon.Along start bound (first :: rest)) : lexicon.Along start bound rest :=
  fun token part member => along token part (.tail _ member)

theorem Traced.along {start state : Nat} {trail : Trail U}
    (traced : lexicon.Traced start trail state) :
    lexicon.Along start trail.length (lexicon.attempts trail) := by
  intro token part tried
  obtain ⟨behind, traced, nonempty, short, -⟩ := mem_attempts traced tried
  exact ⟨nonempty, short, behind, traced⟩

/-- Of what is tried on a trail that reaches as far as any, the matches are the candidates. -/
theorem filterMap_attempts {trail : Trail U} {state : Nat} {units rest : List U}
    (traced : lexicon.Traced (lexicon.forward.initial condition).value trail state)
    (split : units = trail.text ++ rest) :
    (lexicon.attempts trail).filterMap (fun tried =>
        (lexicon.lengthOf condition tried.1 (Trail.text tried.2)).map (⟨tried.1, ·⟩)) =
      (downFrom trail.length).flatMap fun length =>
        (lexicon.tokensBehind condition (units.take length)).filterMap fun token =>
          (lexicon.lengthOf condition token (units.take length)).map
            (⟨token, ·⟩ : Nat → Candidate) := by
  induction traced generalizing rest with
  | start => rfl
  | @step shorter middle state unit traced goes ih =>
    have whole := (Traced.step traced goes).stateBehind_eq
    have head : units.take (shorter.length + 1) = shorter.text ++ [unit] := by
      rw [split, Trail.text_cons]
      exact List.take_left' (by simp)
    have tokens : lexicon.tokensBehind condition (shorter.text ++ [unit]) =
        (lexicon.forward.tokens (lexicon.forward.code state).value).value := by
      rw [Trail.text_cons] at whole
      simp [tokensBehind, whole]
    rw [Trail.text_cons, List.append_assoc] at split
    simp only [attempts, List.filterMap_append, List.filterMap_map, Function.comp_def,
      List.length_cons, downFrom, List.flatMap_cons, head, tokens, Trail.text_cons, ih split]

end Lexicon

end TableDriven
