import TableDriven.Calculator.Evaluate
import TableDriven.Proofs.Parse.Listed
import TableDriven.Proofs.Parse.Produce

/-! # The forest behind a stack

The values on the stack of a parse are those of a forest: its leaves are the tokens that were
shifted, and its post-order the productions that were reduced by.  A shift plants a leaf (`Grows.shift`),
a reduction gathers the topmost trees under a node (`Grows.pops`), and nothing else touches the
forest, so it accounts for every run of the main loop (`exists_forest_of_runs`).
-/

namespace TableDriven

open TableDriven.Parser

/-- A parse tree. -/
inductive Tree (V : Type) where
  | leaf (token : Token V)
  | node (production : Nat) (children : List (Tree V))

namespace Tree

variable {V : Type}

mutual

/-- The tokens of a tree, from left to right. -/
def leaves : Tree V → List (Token V)
  | .leaf token => [token]
  | .node _ children => forestLeaves children

def forestLeaves : List (Tree V) → List (Token V)
  | [] => []
  | tree :: trees => tree.leaves ++ forestLeaves trees

end

mutual

/-- The productions of a tree, those of the children of a node before its own. -/
def postorder : Tree V → List Nat
  | .leaf _ => []
  | .node production children => forestPostorder children ++ [production]

def forestPostorder : List (Tree V) → List Nat
  | [] => []
  | tree :: trees => tree.postorder ++ forestPostorder trees

end

mutual

/-- The value of a tree: that of its token, or what its production makes of the children's. -/
def value (evaluate : Nat → List (Option V) → Option V) : Tree V → Option V
  | .leaf token => token.value
  | .node production children => evaluate production (forestValues evaluate children)

def forestValues (evaluate : Nat → List (Option V) → Option V) : List (Tree V) → List (Option V)
  | [] => []
  | tree :: trees => tree.value evaluate :: forestValues evaluate trees

end

theorem forestLeaves_eq (forest : List (Tree V)) : forestLeaves forest = forest.flatMap leaves := by
  induction forest with
  | nil => rfl
  | cons tree trees ih => rw [forestLeaves, ih, List.flatMap_cons]

theorem forestPostorder_eq (forest : List (Tree V)) :
    forestPostorder forest = forest.flatMap postorder := by
  induction forest with
  | nil => rfl
  | cons tree trees ih => rw [forestPostorder, ih, List.flatMap_cons]

theorem forestValues_eq (evaluate : Nat → List (Option V) → Option V) (forest : List (Tree V)) :
    forestValues evaluate forest = forest.map (value evaluate) := by
  induction forest with
  | nil => rfl
  | cons tree trees ih => rw [forestValues, ih, List.map_cons]

/-- Every node has as many children as its production reduces. -/
inductive Fits (table : LrTable) : Tree V → Prop where
  | leaf (token : Token V) : Fits table (.leaf token)
  | node {production : Nat} {children : List (Tree V)}
      (reduces : table.rhsLength production = .ok children.length)
      (fits : ∀ child ∈ children, Fits table child) : Fits table (.node production children)

/-- A forest that fits the table, with these leaves and this post-order. -/
structure Spans (table : LrTable) (tokens : List (Token V)) (productions : List Nat)
    (forest : List (Tree V)) : Prop where
  leaves : forest.flatMap leaves = tokens
  postorder : forest.flatMap postorder = productions
  fits : ∀ tree ∈ forest, tree.Fits table

variable {table : LrTable} {tokens : List (Token V)} {productions : List Nat}
  {forest below children : List (Tree V)}

theorem Spans.leaf (spans : Spans table tokens productions forest) (token : Token V) :
    Spans table (tokens ++ [token]) productions (forest ++ [.leaf token]) where
  leaves := by rw [List.flatMap_append, spans.leaves]; rfl
  postorder := by rw [List.flatMap_append, spans.postorder]; exact List.append_nil productions
  fits := by
    intro tree member
    rcases List.mem_append.mp member with member | member
    · exact spans.fits tree member
    · rw [List.mem_singleton.mp member]
      exact .leaf token

/-- A node over the last trees of a forest leaves its leaves and comes last in its post-order. -/
theorem Spans.node (spans : Spans table tokens productions (below ++ children)) {production : Nat}
    (reduces : table.rhsLength production = .ok children.length) :
    Spans table tokens (productions ++ [production]) (below ++ [.node production children]) where
  leaves := by
    rw [← spans.leaves, List.flatMap_append, List.flatMap_append]
    simp [Tree.leaves, forestLeaves_eq]
  postorder := by
    rw [← spans.postorder, List.flatMap_append, List.flatMap_append, List.append_assoc]
    simp [Tree.postorder, forestPostorder_eq]
  fits := by
    intro tree member
    rcases List.mem_append.mp member with member | member
    · exact spans.fits tree (List.mem_append_left children member)
    · rw [List.mem_singleton.mp member]
      exact .node reduces fun child inside => spans.fits child (List.mem_append_right below inside)

end Tree

namespace Parse

variable {σ ρ φ V ε : Type} {parse next popped : Parse σ ρ φ V ε} {table : LrTable}
  {bindings : Bindings φ} {meaning : Nat → List (Option V) → Option V} {kind : Nat → φ → Prop}
  {events more : List (Event V)} {forest : List (Tree V)} {value : Option V} {production : Nat}

/-! ## The forest of a parse -/

/-- The forest behind the stack of a parse that has done this: there is a tree for each cell but
the bottom one, and the cell has its value. -/
structure Grows [ValueFactory φ V ε] (table : LrTable) (bindings : Bindings φ)
    (meaning : Nat → List (Option V) → Option V) (kind : Nat → φ → Prop) (events : List (Event V))
    (forest : List (Tree V)) (parse : Parse σ ρ φ V ε) : Prop where
  lasts : bindings.Lasts parse.bindings
  means : parse.bindings.Means ε table meaning kind
  values : parse.values = (forest.map (Tree.value (bindings.evaluate meaning))).reverse ++ [none]
  spans : Tree.Spans table (Event.tokens events) (Event.productions events) forest
  table : parse.table = table

/-- The value that a parse is accepted with: that of the goal production over the topmost trees. -/
def Accepts (table : LrTable) (bindings : Bindings φ) (meaning : Nat → List (Option V) → Option V)
    (events : List (Event V)) (value : Option V) : Prop :=
  ∃ below topmost productions,
    Tree.Spans table (Event.tokens events) productions (below ++ topmost) ∧
      Event.productions events = productions ++ [table.goal] ∧
      table.rhsLength table.goal = .ok topmost.length ∧
      value = bindings.evaluate meaning table.goal
        (topmost.map (Tree.value (bindings.evaluate meaning)))

/-- What a forest has become when a step ends. -/
def Yields [ValueFactory φ V ε] (table : LrTable) (bindings : Bindings φ)
    (meaning : Nat → List (Option V) → Option V) (kind : Nat → φ → Prop) (events : List (Event V)) :
    Option (Result V) × Parse σ ρ φ V ε → Prop
  | (none, parse) => ∃ forest, parse.Grows table bindings meaning kind events forest
  | (some (.ok value), _) => Accepts table bindings meaning events value
  | (some (.error _), _) => True

section
variable [ValueFactory φ V ε] (grows : parse.Grows table bindings meaning kind events forest)
include grows

theorem Grows.tells {told : List (Token V × Report)} (tells : parse.Tells told next) :
    next.Grows table bindings meaning kind events forest where
  table := tells.table_eq.trans grows.table
  lasts := tells.bindings_eq ▸ grows.lasts
  means := tells.bindings_eq ▸ grows.means
  values := by rw [Parse.values, tells.stack_eq]; exact grows.values
  spans := grows.spans

/-- A shift plants a leaf. -/
theorem Grows.shift (state : Option Nat) (token : Token V) :
    (parse.shift state token).Grows table bindings meaning kind (events ++ [.shifted token])
      (forest ++ [.leaf token]) where
  table := grows.table
  lasts := grows.lasts
  means := grows.means
  values := by
    rw [List.map_append, List.reverse_append]
    exact congrArg (token.value :: ·) grows.values
  spans := by simpa using grows.spans.leaf token

/-- The values of the topmost trees are those on top of the stack. -/
theorem Grows.exists_topmost {length : Nat} (left : parse.stack.drop length ≠ []) :
    ∃ below children, forest = below ++ children ∧ children.length = length ∧
      (parse.stack.take length).map Cell.value =
        (children.map (Tree.value (bindings.evaluate meaning))).reverse ∧
      (parse.stack.drop length).map Cell.value =
        (below.map (Tree.value (bindings.evaluate meaning))).reverse ++ [none] := by
  have count : parse.stack.length = forest.length + 1 := by
    simpa [Parse.values] using congrArg List.length grows.values
  have short : length ≤ forest.length := by
    have inside := List.length_pos_iff.mpr left
    rw [List.length_drop] at inside
    omega
  have values := grows.values
  rw [← List.take_append_drop (forest.length - length) forest, List.map_append,
    List.reverse_append, List.append_assoc, Parse.values] at values
  refine ⟨forest.take (forest.length - length), forest.drop (forest.length - length),
    (List.take_append_drop _ _).symm, by rw [List.length_drop]; omega, ?_, ?_⟩
  · rw [List.map_take, values, List.take_left']
    simp
    omega
  · rw [List.map_drop, values, List.drop_left']
    simp
    omega

/-- A reduction gathers the topmost trees under a node. -/
theorem Grows.pops (pops : parse.Pops production value popped) :
    popped.table = table ∧ ∃ below children, forest = below ++ children ∧
      table.rhsLength production = .ok children.length ∧
      value = bindings.evaluate meaning production
        (children.map (Tree.value (bindings.evaluate meaning))) ∧
      ∀ state, (popped.push state value).Grows table bindings meaning kind
        (events ++ [.reduced production]) (below ++ [.node production children]) := by
  cases pops with
  | @intro length value made reduces left produced =>
    obtain ⟨below, children, rfl, rfl, top, under⟩ := grows.exists_topmost left
    have means := grows.means
    have count : children.length =
        (children.map (Tree.value (bindings.evaluate meaning))).length := by simp
    have split := (List.take_append_drop children.length parse.stack).symm
    rw [← grows.table] at means
    rw [count] at reduces produced
    obtain ⟨rfl, dropped, lasts, means⟩ := produce_evaluate means reduces split top produced
    rw [grows.table] at reduces means
    rw [← count] at reduces dropped
    rw [grows.lasts.evaluate_eq]
    have kept := keeps_of_produce produced
    refine ⟨kept.table.trans grows.table, below, children, rfl, reduces, rfl, fun state => ?_⟩
    refine ⟨grows.lasts.trans lasts, means, ?_, ?_, kept.table.trans grows.table⟩
    · rw [← dropped] at under
      simp [Parse.values, push, under, Tree.value, Tree.forestValues_eq]
    · simpa using grows.spans.node reduces

theorem Grows.chains {productions : List Nat} {answer : Option (Result V) × Parse σ ρ φ V ε}
    (chains : parse.Chains production productions answer) :
    Yields table bindings meaning kind (events ++ productions.map .reduced) answer := by
  induction chains generalizing events forest with
  | popsInitial | noGoto => trivial
  | accepted pops goal =>
    obtain ⟨same, below, children, rfl, reduces, rfl, -⟩ := grows.pops pops
    rw [same] at goal
    subst goal
    exact ⟨below, children, Event.productions events, by simpa using grows.spans, by simp, reduces,
      rfl⟩
  | landed pops =>
    obtain ⟨-, below, children, -, -, -, grown⟩ := grows.pops pops
    exact ⟨_, grown _⟩
  | chained pops _ _ _ ih =>
    obtain ⟨-, below, children, -, -, -, grown⟩ := grows.pops pops
    simpa using ih (grown none)

variable [TokenSource σ V ε] [Resolver ρ σ V ε]

theorem Grows.turns {turn : Turn V} (turns : parse.Turns more (turn, next)) :
    Yields table bindings meaning kind (events ++ more) (turn.ending, next) := by
  cases turns with
  | failed => trivial
  | shifted faces => exact ⟨_, (grows.tells faces.tells).shift _ _⟩
  | @shiftReduced token _ _ _ _ _ _ _ faces chains same =>
    subst same
    have planted := (grows.tells faces.tells).shift none token
    simpa using planted.chains chains
  | @reduced token _ _ _ _ _ decided _ faces chains same =>
    subst same
    have waits := grows.tells (faces.tells.trans (tells_pushBack decided token))
    simpa using waits.chains chains
  | stuck faces =>
    exact ⟨forest, by simpa using grows.tells (faces.tells.trans (tells_pushBack _ _))⟩

theorem Grows.does {answer : Option (Result V) × Parse σ ρ φ V ε}
    (does : parse.Does more answer) :
    Yields table bindings meaning kind (events ++ more) answer := by
  cases does with
  | shifted _ turns | reduced _ turns | ended turns => exact grows.turns turns
  | abandoned => trivial
  | repaired turned turns found front applied =>
    obtain ⟨forest, grown⟩ := grows.turns turns
    have mended := grown.tells (tells_of_applied found front applied)
    exact ⟨forest, mended.lasts, mended.means, mended.values, by simpa using mended.spans,
      mended.table⟩

end

section
variable [TokenSource σ V ε] [Resolver ρ σ V ε] [ValueFactory φ V ε] {parser : Parser φ V ε}
  {feed : Feed σ ρ V ε}

omit [TokenSource σ V ε] [Resolver ρ σ V ε] in
theorem grows_start (means : parser.bindings.Means ε parser.table meaning kind) :
    (start parser feed).Grows parser.table parser.bindings meaning kind [] [] where
  lasts := .refl _
  means := means
  values := rfl
  spans := ⟨rfl, rfl, fun _ member => absurd member List.not_mem_nil⟩
  table := rfl

theorem exists_grows_of_runs (means : parser.bindings.Means ε parser.table meaning kind)
    (runs : (start parser feed).Runs events parse) :
    ∃ forest, parse.Grows parser.table parser.bindings meaning kind events forest := by
  induction runs with
  | start => exact ⟨[], grows_start means⟩
  | step _ _ does ih =>
    obtain ⟨forest, grows⟩ := ih
    exact grows.does does

/-- **The stack is the evaluation of a parse forest.**  Wherever the main loop comes from the start
of a parse, it has a history, and there is a forest with one tree for each cell above the bottom of
the stack.  Its leaves are the tokens that were shifted, its post-order the productions that were
reduced by, and the value of each cell is that of its tree.  A parse is accepted with the value of
the goal production over the topmost trees. -/
theorem exists_forest_of_runs (feed : Feed σ ρ V ε)
    (means : parser.bindings.Means ε parser.table meaning kind) :
    (∀ parse, (start parser feed).Reaches parse →
      ∃ events, (start parser feed).Runs events parse) ∧
      ∀ events parse, (start parser feed).Runs events parse →
        (∃ forest : List (Tree V),
          parse.values =
            (forest.map (Tree.value (parser.bindings.evaluate meaning))).reverse ++ [none] ∧
          Tree.Spans parser.table (Event.tokens events) (Event.productions events) forest) ∧
        ∀ fuel value last, parse.step fuel = .ok (some (.ok value), last) →
          (∃ more, parse.Does more (some (.ok value), last)) ∧
          ∀ more, parse.Does more (some (.ok value), last) →
            Accepts parser.table parser.bindings meaning (events ++ more) value := by
  refine ⟨fun parse reaches => reaches.exists_runs, fun events parse runs => ?_⟩
  obtain ⟨forest, grows⟩ := exists_grows_of_runs means runs
  refine ⟨⟨forest, grows.values, grows.spans⟩, fun fuel value last stepped => ?_⟩
  exact ⟨exists_does stepped, fun more does => grows.does does⟩

end

end Parse

namespace Calculator

/-- What the calculator's factories make of values: a sum, or the first of them. -/
def meaning (production : Nat) (values : List (Option Int64)) : Option Int64 :=
  if production = 1 then values[0]?.join.bind fun left => values[2]?.join.map (left + ·)
  else values.head?.join

theorem bindings_eq :
    (parser {}).bindings = ⟨#[.first, .sum, .first], #[some 0, some 1, some 2]⟩ := rfl

variable {values : List (Option Int64)}

theorem performs_first (more : 0 < values.length) (reduction : Reduction) :
    (ValueFactory.produce Meaning.first reduction :
      Recipe Int64 (Option Int64 × Meaning × List ScanNotice)).perform values =
        some (values.head?.join, .first, []) := by
  cases values with
  | nil => contradiction
  | cons value values => rfl

theorem performs_sum (three : values.length = 3) (reduction : Reduction) :
    (ValueFactory.produce Meaning.sum reduction :
      Recipe Int64 (Option Int64 × Meaning × List ScanNotice)).perform values =
        some (values[0]?.join.bind fun left => values[2]?.join.map (left + ·), .sum, []) := by
  obtain _ | ⟨left, _ | ⟨plus, _ | ⟨right, _ | ⟨other, rest⟩⟩⟩⟩ := values
  case cons.cons.cons.nil =>
    cases left with
    | none => rfl
    | some left => cases right <;> rfl
  all_goals simp at three

/-- The calculator's factories mean what they say, and they stay what they are. -/
theorem means_sums :
    (parser {}).bindings.Means ScanNotice table meaning fun slot factory =>
      (parser {}).bindings.factories[slot]? = some factory := by
  rw [bindings_eq]
  refine ⟨fun slot factory held => held, fun production slot bound => ?_⟩
  intro factory param position values held _ reduces
  obtain _ | _ | _ | production := production
  · cases bound
    cases held
    have two : 2 = values.length := Except.ok.inj reduces
    exact ⟨.first, [], performs_first (by omega) _, rfl⟩
  · cases bound
    cases held
    have three : 3 = values.length := Except.ok.inj reduces
    exact ⟨.sum, [], performs_sum three.symm _, rfl⟩
  · cases bound
    cases held
    have one : 1 = values.length := Except.ok.inj reduces
    exact ⟨.first, [], performs_first (by omega) _, rfl⟩
  · simp [Bindings.slot?] at bound

end Calculator

namespace Parse

/-- Two integers with a plus between them are accepted with their sum. -/
theorem exists_forest_of_runs_sums : ∃ events,
    Accepts Calculator.table (Calculator.parser {}).bindings Calculator.meaning events (some 3) := by
  let feed : Feed (Listed Int64) Empty Int64 Calculator.ScanNotice :=
    .ofSource (.ofSymbols [(0, some 1), (1, none), (0, some 2)] 2) 2
  have told : ((Parse.start (Calculator.parser {}) feed).run 30).answers
      (fun answer => answer.1.toOption == some (some 3)) = true := by decide +kernel
  obtain ⟨⟨result, last⟩, ran, sum⟩ := Run.exists_of_answers told
  obtain rfl : result = .ok (some 3) := by
    cases result with
    | error fault => cases sum
    | ok value => simpa [Except.toOption] using sum
  obtain ⟨parse, fuel, reaches, stepped⟩ := exists_reaches_of_run ran
  obtain ⟨traced, explained⟩ := exists_forest_of_runs feed Calculator.means_sums
  obtain ⟨events, runs⟩ := traced parse reaches
  obtain ⟨-, accepted⟩ := explained events parse runs
  obtain ⟨more, does⟩ := (accepted fuel (some 3) last stepped).1
  exact ⟨_, (accepted fuel (some 3) last stepped).2 more does⟩

end Parse

end TableDriven
