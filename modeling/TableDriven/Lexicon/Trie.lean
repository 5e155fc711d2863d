import TableDriven.Lexicon.Basic

/-! # Tries

A trie is an automaton whose states stand for the paths that lead to them.  State 0 is invalid
and state 1 stands for the empty path.  A path adds a state for each of its beginnings that has
none yet, the shortest first, so that states are numbered in the order in which their paths first
come up.  Every state is its own recognition code.
-/

namespace TableDriven

/-- A path through an automaton, as the categories read along it. -/
abbrev Path := List Nat

/-- The states of a trie: the state one category further on, by state and category, or 0. -/
structure Trie where
  categories : Nat
  rows : Array (Array Nat)
  deriving DecidableEq, Inhabited

namespace Trie

def rootState : Nat := 1

def root (categories : Nat) : Trie :=
  ⟨categories, Array.replicate 2 (Array.replicate categories 0)⟩

variable (trie : Trie)

def size : Nat := trie.rows.size

/-- The state that a category leads to from a state, or 0. -/
def next (state category : Nat) : Nat := (trie.rows.getD state #[]).getD category 0

def find (path : Path) : Nat := path.foldl trie.next rootState

def link (state category following : Nat) : Trie :=
  { trie with rows := trie.rows.modify state (·.setIfInBounds category following) }

def addState : Trie :=
  { trie with rows := trie.rows.push (Array.replicate trie.categories 0) }

/-- Adds the states that are missing on a path from `state`. -/
def insertFrom (trie : Trie) (state : Nat) : Path → Trie
  | [] => trie
  | category :: rest =>
    let following := trie.next state category
    if following = Automaton.invalidState then
      let added := trie.size
      insertFrom (trie.link state category added).addState added rest
    else insertFrom trie following rest

def insert (path : Path) : Trie := trie.insertFrom rootState path

/-- The trie of all beginnings of `paths`. -/
def ofPaths (categories : Nat) (paths : List Path) : Trie := paths.foldl insert (root categories)

/-- The values that stand behind each key below `count`, in their order. -/
def grouped (count : Nat) (entries : List (Nat × α)) : Array (Array α) :=
  entries.foldl (fun groups (key, value) => groups.modify key (·.push value))
    (Array.replicate count #[])

/-- A row of `width` flags for each key below `count`, with the flags of `entries` set. -/
def flagged (count width : Nat) (entries : List (Nat × Nat)) : Array (Array Bool) :=
  entries.foldl (fun rows (key, flag) => rows.modify key (·.setIfInBounds flag true))
    (Array.replicate count (Array.replicate width false))

def sorted (tokens : Array UInt16) : Array UInt16 :=
  (tokens.toList.mergeSort (· ≤ ·)).eraseReps.toArray

/-- The trie as an automaton.  `tokens` tells which tokens are recognized in which states, and
`splits` in which states a token may end before which of the contexts. -/
def automaton (contexts : Nat) (tokens splits : List (Nat × Nat)) : Automaton where
  initialStates := #[UInt16.ofNat rootState]
  transitions := trie.rows.map fun row => row.map UInt16.ofNat
  codes := ((List.range (UInt16.ofNat trie.size).toNat).map UInt16.ofNat).toArray
  tokenLists := (grouped trie.size (tokens.map fun (state, token) =>
    (state, UInt16.ofNat token))).map sorted
  contextSplits := flagged trie.size contexts splits

end Trie

end TableDriven
