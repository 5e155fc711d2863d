import TableDriven.Parser.Parse
import TableDriven.Proofs.Feed.Ahead
import TableDriven.Token.Listed

/-! # Parses of listed tokens

Listed tokens never fail: a feed of them shows a token at every distance
(`exists_shows_of_listed`).  `Parse.ofListed` is a parse of such tokens that makes no values, and
`Run.answers` asks of a run on such tokens what can be decided.
-/

namespace TableDriven

namespace Feed

variable {ρ V ε : Type} [Resolver ρ (Listed V) V ε] {feed : Feed (Listed V) ρ V ε}

/-- No source is stacked, and no token is replaced by one. -/
structure IsPlain (feed : Feed (Listed V) ρ V ε) : Prop where
  frames : feed.frames = []
  sentinel : feed.sentinel = none

/-- One pull of a plain feed gets one token. -/
theorem IsPlain.pull_ok (plain : feed.IsPlain) :
    ∃ next, feed.pull 1 = .ok (.ok (), next) ∧ next.IsPlain ∧
      next.queue.toList.length = feed.queue.toList.length + 1 := by
  obtain ⟨primary, frames, queue, eof, eofSymbol, sentinel, journal⟩ := feed
  obtain ⟨rfl, rfl⟩ := plain
  have more (token : Token V) : (queue.pushBack token).toList.length = queue.toList.length + 1 := by
    simp
  cases eof with
  | some eof => exact ⟨_, rfl, ⟨rfl, rfl⟩, more _⟩
  | none =>
    cases primary with
    | none => exact ⟨_, rfl, ⟨rfl, rfl⟩, more _⟩
    | some source => exact ⟨_, rfl, ⟨rfl, rfl⟩, more _⟩

/-- A plain feed shows a token at every distance. -/
theorem exists_shows_of_listed (plain : feed.IsPlain) (distance : Nat) :
    ∃ token, feed.Shows distance token := by
  -- On the number of pulls that bring the token into the queue.
  obtain ⟨missing, enough⟩ :
      ∃ missing, distance < feed.queue.toList.length + missing := ⟨distance + 1, by omega⟩
  induction missing generalizing feed with
  | zero =>
    refine ⟨feed.queue.toList[distance], shows_of_waits ?_⟩
    rw [Queue.get?_eq, List.getElem?_eq_getElem enough]
  | succ missing ih =>
    obtain ⟨next, pulled, plain, longer⟩ := plain.pull_ok
    obtain ⟨token, shown⟩ := ih plain (by omega)
    exact ⟨token, (shows_of_pull pulled).mp shown⟩

end Feed

/-- Whether a run answers, and what is asked for. -/
def Run.answers (asked : α → Bool) : Run α → Bool
  | .ok answer => asked answer
  | .error _ => false

theorem Run.exists_of_answers {run : Run α} {asked : α → Bool} (told : run.answers asked = true) :
    ∃ answer, run = .ok answer ∧ asked answer = true := by
  cases run with
  | error why => cases told
  | ok answer => exact ⟨answer, rfl, told⟩

/-- A parse with a table, a stack of states, the top first, and the symbols to come. -/
def Parse.ofListed (table : LrTable) (states symbols : List Nat) :
    Parse (Listed Unit) Empty Empty Unit Empty where
  toParser := { Parser.create table true with stack := states.map fun state => ⟨some state, none⟩ }
  feed := .ofSource (.ofSymbols (symbols.map fun symbol => (symbol, none)) table.eof) table.eof

theorem Parse.isPlain_ofListed (table : LrTable) (states symbols : List Nat) :
    (Parse.ofListed table states symbols).feed.IsPlain :=
  ⟨rfl, rfl⟩

end TableDriven
