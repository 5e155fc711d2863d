import TableDriven.Proofs.Feed.Resumes

/-! # Calls of a feed

Whoever owns a feed calls it in any order: for the next token or one ahead, to put a token back, to
stack a source, or to close it.  `Feed.Performs` is a sequence of such calls.  A call that fails
does not keep the next from being made, nor does a feed that was closed refuse any.
-/

namespace TableDriven.Feed

/-- A call of a feed. -/
inductive Operation (σ V : Type) where
  | next
  | peek (distance : Nat)
  | pushBack (token : Token V)
  | stack (source : σ)
  | close

/-- The source that a call hands over. -/
def Operation.source? : Operation σ V → Option σ
  | .stack source => some source
  | .next | .peek _ | .pushBack _ | .close => none

variable {σ ρ V ε : Type} [TokenSource σ V ε] [Resolver ρ σ V ε]

/-- Makes a call; answers the token if it asks for one. -/
def perform (fuel : Nat) (feed : Feed σ ρ V ε) :
    Operation σ V → Run (Except StreamFault (Option (Token V)) × Feed σ ρ V ε)
  | .next => do
    let (answer, feed) ← feed.next fuel
    return (answer.map some, feed)
  | .peek distance => do
    let (answer, feed) ← feed.peek fuel distance
    return (answer.map some, feed)
  | .pushBack token => return (.ok none, feed.pushBack token)
  | .stack source => return (.ok none, feed.includeSource source)
  | .close => return (.ok none, feed.close)

/-- Calls one after the other, each with the fuel that it takes. -/
inductive Performs : Feed σ ρ V ε → List (Operation σ V) → Feed σ ρ V ε → Prop where
  | done {feed : Feed σ ρ V ε} : Performs feed [] feed
  | call {feed middle after : Feed σ ρ V ε} {fuel : Nat} {operation : Operation σ V}
      {operations : List (Operation σ V)} {answer : Except StreamFault (Option (Token V))}
      (performed : feed.perform fuel operation = .ok (answer, middle))
      (rest : Performs middle operations after) : Performs feed (operation :: operations) after

/-- A call asks no source: the token that it asks for waits. -/
def Serves (feed : Feed σ ρ V ε) : Operation σ V → Prop
  | .next => 0 < feed.queue.toList.length
  | .peek distance => distance < feed.queue.toList.length
  | .pushBack _ | .stack _ | .close => True

/-- Calls one after the other none of which asks a source. -/
inductive Prepares : Feed σ ρ V ε → List (Operation σ V) → Feed σ ρ V ε → Prop where
  | done {feed : Feed σ ρ V ε} : Prepares feed [] feed
  | call {feed middle after : Feed σ ρ V ε} {fuel : Nat} {operation : Operation σ V}
      {operations : List (Operation σ V)} {answer : Except StreamFault (Option (Token V))}
      (serves : feed.Serves operation)
      (performed : feed.perform fuel operation = .ok (answer, middle))
      (rest : Prepares middle operations after) : Prepares feed (operation :: operations) after

variable {feed after : Feed σ ρ V ε} {fuel : Nat}

/-- A property that every poll keeps, and that is not about the tokens that wait. -/
structure IsKept (kept : Feed σ ρ V ε → Prop) : Prop where
  poll : ∀ {feed next : Feed σ ρ V ε} {fuel : Nat} {answer : Except StreamFault Bool},
    kept feed → feed.poll fuel = .ok (answer, next) → kept next
  queue : ∀ {feed : Feed σ ρ V ε} (queue : Queue (Token V)), kept feed → kept { feed with queue }

namespace IsKept

variable {kept : Feed σ ρ V ε → Prop} (isKept : IsKept kept) (holds : kept feed)
include isKept holds

theorem pull {answer : Except StreamFault Unit} (pulled : feed.pull fuel = .ok (answer, after)) :
    kept after := by
  induction fuel generalizing feed with
  | zero => contradiction
  | succ fuel ih =>
    obtain ⟨⟨told, middle⟩, polled, rest⟩ := bind_eq_ok_iff.mp pulled
    have further := isKept.poll holds polled
    cases told with
    | error fault =>
      cases rest
      exact further
    | ok filled =>
      cases filled with
      | true =>
        cases rest
        exact further
      | false => exact ih further rest

theorem next {answer : Except StreamFault (Token V)}
    (taken : feed.next fuel = .ok (answer, after)) :
    kept after := by
  unfold Feed.next at taken
  split at taken
  next =>
    cases taken
    exact isKept.queue _ holds
  next =>
    obtain ⟨⟨told, middle⟩, pulled, taken⟩ := bind_eq_ok_iff.mp taken
    have further := isKept.pull holds pulled
    cases told with
    | error fault =>
      cases taken
      exact further
    | ok done =>
      dsimp only at taken
      split at taken
      next =>
        cases taken
        exact isKept.queue _ further
      next => cases taken

theorem peek {distance : Nat} {answer : Except StreamFault (Token V)}
    (peeked : feed.peek fuel distance = .ok (answer, after)) : kept after := by
  induction fuel generalizing feed with
  | zero => contradiction
  | succ fuel ih =>
    unfold Feed.peek at peeked
    split at peeked
    next =>
      cases peeked
      exact holds
    next =>
      obtain ⟨⟨told, middle⟩, pulled, peeked⟩ := bind_eq_ok_iff.mp peeked
      have further := isKept.pull holds pulled
      cases told with
      | error fault =>
        cases peeked
        exact further
      | ok done => exact ih further peeked

/-- A call that neither stacks a source nor closes the feed keeps it. -/
theorem perform {operation : Operation σ V} {answer : Except StreamFault (Option (Token V))}
    (stack : ∀ {source}, operation = .stack source → kept (feed.includeSource source))
    (close : operation = .close → kept feed.close)
    (performed : feed.perform fuel operation = .ok (answer, after)) : kept after := by
  cases operation with
  | next =>
    obtain ⟨told, taken, answered⟩ := bind_eq_ok_iff.mp performed
    cases answered
    exact isKept.next holds taken
  | peek distance =>
    obtain ⟨told, peeked, answered⟩ := bind_eq_ok_iff.mp performed
    cases answered
    exact isKept.peek holds peeked
  | pushBack token =>
    cases performed
    exact isKept.queue _ holds
  | stack source =>
    cases performed
    exact stack rfl
  | close =>
    cases performed
    exact close rfl

end IsKept

end TableDriven.Feed
