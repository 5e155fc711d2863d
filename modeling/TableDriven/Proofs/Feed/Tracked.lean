import TableDriven.Proofs.Feed.Operations

/-! # Tracked sources

A tracked source is any source with a mark that says where it came from; it notes what is done to
it, each `Deed` with that mark.  Its token and its failures are those of the source, so a feed of
tracked sources goes the way that the feed of the sources goes (`Mirrors`), and its journal tells
which source was asked and closed when.
-/

namespace TableDriven.Feed

/-- Where a source came from: it is the primary one, or was handed over by the call of an index, or
was found by the resolver after so many others. -/
inductive Origin where
  | primary
  | stacked (call : Nat)
  | resolved (count : Nat)
  deriving DecidableEq

/-- What is done to a source.  It was asked, and answered a token of a number unless it failed, or
it was closed. -/
inductive Deed where
  | asked (origin : Origin) (number? : Option Nat)
  | closed (origin : Origin)
  deriving DecidableEq

def Deed.origin : Deed → Origin
  | .asked origin _ | .closed origin => origin

/-- A source that notes what is done to it. -/
structure Tracked (σ : Type) where
  origin : Origin
  source : σ

/-- A resolver that counts the sources that it finds. -/
structure Tracker (ρ : Type) where
  resolver : ρ
  count : Nat

variable {σ ρ V ε : Type} [TokenSource σ V ε] [Resolver ρ σ V ε]

instance : TokenSource (Tracked σ) V (Deed ⊕ ε) where
  next fuel tracked := do
    let pull ← TokenSource.next fuel tracked.source
    let deed := .asked tracked.origin (pull.answer.toOption.map Token.number)
    return ⟨pull.answer, ⟨tracked.origin, pull.rest⟩, .inl deed :: pull.notes.map .inr⟩
  close tracked :=
    .inl (.closed tracked.origin) :: (TokenSource.close tracked.source).map .inr

instance : Resolver (Tracker ρ) (Tracked σ) V (Deed ⊕ ε) where
  resolve tracker token :=
    let found : Except StreamFault σ × ρ × List ε := Resolver.resolve tracker.resolver token
    match found with
    | (.ok source, resolver, notes) =>
      (.ok ⟨.resolved tracker.count, source⟩, ⟨resolver, tracker.count + 1⟩, notes.map .inr)
    | (.error fault, resolver, notes) =>
      (.error fault, ⟨resolver, tracker.count⟩, notes.map .inr)

/-- A call whose source is tracked. -/
def Operation.track (index : Nat) : Operation σ V → Operation (Tracked σ) V
  | .stack source => .stack ⟨.stacked index, source⟩
  | .next => .next
  | .peek distance => .peek distance
  | .pushBack token => .pushBack token
  | .close => .close

/-- Calls, the first of them of index `index`, whose sources are tracked. -/
def track : Nat → List (Operation σ V) → List (Operation (Tracked σ) V)
  | _, [] => []
  | index, operation :: operations => operation.track index :: track (index + 1) operations

/-- A feed from one source, with a resolver of sentinel tokens or without. -/
def start (source : σ) (eofSymbol : Nat) (sentinel : Option (Nat × ρ)) : Feed σ ρ V ε :=
  let feed : Feed σ ρ V ε := ofSource source eofSymbol
  { feed with sentinel }

/-- The feed at the start, with a source and a resolver that are tracked. -/
def startTracked (source : σ) (eofSymbol : Nat) (sentinel : Option (Nat × ρ)) :
    Feed (Tracked σ) (Tracker ρ) V (Deed ⊕ ε) :=
  start ⟨.primary, source⟩ eofSymbol (sentinel.map fun entry => (entry.1, ⟨entry.2, 0⟩))

/-- Polls of a call that has not answered yet. -/
inductive Polls : Feed σ ρ V ε → Feed σ ρ V ε → Prop where
  | done {feed : Feed σ ρ V ε} : Polls feed feed
  | poll {feed middle after : Feed σ ρ V ε} {fuel : Nat} {answer : Except StreamFault Bool}
      (polled : feed.poll fuel = .ok (answer, middle)) (rest : Polls middle after) :
      Polls feed after

/-- The first feed is the second with tracked sources; the journals may differ. -/
structure Mirrors (tracked : Feed (Tracked σ) (Tracker ρ) V (Deed ⊕ ε)) (plain : Feed σ ρ V ε) :
    Prop where
  primary : tracked.primary.map Tracked.source = plain.primary
  frames : tracked.frames.map (fun frame => ⟨frame.source.source, frame.resume⟩) = plain.frames
  queue : tracked.queue = plain.queue
  eof : tracked.eof = plain.eof
  eofSymbol : tracked.eofSymbol = plain.eofSymbol
  sentinel : tracked.sentinel.map (fun entry => (entry.1, entry.2.resolver)) = plain.sentinel

/-- The same answer, from feeds one of which tracks what the other has. -/
def AnswerMirrored {α : Type} (first : α × Feed (Tracked σ) (Tracker ρ) V (Deed ⊕ ε))
    (second : α × Feed σ ρ V ε) : Prop :=
  first.1 = second.1 ∧ Mirrors first.2 second.2

omit [TokenSource σ V ε] [Resolver ρ σ V ε] in
theorem mirrors_start (source : σ) (eofSymbol : Nat) (sentinel : Option (Nat × ρ)) :
    Mirrors (startTracked source eofSymbol sentinel)
      (start source eofSymbol sentinel : Feed σ ρ V ε)
    where
  primary := rfl
  frames := rfl
  queue := rfl
  eof := rfl
  eofSymbol := rfl
  sentinel := by cases sentinel <;> rfl

namespace Mirrors

variable {tracked : Feed (Tracked σ) (Tracker ρ) V (Deed ⊕ ε)} {plain : Feed σ ρ V ε}
  (mirrors : Mirrors tracked plain)
include mirrors

omit [TokenSource σ V ε] in
theorem take (token : Token V) : AnswerMirrored (tracked.take token) (plain.take token) := by
  obtain ⟨primary, frames, queue, eof, eofSymbol, sentinel⟩ := mirrors
  unfold Feed.take
  rw [← sentinel]
  cases tracked.sentinel with
  | none =>
    exact ⟨rfl, primary, frames, congrArg (·.pushBack token) queue, eof, eofSymbol, sentinel⟩
  | some entry =>
    obtain ⟨symbol, tracker⟩ := entry
    by_cases number : token.number = symbol
    · simp only [Option.map_some, if_pos number]
      simp only [Resolver.resolve]
      rcases (Resolver.resolve tracker.resolver token : Except StreamFault σ × ρ × List ε) with
        ⟨fault | source, resolver, notes⟩
      · exact ⟨rfl, primary, frames, queue, eof, eofSymbol, rfl⟩
      · exact ⟨rfl, primary, congrArg (_ :: ·) frames, queue, eof, eofSymbol, rfl⟩
    · simp only [Option.map_some, if_neg number]
      exact ⟨rfl, primary, frames, congrArg (·.pushBack token) queue, eof, eofSymbol, sentinel⟩

omit [Resolver ρ σ V ε] in
theorem finishFrame (rest : Tracked σ) (resume : Queue (Token V))
    {outer : List (Frame (Tracked σ) V)} {others : List (Frame σ V)}
    (same : outer.map (fun frame => ⟨frame.source.source, frame.resume⟩) = others) :
    Mirrors (tracked.finishFrame rest resume outer)
      (plain.finishFrame rest.source resume others) where
  primary := mirrors.primary
  frames := same
  queue := congrArg (·.append resume) mirrors.queue
  eof := mirrors.eof
  eofSymbol := mirrors.eofSymbol
  sentinel := mirrors.sentinel

theorem poll (fuel : Nat) :
    Run.Alike AnswerMirrored (tracked.poll fuel) (plain.poll fuel) := by
  obtain ⟨primary, frames, queue, eof, eofSymbol, sentinel, journal⟩ := tracked
  obtain ⟨_, _, _, _, _, _, written⟩ := plain
  obtain ⟨rfl, rfl, rfl, rfl, rfl, rfl⟩ := mirrors
  cases frames with
  | cons frame outer =>
    simp only [Feed.poll, List.map_cons, TokenSource.next, bind_assoc, pure_bind]
    refine (Run.Alike.refl (TokenSource.next fuel frame.source.source)).bind ?_
    rintro pull _ rfl
    cases pull.answer with
    | error fault => exact .answered ⟨rfl, rfl, rfl, rfl, rfl, rfl, rfl⟩
    | ok token =>
      show Run.Alike _ (if token.number = eofSymbol then _ else _)
        (if token.number = eofSymbol then _ else _)
      split
      next => exact .answered ⟨rfl, Mirrors.finishFrame ⟨rfl, rfl, rfl, rfl, rfl, rfl⟩ _ _ rfl⟩
      next => exact .answered (Mirrors.take ⟨rfl, rfl, rfl, rfl, rfl, rfl⟩ token)
  | nil =>
    cases eof with
    | some eof => exact .answered ⟨rfl, rfl, rfl, rfl, rfl, rfl, rfl⟩
    | none =>
      cases primary with
      | none => exact .answered ⟨rfl, rfl, rfl, rfl, rfl, rfl, rfl⟩
      | some source =>
        simp only [Feed.poll, List.map_nil, Option.map_some, TokenSource.next, bind_assoc,
          pure_bind]
        refine (Run.Alike.refl (TokenSource.next fuel source.source)).bind ?_
        rintro pull _ rfl
        cases pull.answer with
        | error fault => exact .answered ⟨rfl, rfl, rfl, rfl, rfl, rfl, rfl⟩
        | ok token => exact .answered (Mirrors.take ⟨rfl, rfl, rfl, rfl, rfl, rfl⟩ token)

theorem pull (fuel : Nat) :
    Run.Alike AnswerMirrored (tracked.pull fuel) (plain.pull fuel) := by
  induction fuel generalizing tracked plain with
  | zero => exact .broken _
  | succ fuel ih =>
    refine (mirrors.poll fuel).bind ?_
    rintro ⟨answer, tracked⟩ ⟨_, plain⟩ ⟨rfl, after⟩
    cases answer with
    | error fault => exact .answered ⟨rfl, after⟩
    | ok filled =>
      cases filled with
      | true => exact .answered ⟨rfl, after⟩
      | false => exact ih after

omit [TokenSource σ V ε] [Resolver ρ σ V ε] in
theorem withQueue (queue : Queue (Token V)) : Mirrors { tracked with queue } { plain with queue } :=
  ⟨mirrors.primary, mirrors.frames, rfl, mirrors.eof, mirrors.eofSymbol, mirrors.sentinel⟩

theorem next (fuel : Nat) :
    Run.Alike AnswerMirrored (tracked.next fuel) (plain.next fuel) := by
  unfold Feed.next
  rw [mirrors.queue]
  cases plain.queue.pop? with
  | some item => exact .answered ⟨rfl, mirrors.withQueue item.2⟩
  | none =>
    refine (mirrors.pull fuel).bind ?_
    rintro ⟨answer, tracked⟩ ⟨_, plain⟩ ⟨rfl, after⟩
    cases answer with
    | error fault => exact .answered ⟨rfl, after⟩
    | ok done =>
      dsimp only
      rw [after.queue]
      cases plain.queue.pop? with
      | none => exact .broken _
      | some item => exact .answered ⟨rfl, after.withQueue item.2⟩

theorem peek (fuel distance : Nat) :
    Run.Alike AnswerMirrored (tracked.peek fuel distance) (plain.peek fuel distance) := by
  induction fuel generalizing tracked plain with
  | zero => exact .broken _
  | succ fuel ih =>
    unfold Feed.peek
    rw [mirrors.queue]
    cases plain.queue.get? distance with
    | some token => exact .answered ⟨rfl, mirrors⟩
    | none =>
      refine (mirrors.pull fuel).bind ?_
      rintro ⟨answer, tracked⟩ ⟨_, plain⟩ ⟨rfl, after⟩
      cases answer with
      | error fault => exact .answered ⟨rfl, after⟩
      | ok done => exact ih after

theorem perform (fuel index : Nat) (operation : Operation σ V) :
    Run.Alike AnswerMirrored (tracked.perform fuel (operation.track index))
      (plain.perform fuel operation) := by
  cases operation with
  | next =>
    refine (mirrors.next fuel).bind ?_
    rintro ⟨answer, tracked⟩ ⟨_, plain⟩ ⟨rfl, after⟩
    exact .answered ⟨rfl, after⟩
  | peek distance =>
    refine (mirrors.peek fuel distance).bind ?_
    rintro ⟨answer, tracked⟩ ⟨_, plain⟩ ⟨rfl, after⟩
    exact .answered ⟨rfl, after⟩
  | pushBack token =>
    have after := mirrors.withQueue (plain.queue.pushFront token)
    rw [← mirrors.queue] at after
    exact .answered ⟨rfl, by simpa [Feed.pushBack, mirrors.queue] using after⟩
  | stack source =>
    refine .answered ⟨rfl, mirrors.primary, ?_, rfl, mirrors.eof, mirrors.eofSymbol,
      mirrors.sentinel⟩
    simp [includeSource, note, mirrors.queue, mirrors.frames]
  | close =>
    exact .answered ⟨rfl, rfl, rfl, rfl, mirrors.eof, mirrors.eofSymbol, mirrors.sentinel⟩

theorem performs {operations : List (Operation σ V)} {after : Feed σ ρ V ε}
    (performs : plain.Performs operations after) (index : Nat) :
    ∃ last : Feed (Tracked σ) (Tracker ρ) V (Deed ⊕ ε),
      tracked.Performs (track index operations) last ∧ Mirrors last after := by
  induction performs generalizing tracked index with
  | done => exact ⟨tracked, .done, mirrors⟩
  | @call _ _ _ fuel operation _ _ performed _ ih =>
    have alike := mirrors.perform fuel index operation
    rw [performed] at alike
    obtain ⟨⟨_, middle⟩, found, rfl, further⟩ := alike.of_ok_right
    obtain ⟨last, rest, mirrored⟩ := ih further (index + 1)
    exact ⟨last, .call found rest, mirrored⟩

theorem polls {after : Feed σ ρ V ε} (polls : plain.Polls after) :
    ∃ last : Feed (Tracked σ) (Tracker ρ) V (Deed ⊕ ε),
      tracked.Polls last ∧ Mirrors last after := by
  induction polls generalizing tracked with
  | done => exact ⟨tracked, .done, mirrors⟩
  | @poll _ _ _ fuel _ polled _ ih =>
    have alike := mirrors.poll fuel
    rw [polled] at alike
    obtain ⟨⟨_, middle⟩, found, rfl, further⟩ := alike.of_ok_right
    obtain ⟨last, rest, mirrored⟩ := ih further
    exact ⟨last, .poll found rest, mirrored⟩

end Mirrors

end TableDriven.Feed
