import TableDriven.Feed

/-! # What asking the sources does

A poll asks one source at most: the innermost stacked one, or the primary one if none is stacked and
its end of file was not seen yet.  `Feed.Polled` says all that can come of it, guards included, and
`poll_eq_ok_iff` that it is just what the program does.  `Took` says the same of a token that comes
from a source.
-/

namespace TableDriven.Feed

variable {σ ρ V ε : Type}

/-- Where a source stands: among the stacked ones, where its end of file is dropped, or at the
bottom, where it is kept. -/
inductive Place where
  | stacked
  | primary

/-- The source that a feed asks next. -/
inductive Asks (feed : Feed σ ρ V ε) : Place → σ → Prop where
  | stacked {frame : Frame σ V} {outer : List (Frame σ V)} (frames : feed.frames = frame :: outer) :
      Asks feed .stacked frame.source
  | primary {source : σ} (frames : feed.frames = []) (eof : feed.eof = none)
      (primary : feed.primary = some source) : Asks feed .primary source

/-- The feed with another state of the source that it asks. -/
def replied (feed : Feed σ ρ V ε) (rest : σ) (notes : List ε) : Feed σ ρ V ε :=
  match feed.frames with
  | frame :: outer => noteAll { feed with frames := { frame with source := rest } :: outer } notes
  | [] => noteAll { feed with primary := some rest } notes

section
variable {feed : Feed σ ρ V ε}

@[simp] theorem queue_replied (rest : σ) (notes : List ε) :
    (feed.replied rest notes).queue = feed.queue := by
  unfold replied
  split <;> rfl

@[simp] theorem sentinel_replied (rest : σ) (notes : List ε) :
    (feed.replied rest notes).sentinel = feed.sentinel := by
  unfold replied
  split <;> rfl

@[simp] theorem eofSymbol_replied (rest : σ) (notes : List ε) :
    (feed.replied rest notes).eofSymbol = feed.eofSymbol := by
  unfold replied
  split <;> rfl

end

/-- The feed after the end of file of its primary source. -/
def exhausted (feed : Feed σ ρ V ε) (eof : Token V) : Feed σ ρ V ε :=
  { feed with eof := some eof.withoutValue }

/-- The feed with a source stacked in place of a sentinel token. -/
def including (feed : Feed σ ρ V ε) (symbol : Nat) (resolver : ρ) (source : σ) (notes : List ε) :
    Feed σ ρ V ε :=
  noteAll { feed with
    sentinel := some (symbol, resolver)
    frames := ⟨source, .empty⟩ :: feed.frames } notes

/-- The end of file that a feed delivers for ever: its primary source was used up or closed. -/
inductive IsOver (feed : Feed σ ρ V ε) : Token Unit → Prop where
  | seen {eof : Token Unit} (frames : feed.frames = []) (seen : feed.eof = some eof) :
      IsOver feed eof
  | closed (frames : feed.frames = []) (eof : feed.eof = none) (primary : feed.primary = none) :
      IsOver feed (.bare feed.eofSymbol)

/-- Tokens of this number are no sentinels. -/
def IsOrdinary (sentinel : Option (Nat × ρ)) (number : Nat) : Prop :=
  ∀ entry ∈ sentinel, number ≠ entry.1

section
variable [Resolver ρ σ V ε]

/-- What becomes of a token that comes from a source. -/
inductive Took (feed : Feed σ ρ V ε) (token : Token V) :
    Except StreamFault Bool → Feed σ ρ V ε → Prop where
  | waits (ordinary : IsOrdinary feed.sentinel token.number) :
      Took feed token (.ok true) (feed.enqueue token)
  | included {symbol : Nat} {resolver next : ρ} {source : σ} {notes : List ε}
      (sentinel : feed.sentinel = some (symbol, resolver)) (number : token.number = symbol)
      (resolves : Resolver.resolve resolver token = (.ok source, next, notes)) :
      Took feed token (.ok false) (feed.including symbol next source notes)
  | refused {symbol : Nat} {resolver next : ρ} {fault : StreamFault} {notes : List ε}
      (sentinel : feed.sentinel = some (symbol, resolver)) (number : token.number = symbol)
      (resolves : (Resolver.resolve resolver token : Except StreamFault σ × ρ × List ε) =
        (.error fault, next, notes)) :
      Took feed token (.error fault) (noteAll { feed with sentinel := some (symbol, next) } notes)

variable {feed next : Feed σ ρ V ε} {token : Token V} {answer : Except StreamFault Bool}

theorem took_of_take (taken : feed.take token = (answer, next)) :
    feed.Took token answer next := by
  cases sentinel : feed.sentinel with
  | none =>
    simp only [take, sentinel] at taken
    cases taken
    exact .waits (by simp [IsOrdinary, sentinel])
  | some entry =>
    obtain ⟨symbol, resolver⟩ := entry
    by_cases number : token.number = symbol
    · simp only [take, sentinel, if_pos number] at taken
      obtain ⟨⟨answer, next, notes⟩, resolves⟩ :
          ∃ told, (Resolver.resolve resolver token : Except StreamFault σ × ρ × List ε) = told :=
        ⟨_, rfl⟩
      rw [resolves] at taken
      cases answer with
      | error fault =>
        cases taken
        exact .refused sentinel number resolves
      | ok source =>
        cases taken
        exact .included sentinel number resolves
    · simp only [take, sentinel, if_neg number] at taken
      cases taken
      exact .waits (by simp [IsOrdinary, sentinel, number])

theorem Took.take_eq (took : Took feed token answer next) : feed.take token = (answer, next) := by
  cases took with
  | waits ordinary =>
    cases sentinel : feed.sentinel with
    | none => simp [take, sentinel]
    | some entry => simp [take, sentinel, ordinary entry sentinel]
  | included sentinel number resolves =>
    simp only [take, sentinel, if_pos number, resolves]
    rfl
  | refused sentinel number resolves =>
    simp only [take, sentinel, if_pos number, resolves]

end

variable [TokenSource σ V ε] [Resolver ρ σ V ε]

/-- What a poll can do. -/
inductive Polled (feed : Feed σ ρ V ε) (fuel : Nat) :
    Except StreamFault Bool → Feed σ ρ V ε → Prop where
  | past {eof : Token Unit} (isOver : feed.IsOver eof) :
      Polled feed fuel (.ok true) (feed.enqueue (eof.synthetic feed.eofSymbol))
  | failed {place : Place} {source rest : σ} {fault : StreamFault} {notes : List ε}
      (asks : feed.Asks place source)
      (asked : TokenSource.next fuel source = .ok ⟨.error fault, rest, notes⟩) :
      Polled feed fuel (.error fault) (feed.replied rest notes)
  | inner {place : Place} {source rest : σ} {token : Token V} {notes : List ε}
      {answer : Except StreamFault Bool} {next : Feed σ ρ V ε} (asks : feed.Asks place source)
      (asked : TokenSource.next fuel source = .ok ⟨.ok token, rest, notes⟩)
      (inner : token.number ≠ feed.eofSymbol)
      (took : (feed.replied rest notes).Took token answer next) : Polled feed fuel answer next
  | finished {frame : Frame σ V} {outer : List (Frame σ V)} {rest : σ} {token : Token V}
      {notes : List ε} (frames : feed.frames = frame :: outer)
      (asked : TokenSource.next fuel frame.source = .ok ⟨.ok token, rest, notes⟩)
      (last : token.number = feed.eofSymbol) :
      Polled feed fuel (.ok !frame.resume.isEmpty)
        ((feed.replied rest notes).finishFrame rest frame.resume outer)
  | ended {source rest : σ} {token : Token V} {notes : List ε} {answer : Except StreamFault Bool}
      {next : Feed σ ρ V ε} (frames : feed.frames = []) (eof : feed.eof = none)
      (primary : feed.primary = some source)
      (asked : TokenSource.next fuel source = .ok ⟨.ok token, rest, notes⟩)
      (last : token.number = feed.eofSymbol)
      (took : ((feed.replied rest notes).exhausted token).Took token answer next) :
      Polled feed fuel answer next

variable {feed next : Feed σ ρ V ε} {fuel : Nat} {answer : Except StreamFault Bool}

theorem polled_of_poll (polled : feed.poll fuel = .ok (answer, next)) :
    feed.Polled fuel answer next := by
  obtain ⟨primary, frames, queue, eof, eofSymbol, sentinel, journal⟩ := feed
  cases frames with
  | cons frame outer =>
    obtain ⟨⟨told, rest, notes⟩, asked, polled⟩ := bind_eq_ok_iff.mp polled
    cases told with
    | error fault =>
      cases Except.ok.inj polled
      exact .failed (.stacked rfl) asked
    | ok token =>
      dsimp only at polled
      split at polled
      next last =>
        cases Except.ok.inj polled
        exact .finished rfl asked last
      next inner =>
        exact .inner (.stacked rfl) asked inner (took_of_take (Except.ok.inj polled))
  | nil =>
    cases eof with
    | some eof =>
      cases Except.ok.inj polled
      exact .past (.seen rfl rfl)
    | none =>
      cases primary with
      | none =>
        cases Except.ok.inj polled
        exact .past (.closed rfl rfl rfl)
      | some source =>
        obtain ⟨⟨told, rest, notes⟩, asked, polled⟩ := bind_eq_ok_iff.mp polled
        cases told with
        | error fault =>
          cases Except.ok.inj polled
          exact .failed (.primary rfl rfl rfl) asked
        | ok token =>
          have taken := Except.ok.inj polled
          dsimp only at taken
          split at taken
          next last => exact .ended rfl rfl rfl asked last (took_of_take taken)
          next inner => exact .inner (.primary rfl rfl rfl) asked inner (took_of_take taken)

theorem Polled.poll_eq (polled : feed.Polled fuel answer next) :
    feed.poll fuel = .ok (answer, next) := by
  obtain ⟨primary, frames, queue, eof, eofSymbol, sentinel, journal⟩ := feed
  cases polled with
  | past isOver =>
    cases isOver with
    | seen frames seen =>
      cases frames
      cases seen
      rfl
    | closed frames eof primary =>
      cases frames
      cases eof
      cases primary
      rfl
  | failed asks asked =>
    cases asks with
    | stacked frames =>
      cases frames
      exact bind_eq_ok_iff.mpr ⟨_, asked, rfl⟩
    | primary frames eof primary =>
      cases frames
      cases eof
      cases primary
      exact bind_eq_ok_iff.mpr ⟨_, asked, rfl⟩
  | inner asks asked inner took =>
    cases asks with
    | stacked frames =>
      cases frames
      refine bind_eq_ok_iff.mpr ⟨_, asked, ?_⟩
      exact (if_neg inner).trans (congrArg Except.ok took.take_eq)
    | primary frames eof primary =>
      cases frames
      cases eof
      cases primary
      refine bind_eq_ok_iff.mpr ⟨_, asked, congrArg Except.ok (Eq.trans ?_ took.take_eq)⟩
      dsimp only
      rw [if_neg (by exact inner)]
      rfl
  | finished frames asked last =>
    cases frames
    exact bind_eq_ok_iff.mpr ⟨_, asked, if_pos last⟩
  | ended frames eof primary asked last took =>
    cases frames
    cases eof
    cases primary
    refine bind_eq_ok_iff.mpr ⟨_, asked, congrArg Except.ok (Eq.trans ?_ took.take_eq)⟩
    dsimp only
    rw [if_pos (by exact last)]
    rfl

end TableDriven.Feed
