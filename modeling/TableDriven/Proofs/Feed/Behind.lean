import TableDriven.Feed
import TableDriven.Proofs.Alike

/-! # Feeds that differ in what waits in front

The sources of a feed never learn what is in its queue or its journal.  `Behind` relates two feeds
that differ in nothing but a front part of the queue and the journal; every operation on the two
gives the same answer and feeds that still differ so.
-/

namespace TableDriven.Feed

variable {σ ρ V ε : Type} [TokenSource σ V ε] [Resolver ρ σ V ε]
  {feed other : Feed σ ρ V ε} {front : List (Token V)} {fuel : Nat} {token : Token V}

/-- The first feed has the tokens of `front` waiting before all else that the second has. -/
structure Behind (front : List (Token V)) (feed other : Feed σ ρ V ε) : Prop where
  primary : feed.primary = other.primary
  frames : feed.frames = other.frames
  eof : feed.eof = other.eof
  eofSymbol : feed.eofSymbol = other.eofSymbol
  sentinel : feed.sentinel = other.sentinel
  queue : feed.queue.toList = front ++ other.queue.toList

/-- The same answer, from feeds that still differ in what waits in front. -/
def AnswerAlike (front : List (Token V)) (first second : α × Feed σ ρ V ε) : Prop :=
  first.1 = second.1 ∧ Behind front first.2 second.2

namespace Behind

variable (behind : Behind front feed other)
include behind

omit [TokenSource σ V ε] [Resolver ρ σ V ε] in
theorem takeJournal : Behind front feed.takeJournal.2 other :=
  ⟨behind.primary, behind.frames, behind.eof, behind.eofSymbol, behind.sentinel, behind.queue⟩

omit [TokenSource σ V ε] [Resolver ρ σ V ε] in
theorem pushBack (token : Token V) : Behind (token :: front) (feed.pushBack token) other where
  primary := behind.primary
  frames := behind.frames
  eof := behind.eof
  eofSymbol := behind.eofSymbol
  sentinel := behind.sentinel
  queue := congrArg (token :: ·) behind.queue

omit behind [TokenSource σ V ε] [Resolver ρ σ V ε] in
/-- Of two feeds that differ from a third in their fronts, the longer differs from the shorter. -/
theorem of_append {rest : List (Token V)} {last : Feed σ ρ V ε}
    (longer : Behind (front ++ rest) last other) (shorter : Behind rest feed other) :
    Behind front last feed where
  primary := longer.primary.trans shorter.primary.symm
  frames := longer.frames.trans shorter.frames.symm
  eof := longer.eof.trans shorter.eof.symm
  eofSymbol := longer.eofSymbol.trans shorter.eofSymbol.symm
  sentinel := longer.sentinel.trans shorter.sentinel.symm
  queue := by rw [longer.queue, shorter.queue, List.append_assoc]

omit [TokenSource σ V ε] [Resolver ρ σ V ε] in
theorem enqueue (token : Token V) : Behind front (feed.enqueue token) (other.enqueue token) where
  primary := behind.primary
  frames := behind.frames
  eof := behind.eof
  eofSymbol := behind.eofSymbol
  sentinel := behind.sentinel
  queue := by simp [Feed.enqueue, behind.queue]

omit [Resolver ρ σ V ε] in
theorem finishFrame (source : σ) (resume : Queue (Token V)) (outer : List (Frame σ V)) :
    Behind front (feed.finishFrame source resume outer) (other.finishFrame source resume outer)
    where
  primary := behind.primary
  frames := rfl
  eof := behind.eof
  eofSymbol := behind.eofSymbol
  sentinel := behind.sentinel
  queue := by simp [Feed.finishFrame, Feed.note, Feed.noteAll, behind.queue]

omit [TokenSource σ V ε] in
theorem take (token : Token V) :
    AnswerAlike front (feed.take token) (other.take token) := by
  unfold Feed.take
  rw [← behind.sentinel]
  cases feed.sentinel with
  | none => exact ⟨rfl, behind.enqueue token⟩
  | some sentinel =>
    obtain ⟨symbol, resolver⟩ := sentinel
    dsimp only
    by_cases sentinelToken : token.number = symbol
    · rw [if_pos sentinelToken, if_pos sentinelToken]
      rcases (Resolver.resolve resolver token : Except StreamFault σ × ρ × List ε) with
        ⟨fault | source, resolver, notes⟩
      · exact ⟨rfl, behind.primary, behind.frames, behind.eof, behind.eofSymbol, rfl, behind.queue⟩
      · exact ⟨rfl, behind.primary, congrArg (⟨source, .empty⟩ :: ·) behind.frames, behind.eof,
          behind.eofSymbol, rfl, behind.queue⟩
    · rw [if_neg sentinelToken, if_neg sentinelToken]
      exact ⟨rfl, behind.enqueue token⟩

theorem poll (fuel : Nat) :
    Run.Alike (AnswerAlike front) (feed.poll fuel) (other.poll fuel) := by
  obtain ⟨primary, frames, waiting, eof, eofSymbol, sentinel, journal⟩ := feed
  obtain ⟨_, _, behindIt, _, _, _, written⟩ := other
  obtain ⟨samePrimary, sameFrames, sameEof, sameEofSymbol, sameSentinel, queue⟩ := behind
  dsimp only at samePrimary sameFrames sameEof sameEofSymbol sameSentinel queue
  subst samePrimary sameFrames sameEof sameEofSymbol sameSentinel
  have related (primary : Option σ) (frames : List (Frame σ V)) (eof : Option (Token Unit))
      (journal written : Array (Notice ε)) :
      Behind front ⟨primary, frames, waiting, eof, eofSymbol, sentinel, journal⟩
        ⟨primary, frames, behindIt, eof, eofSymbol, sentinel, written⟩ :=
    ⟨rfl, rfl, rfl, rfl, rfl, queue⟩
  cases frames with
  | cons frame outer =>
    refine (Run.Alike.refl (TokenSource.next fuel frame.source)).bind ?_
    rintro pull _ rfl
    dsimp only
    cases pull.answer with
    | error fault => exact .answered ⟨rfl, related _ _ _ _ _⟩
    | ok token =>
      show Run.Alike _ (if token.number = eofSymbol then _ else _)
        (if token.number = eofSymbol then _ else _)
      split
      next =>
        exact .answered ⟨rfl, (related _ _ _ _ _).finishFrame pull.rest frame.resume outer⟩
      next => exact .answered ((related _ _ _ _ _).take token)
  | nil =>
    cases eof with
    | some eof => exact .answered ⟨rfl, (related _ _ _ _ _).enqueue _⟩
    | none =>
      cases primary with
      | none => exact .answered ⟨rfl, (related _ _ _ _ _).enqueue _⟩
      | some source =>
        refine (Run.Alike.refl (TokenSource.next fuel source)).bind ?_
        rintro pull _ rfl
        dsimp only
        cases pull.answer with
        | error fault => exact .answered ⟨rfl, related _ _ _ _ _⟩
        | ok token => exact .answered ((related _ _ _ _ _).take token)

theorem pull (fuel : Nat) :
    Run.Alike (AnswerAlike front) (feed.pull fuel) (other.pull fuel) := by
  induction fuel generalizing feed other with
  | zero => exact .broken _
  | succ fuel ih =>
    refine (behind.poll fuel).bind ?_
    rintro ⟨answer, feed⟩ ⟨_, other⟩ ⟨rfl, after⟩
    cases answer with
    | error fault => exact .answered ⟨rfl, after⟩
    | ok filled =>
      cases filled with
      | true => exact .answered ⟨rfl, after⟩
      | false => exact ih after

/-- Looking ahead finds the same token, further away by what waits in front. -/
theorem peek (fuel distance : Nat) :
    Run.Alike (AnswerAlike front) (feed.peek fuel (front.length + distance))
      (other.peek fuel distance) := by
  induction fuel generalizing feed other with
  | zero => exact .broken _
  | succ fuel ih =>
    have waiting : feed.queue.get? (front.length + distance) = other.queue.get? distance := by
      rw [Queue.get?_eq, Queue.get?_eq, behind.queue, List.getElem?_append_right (by omega)]
      congr 1
      omega
    simp only [Feed.peek, waiting]
    cases other.queue.get? distance with
    | some token => exact .answered ⟨rfl, behind⟩
    | none =>
      refine (behind.pull fuel).bind ?_
      rintro ⟨answer, feed⟩ ⟨_, other⟩ ⟨rfl, after⟩
      cases answer with
      | error fault => exact .answered ⟨rfl, after⟩
      | ok done => exact ih after

end Behind

end TableDriven.Feed
