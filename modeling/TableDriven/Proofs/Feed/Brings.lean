import TableDriven.Proofs.Feed.Stream

/-! # What polls bring

What a look ahead finds is what successful polls bring into the queue (`shows_iff_brings`).  So a
poll leaves what lies ahead as it is (`shows_of_poll`), and where it is the same for two feeds it is
still the same when one source is stacked on both (`shows_includeSource_iff`): they are polled in
step until that source ends.
-/

namespace TableDriven.Feed

variable {σ ρ V ε : Type} [TokenSource σ V ε] [Resolver ρ σ V ε]
  {feed next base other twin : Feed σ ρ V ε} {token : Token V} {distance fuel : Nat}

/-- A poll leaves what waits where it is. -/
theorem get?_of_poll {answer : Except StreamFault Bool}
    (polled : feed.poll fuel = .ok (answer, next)) (waits : feed.queue.get? distance = some token) :
    next.queue.get? distance = some token := by
  have alike := (behind_queue feed).poll fuel
  rw [polled] at alike
  obtain ⟨_, -, -, behind⟩ := alike.of_ok_left
  exact behind.get?_of_waits waits

/-- A poll that gets no token leaves the queue as it is. -/
theorem queue_of_silent (polled : feed.poll fuel = .ok (.ok false, next)) :
    next.queue.toList = feed.queue.toList := by
  generalize silent : (.ok false : Except StreamFault Bool) = answer at polled
  cases polled_of_poll polled with
  | past | failed => cases silent
  | inner asks asked inner took =>
    cases took with
    | waits | refused => cases silent
    | included => simp [including, noteAll]
  | @finished frame outer rest token notes frames asked last =>
    have nothing : frame.resume.toList = [] := by simpa using Except.ok.inj silent
    simp [nothing]
  | ended frames eof primary asked last took =>
    cases took with
    | waits | refused => cases silent
    | included => simp [including, noteAll, exhausted]

variable [LawfulTokenSource σ V ε] {filled : Bool}

theorem Shows.of_poll (shown : next.Shows distance token)
    (polled : feed.poll fuel = .ok (.ok filled, next)) : feed.Shows distance token := by
  cases filled with
  | true => exact (shows_of_pull (pull_of_poll polled)).mp shown
  | false =>
    cases waits : feed.queue.get? distance with
    | some found =>
      rw [shown.unique (shows_of_waits (get?_of_poll polled waits))]
      exact shows_of_waits waits
    | none =>
      obtain ⟨enough, last, peeked⟩ := shown
      cases enough with
      | zero => contradiction
      | succ enough =>
        have nothing : next.queue.get? distance = none := by
          rw [Queue.get?_eq, queue_of_silent polled, ← Queue.get?_eq, waits]
        simp only [peek, nothing] at peeked
        obtain ⟨⟨answer, middle⟩, pulled, peeked⟩ := bind_eq_ok_iff.mp peeked
        cases answer with
        | error fault => cases peeked
        | ok done =>
          refine ⟨max fuel enough + 2, last, ?_⟩
          simp only [peek, waits, pull_of_silent polled pulled, ok_bind]
          exact peek_mono peeked (show enough ≤ max fuel enough + 1 by omega)

omit [LawfulTokenSource σ V ε] in
/-- Successful polls bring the token to its place in the queue. -/
inductive Brings (distance : Nat) (token : Token V) : Feed σ ρ V ε → Prop where
  | waits {feed : Feed σ ρ V ε} (waits : feed.queue.get? distance = some token) :
      Brings distance token feed
  | polled {feed next : Feed σ ρ V ε} {fuel : Nat} {filled : Bool}
      (polled : feed.poll fuel = .ok (.ok filled, next)) (rest : Brings distance token next) :
      Brings distance token feed

omit [LawfulTokenSource σ V ε] in
theorem Brings.of_pull (brings : next.Brings distance token)
    (pulled : feed.pull fuel = .ok (.ok (), next)) : feed.Brings distance token := by
  induction fuel generalizing feed with
  | zero => contradiction
  | succ fuel ih =>
    obtain ⟨⟨answer, middle⟩, polled, pulled⟩ := bind_eq_ok_iff.mp pulled
    cases answer with
    | error fault => cases pulled
    | ok filled =>
      cases filled with
      | true =>
        cases pulled
        exact .polled polled brings
      | false => exact .polled polled (ih pulled)

/-- A look ahead finds what polls bring. -/
theorem shows_iff_brings : feed.Shows distance token ↔ feed.Brings distance token := by
  constructor
  · rintro ⟨fuel, last, peeked⟩
    induction fuel generalizing feed with
    | zero => contradiction
    | succ fuel ih =>
      simp only [peek] at peeked
      split at peeked
      next waits =>
        cases peeked
        exact .waits waits
      next =>
        obtain ⟨⟨answer, middle⟩, pulled, peeked⟩ := bind_eq_ok_iff.mp peeked
        cases answer with
        | error fault => cases peeked
        | ok done => exact (ih peeked).of_pull pulled
  · intro brings
    induction brings with
    | waits waits => exact shows_of_waits waits
    | polled polled _ ih => exact ih.of_poll polled

/-- A poll that succeeds leaves what lies ahead as it is. -/
theorem shows_of_poll (polled : feed.poll fuel = .ok (.ok filled, next)) :
    next.Shows distance token ↔ feed.Shows distance token := by
  refine ⟨fun shown => shown.of_poll polled, fun shown => ?_⟩
  cases shows_iff_brings.mp shown with
  | waits waits => exact shows_of_waits (get?_of_poll polled waits)
  | @polled _ _ enough _ again rest =>
    have same := (poll_mono polled (Nat.le_max_left fuel enough)).symm.trans
      (poll_mono again (Nat.le_max_right fuel enough))
    cases same
    exact shows_iff_brings.mpr rest

/-- Feeds that wait for the same and are polled alike have the same ahead. -/
theorem Shows.of_polls (shown : feed.Shows distance token) (queue : other.queue = feed.queue)
    (polls : ∀ fuel filled next, feed.poll fuel = .ok (.ok filled, next) →
      ∃ enough, other.poll enough = .ok (.ok filled, next)) : other.Shows distance token := by
  cases shows_iff_brings.mp shown with
  | waits waits => exact shows_of_waits (queue ▸ waits)
  | polled polled rest =>
    obtain ⟨enough, again⟩ := polls _ _ _ polled
    exact (shows_iff_brings.mpr rest).of_poll again

omit [TokenSource σ V ε] [Resolver ρ σ V ε] [LawfulTokenSource σ V ε] in
theorem Asks.replied {place : Place} {source : σ} (asks : feed.Asks place source) (rest : σ) :
    (feed.replied rest []).Asks place rest ∧ (feed.replied rest []).replied source [] = feed := by
  obtain ⟨primary, frames, queue, eof, eofSymbol, sentinel, journal⟩ := feed
  cases asks with
  | stacked frames =>
    cases frames
    exact ⟨Asks.stacked (show _ = (⟨rest, _⟩ : Frame σ V) :: _ from rfl), rfl⟩
  | primary frames eof primary =>
    cases frames
    cases eof
    cases primary
    exact ⟨.primary rfl rfl rfl, rfl⟩

/-- A feed that asks a source with the answers of another has the same ahead. -/
theorem Shows.of_replied {place : Place} {source rest : σ}
    (shown : (feed.replied rest []).Shows distance token) (asks : feed.Asks place source)
    (same : ∀ (fuel : Nat) (pull : Pull σ V ε), TokenSource.next fuel rest = .ok pull →
      ∃ enough, TokenSource.next enough source = .ok pull) : feed.Shows distance token := by
  refine shown.of_polls (queue_replied rest []).symm fun fuel filled next polled => ?_
  obtain ⟨primary, frames, queue, eof, eofSymbol, sentinel, journal⟩ := feed
  cases asks with
  | stacked frames =>
    cases frames
    obtain ⟨pull, asked, polled⟩ := bind_eq_ok_iff.mp polled
    obtain ⟨enough, asked⟩ := same fuel pull asked
    exact ⟨enough, bind_eq_ok_iff.mpr ⟨pull, asked, polled⟩⟩
  | primary frames eof primary =>
    cases frames
    cases eof
    cases primary
    obtain ⟨pull, asked, polled⟩ := bind_eq_ok_iff.mp polled
    obtain ⟨enough, asked⟩ := same fuel pull asked
    exact ⟨enough, bind_eq_ok_iff.mpr ⟨pull, asked, polled⟩⟩

/-- Where two sources answer alike it does not matter which of them a feed asks. -/
theorem shows_replied_iff {place : Place} {source rest : σ} (asks : feed.Asks place source)
    (same : ∀ pull : Pull σ V ε, (∃ fuel, TokenSource.next fuel rest = .ok pull) ↔
      ∃ fuel, TokenSource.next fuel source = .ok pull) :
    (feed.replied rest []).Shows distance token ↔ feed.Shows distance token := by
  refine ⟨fun shown => ?_, fun shown => ?_⟩
  · exact shown.of_replied asks fun fuel pull asked => (same pull).mp ⟨fuel, asked⟩
  · obtain ⟨again, back⟩ := asks.replied rest
    rw [← back] at shown
    exact shown.of_replied again fun fuel pull asked => (same pull).mpr ⟨fuel, asked⟩

/-- Behind the same tokens the same lies ahead. -/
theorem Behind.shows_congr {front : List (Token V)} (behind : Behind front feed base)
    (alike : Behind front twin other)
    (same : ∀ distance token, base.Shows distance token → other.Shows distance token)
    (shown : feed.Shows distance token) : twin.Shows distance token := by
  by_cases near : distance < front.length
  · have waits (feed base : Feed σ ρ V ε) (behind : Behind front feed base) :
        feed.queue.get? distance = some front[distance] := by
      rw [Queue.get?_eq, behind.queue, List.getElem?_append_left near,
        List.getElem?_eq_getElem near]
    rw [shown.unique (shows_of_waits (waits feed base behind))]
    exact shows_of_waits (waits twin other alike)
  · obtain ⟨further, rfl⟩ : ∃ further, distance = front.length + further :=
      ⟨distance - front.length, by omega⟩
    exact alike.shows_iff.mpr (same _ _ (behind.shows_iff.mp shown))

/-! ## A source on two feeds -/

section
omit [TokenSource σ V ε] [Resolver ρ σ V ε] [LawfulTokenSource σ V ε]

/-- The same sources are on top of two feeds. -/
inductive Stacked (base other : Feed σ ρ V ε) : List (Frame σ V) → List (Frame σ V) → Prop where
  | last (source : σ) :
      Stacked base other (⟨source, base.queue⟩ :: base.frames)
        (⟨source, other.queue⟩ :: other.frames)
  | more (frame : Frame σ V) {frames others : List (Frame σ V)}
      (rest : Stacked base other frames others) :
      Stacked base other (frame :: frames) (frame :: others)

/-- A feed differs from another in its stacked sources and its queue only. -/
structure Rests (feed base : Feed σ ρ V ε) : Prop where
  primary : feed.primary = base.primary
  eof : feed.eof = base.eof
  eofSymbol : feed.eofSymbol = base.eofSymbol
  sentinel : feed.sentinel = base.sentinel

/-- Feeds that have come to the same point of the sources on top of two others. -/
structure Abreast (base other feed twin : Feed σ ρ V ε) : Prop where
  stacked : Stacked base other feed.frames twin.frames
  queue : twin.queue.toList = feed.queue.toList
  first : feed.Rests base
  second : twin.Rests other

theorem Stacked.ne_nil {frames others : List (Frame σ V)}
    (stacked : Stacked base other frames others) : frames ≠ [] := by
  cases stacked <;> simp

/-- The same source is on top of both. -/
theorem Stacked.uncons {frame : Frame σ V} {outer others : List (Frame σ V)}
    (stacked : Stacked base other (frame :: outer) others) :
    ∃ resume rest, others = ⟨frame.source, resume⟩ :: rest ∧
      ∀ source, Stacked base other ({ frame with source } :: outer) (⟨source, resume⟩ :: rest) := by
  cases stacked with
  | last source => exact ⟨_, _, rfl, fun source => .last source⟩
  | more frame rest => exact ⟨_, _, rfl, fun source => .more _ rest⟩

theorem Rests.replied {frame : Frame σ V} {outer : List (Frame σ V)} (rests : feed.Rests base)
    (frames : feed.frames = frame :: outer) (rest : σ) (notes : List ε) :
    (feed.replied rest notes).Rests base := by
  obtain ⟨primary, eof, eofSymbol, sentinel⟩ := rests
  simp only [Feed.replied, frames]
  exact ⟨primary, eof, eofSymbol, sentinel⟩

end

omit [TokenSource σ V ε] [Resolver ρ σ V ε] [LawfulTokenSource σ V ε] in
/-- What is asked for the two is the same. -/
theorem Abreast.asks (abreast : Abreast base other feed twin) {place : Place} {source : σ}
    (asks : feed.Asks place source) :
    twin.Asks place source ∧ ∀ rest notes,
      Abreast base other (feed.replied rest notes) (twin.replied rest notes) := by
  cases asks with
  | primary frames => exact absurd frames abreast.stacked.ne_nil
  | stacked frames =>
    obtain ⟨stacked, queue, first, second⟩ := abreast
    rw [frames] at stacked
    obtain ⟨resume, others, twins, stacked⟩ := stacked.uncons
    have asks := Asks.stacked twins
    refine ⟨asks, fun rest notes => ⟨?_, ?_, first.replied frames _ _, second.replied twins _ _⟩⟩
    · simpa [replied, frames, twins, noteAll] using stacked rest
    · simpa using queue

section
variable [Subsingleton ρ] (number : base.eofSymbol = other.eofSymbol)
  (sentinel : base.sentinel = other.sentinel)
include number sentinel

omit [LawfulTokenSource σ V ε] in
/-- Polled once, two feeds have come further on their sources, or to what is below these. -/
theorem Abreast.poll (abreast : Abreast base other feed twin)
    (polled : feed.poll fuel = .ok (.ok filled, next)) :
    ∃ filled after, twin.poll fuel = .ok (.ok filled, after) ∧
      (Abreast base other next after ∨
        ∃ front, Behind front next base ∧ Behind front after other) := by
  have eofSymbol : twin.eofSymbol = feed.eofSymbol :=
    abreast.second.eofSymbol.trans (number.symm.trans abreast.first.eofSymbol.symm)
  have same : twin.sentinel = feed.sentinel :=
    abreast.second.sentinel.trans (sentinel.symm.trans abreast.first.sentinel.symm)
  generalize fine : (.ok filled : Except StreamFault Bool) = answer at polled
  cases polled_of_poll polled with
  | past isOver => cases isOver <;> exact absurd ‹feed.frames = []› abreast.stacked.ne_nil
  | failed => cases fine
  | ended frames => exact absurd frames abreast.stacked.ne_nil
  | @inner place source rest token notes _ _ asks asked inner took =>
    obtain ⟨asks, replied⟩ := abreast.asks asks
    obtain ⟨stacked, queue, first, second⟩ := replied rest notes
    cases took with
    | refused => cases fine
    | waits ordinary =>
      have polled := Polled.inner asks asked (eofSymbol ▸ inner)
        (.waits (by simpa [same] using ordinary))
      refine ⟨_, _, polled.poll_eq, .inl ⟨stacked, ?_, ?_, ?_⟩⟩
      · simp only [enqueue, Queue.toList_pushBack, queue]
      · exact ⟨first.primary, first.eof, first.eofSymbol, first.sentinel⟩
      · exact ⟨second.primary, second.eof, second.eofSymbol, second.sentinel⟩
    | @included symbol resolver after source noted front number resolves =>
      have polled := Polled.inner asks asked (eofSymbol ▸ inner)
        (.included (by simpa [same] using front) number resolves)
      obtain rfl : resolver = after := Subsingleton.elim _ _
      refine ⟨_, _, polled.poll_eq, .inl ⟨stacked.more _, queue, ?_, ?_⟩⟩
      · exact ⟨first.primary, first.eof, first.eofSymbol, front.symm.trans first.sentinel⟩
      · refine ⟨second.primary, second.eof, second.eofSymbol, ?_⟩
        rw [← sentinel, ← first.sentinel]
        exact front.symm
  | @finished frame outer rest token notes frames asked last =>
    obtain ⟨stacked, queue, first, second⟩ := abreast
    generalize twins : twin.frames = others at stacked
    have first := first.replied frames rest notes
    rw [frames] at stacked
    cases stacked with
    | more _ stacked =>
      have second := second.replied twins rest notes
      refine ⟨_, _, (Polled.finished twins asked (eofSymbol ▸ last)).poll_eq,
        .inl ⟨stacked, ?_, ?_, ?_⟩⟩
      · simp [queue]
      · exact ⟨first.primary, first.eof, first.eofSymbol, first.sentinel⟩
      · exact ⟨second.primary, second.eof, second.eofSymbol, second.sentinel⟩
    | last source =>
      have second := second.replied twins rest notes
      refine ⟨_, _, (Polled.finished twins asked (eofSymbol ▸ last)).poll_eq,
        .inr ⟨feed.queue.toList, ?_, ?_⟩⟩
      · exact ⟨first.primary, rfl, first.eof, first.eofSymbol, first.sentinel, by simp⟩
      · exact ⟨second.primary, rfl, second.eof, second.eofSymbol, second.sentinel, by simp [queue]⟩

/-- What lies ahead with the same sources on top. -/
theorem Abreast.shows (abreast : Abreast base other feed twin)
    (same : ∀ distance token, base.Shows distance token → other.Shows distance token)
    (shown : feed.Shows distance token) : twin.Shows distance token := by
  rw [shows_iff_brings] at shown
  induction shown generalizing twin with
  | waits waits =>
    refine shows_of_waits ?_
    rw [Queue.get?_eq, abreast.queue, ← Queue.get?_eq]
    exact waits
  | polled polled rest ih =>
    obtain ⟨_, after, again, abreast | ⟨front, behind, alike⟩⟩ :=
      abreast.poll number sentinel polled
    · exact (ih abreast).of_poll again
    · exact (behind.shows_congr alike same (shows_iff_brings.mpr rest)).of_poll again

end

/-- Where the same lies ahead of two feeds it still does with a source on top. -/
theorem shows_includeSource_iff [Subsingleton ρ] (number : feed.eofSymbol = other.eofSymbol)
    (sentinel : feed.sentinel = other.sentinel)
    (same : ∀ distance token, feed.Shows distance token ↔ other.Shows distance token) (source : σ) :
    (feed.includeSource source).Shows distance token ↔
      (other.includeSource source).Shows distance token := by
  have abreast (feed other : Feed σ ρ V ε) :
      Abreast feed other (feed.includeSource source) (other.includeSource source) :=
    ⟨.last source, rfl, ⟨rfl, rfl, rfl, rfl⟩, ⟨rfl, rfl, rfl, rfl⟩⟩
  constructor
  · exact (abreast feed other).shows number sentinel fun distance token => (same distance token).mp
  · exact (abreast other feed).shows number.symm sentinel.symm
      fun distance token => (same distance token).mpr

end TableDriven.Feed
