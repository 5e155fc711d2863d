import TableDriven.Proofs.Feed.Operations
import TableDriven.Proofs.Feed.Sound

/-! # Feeds as streams

A feed stands for the stream of its outlook.  Pulling turns the front of the outlook into tokens
that wait (`pull_of_yields`), so it does not matter when or how far a feed has pulled: it has a
stream as long as its sources are sound (`Among.exists_streams`), of which the next token is the
head (`exists_delivers`) and which looking ahead reads and leaves as it is (`exists_peeks`).
-/

namespace TableDriven.Feed

open TokenSource (Answers)
open Outlook (Yields)

variable {σ ρ V ε : Type}

section
variable {feed : Feed σ ρ V ε}

theorem beyond_including (symbol : Nat) (resolver : ρ) (source : σ) (notes : List ε) :
    (feed.including symbol resolver source notes).beyond =
      .source .stacked source :: feed.beyond :=
  rfl

/-- A feed asks the source in front of what is beyond its queue, and only that one changes. -/
theorem asks_of_beyond {place : Place} {source : σ} {pending : List (Pending σ V)}
    (front : feed.beyond = .source place source :: pending) :
    feed.Asks place source ∧
      ∀ rest notes, (feed.replied rest notes).beyond = .source place rest :: pending := by
  obtain ⟨primary, frames, queue, eof, eofSymbol, sentinel, journal⟩ := feed
  cases frames with
  | cons frame outer =>
    cases front
    exact ⟨.stacked rfl, fun _ _ => rfl⟩
  | nil =>
    cases eof with
    | some eof => cases front
    | none =>
      cases primary with
      | none => cases front
      | some source =>
        cases front
        exact ⟨.primary rfl rfl rfl, fun _ _ => rfl⟩

theorem isOver_of_beyond {eof : Token Unit} {pending : List (Pending σ V)}
    (front : feed.beyond = .eof eof :: pending) : feed.IsOver eof ∧ pending = [] := by
  obtain ⟨primary, frames, queue, seen, eofSymbol, sentinel, journal⟩ := feed
  cases frames with
  | cons frame outer => cases front
  | nil =>
    cases seen with
    | some seen =>
      cases front
      exact ⟨.seen rfl rfl, rfl⟩
    | none =>
      cases primary with
      | none =>
        cases front
        exact ⟨.closed rfl rfl rfl, rfl⟩
      | some source => cases front

theorem beyond_ne_token {token : Token V} {pending : List (Pending σ V)} :
    feed.beyond ≠ .token token :: pending := by
  intro front
  obtain ⟨primary, frames, queue, seen, eofSymbol, sentinel, journal⟩ := feed
  cases frames with
  | cons frame outer => cases front
  | nil =>
    cases seen with
    | some seen => cases front
    | none => cases primary <;> cases front

end

variable [TokenSource σ V ε] [Resolver ρ σ V ε] {feed next middle : Feed σ ρ V ε}
  {stream : Stream' (Token V)} {token : Token V} {fuel enough eofSymbol : Nat}

omit [TokenSource σ V ε] [Resolver ρ σ V ε] in
theorem outlook_enqueue (feed : Feed σ ρ V ε) (token : Token V) :
    (feed.enqueue token).outlook =
      ⟨feed.queue.toList.map .token ++ .token token :: feed.beyond, feed.sentinel⟩ := by
  simp only [outlook, enqueue, Queue.toList_pushBack, List.map_append, List.append_assoc]
  rfl

section
variable (source : σ) (resume : Queue (Token V)) (outer : List (Frame σ V))

omit [Resolver ρ σ V ε] in
@[simp] theorem toList_queue_finishFrame :
    (feed.finishFrame source resume outer).queue.toList =
      feed.queue.toList ++ resume.toList := by
  simp [finishFrame, note, noteAll]

omit [Resolver ρ σ V ε] in
@[simp] theorem sentinel_finishFrame :
    (feed.finishFrame source resume outer).sentinel = feed.sentinel :=
  rfl

omit [Resolver ρ σ V ε] in
@[simp] theorem eofSymbol_finishFrame :
    (feed.finishFrame source resume outer).eofSymbol = feed.eofSymbol :=
  rfl

end

omit [Resolver ρ σ V ε] in
/-- Behind a stacked source that ends there are its resume tokens, and then what was beyond it. -/
theorem beyond_finished {frame : Frame σ V} {outer : List (Frame σ V)}
    (frames : feed.frames = frame :: outer) (rest : σ) (notes : List ε) :
    feed.beyond = .source .stacked frame.source :: (frame.resume.toList.map .token ++
      ((feed.replied rest notes).finishFrame rest frame.resume outer).beyond) := by
  simp only [replied, frames, beyond, List.flatMap_cons, Frame.pending, List.cons_append,
    List.append_assoc]
  rfl

omit [TokenSource σ V ε] [Resolver ρ σ V ε] in
theorem beyond_exhausted (frames : feed.frames = []) (rest : σ) (notes : List ε)
    (token : Token V) :
    ((feed.replied rest notes).exhausted token).beyond = [.eof token.withoutValue] := by
  simp [replied, frames, exhausted, beyond, noteAll, bottom]

theorem pull_of_poll (polled : feed.poll fuel = .ok (.ok true, next)) :
    feed.pull (fuel + 1) = .ok (.ok (), next) := by
  rw [pull, polled]
  rfl

variable [LawfulTokenSource σ V ε]

theorem pull_of_silent {result : Except StreamFault Unit × Feed σ ρ V ε}
    (polled : feed.poll fuel = .ok (.ok false, middle)) (pulled : middle.pull enough = .ok result) :
    feed.pull (max fuel enough + 1) = .ok result := by
  rw [pull, poll_mono polled (Nat.le_max_left fuel enough)]
  exact pull_mono pulled (Nat.le_max_right fuel enough)

/-- A pull makes the next token of what is beyond the queue wait behind it. -/
theorem pull_of_yields {before after : Outlook σ ρ V}
    (yields : Yields ε eofSymbol before token after)
    (here : ⟨feed.beyond, feed.sentinel⟩ = before) (number : feed.eofSymbol = eofSymbol)
    (proper : IsOrdinary feed.sentinel eofSymbol) :
    ∃ fuel next, feed.pull fuel = .ok (.ok (), next) ∧ next.eofSymbol = eofSymbol ∧
      next.outlook =
        ⟨feed.queue.toList.map .token ++ .token token :: after.pending, after.sentinel⟩ := by
  induction yields generalizing feed with
  | token =>
    obtain ⟨front, -⟩ := Outlook.mk.inj here
    exact absurd front beyond_ne_token
  | eof =>
    obtain ⟨front, rfl⟩ := Outlook.mk.inj here
    obtain ⟨isOver, -⟩ := isOver_of_beyond front
    refine ⟨1, _, pull_of_poll (Polled.past isOver).poll_eq, number, ?_⟩
    rw [outlook_enqueue, number, front]
  | delivered answers inner ordinary =>
    obtain ⟨front, rfl⟩ := Outlook.mk.inj here
    obtain ⟨asks, replies⟩ := asks_of_beyond front
    obtain ⟨fuel, notes, asked⟩ := answers
    have polled := Polled.inner asks asked (number ▸ inner) (.waits (by simpa using ordinary))
    refine ⟨fuel + 1, _, pull_of_poll polled.poll_eq, by simpa [enqueue] using number, ?_⟩
    rw [outlook_enqueue, queue_replied, sentinel_replied, replies]
  | @resolved place source rest included _ _ symbol _ resolver notes _ _ answers inner same resolves
      _ ih =>
    obtain ⟨front, sentinel⟩ := Outlook.mk.inj here
    obtain ⟨asks, replies⟩ := asks_of_beyond front
    obtain ⟨fuel, noted, asked⟩ := answers
    have polled := Polled.inner asks asked (number ▸ inner)
      (.included (by simpa using sentinel) same resolves)
    let middle := (feed.replied rest noted).including symbol resolver included notes
    obtain ⟨enough, next, pulled, still, outlook⟩ := ih
      (show Outlook.mk middle.beyond middle.sentinel = _ by rw [beyond_including, replies]; rfl)
      (by simpa [middle, including, noteAll] using number)
      (by simpa [middle, including, noteAll, IsOrdinary, sentinel] using proper)
    refine ⟨_, next, pull_of_silent polled.poll_eq pulled, still, ?_⟩
    simpa [middle, including, noteAll] using outlook
  | @finished _ rest _ _ _ _ _ answers last yields ih =>
    obtain ⟨front, rfl⟩ := Outlook.mk.inj here
    obtain ⟨asks, -⟩ := asks_of_beyond front
    obtain ⟨fuel, notes, asked⟩ := answers
    cases asks with
    | @stacked frame outer frames =>
      have polled := Polled.finished frames asked (number ▸ last)
      rw [beyond_finished frames rest notes] at front
      have pending := (List.cons.inj front).2
      cases resume : frame.resume.toList with
      | nil =>
        have silent : (!frame.resume.isEmpty) = false := by simp [resume]
        rw [silent] at polled
        rw [resume] at pending
        let middle := (feed.replied rest notes).finishFrame rest frame.resume outer
        obtain ⟨enough, next, pulled, still, outlook⟩ := ih
          (show Outlook.mk middle.beyond middle.sentinel = _ by rw [← pending]; simp [middle])
          (by simpa [middle] using number) (by simpa [middle] using proper)
        refine ⟨_, next, pull_of_silent polled.poll_eq pulled, still, ?_⟩
        simpa [middle, resume] using outlook
      | cons first others =>
        have waits : (!frame.resume.isEmpty) = true := by simp [← Bool.not_eq_true, resume]
        rw [waits] at polled
        rw [← pending, resume] at yields
        cases yields
        refine ⟨fuel + 1, _, pull_of_poll polled.poll_eq, by simpa using number, ?_⟩
        simp [Feed.outlook, resume]
  | @ended _ _ _ pending _ answers last =>
    obtain ⟨front, rfl⟩ := Outlook.mk.inj here
    obtain ⟨asks, -⟩ := asks_of_beyond front
    obtain ⟨fuel, notes, asked⟩ := answers
    cases asks with
    | primary frames eof primary =>
      have polled := Polled.ended frames eof primary asked (number ▸ last)
        (.waits (by simpa [exhausted, last] using proper))
      refine ⟨fuel + 1, _, pull_of_poll polled.poll_eq,
        by simpa [enqueue, exhausted] using number, ?_⟩
      have alone : feed.beyond = [feed.bottom] := by simp [beyond, frames]
      rw [outlook_enqueue, beyond_exhausted frames, (List.cons.inj (front.symm.trans alone)).2]
      simp [exhausted]

/-! ## The operations -/

omit [LawfulTokenSource σ V ε] in
/-- The feed stands for `stream`. -/
def Streams (feed : Feed σ ρ V ε) (stream : Stream' (Token V)) : Prop :=
  feed.outlook.Streams ε feed.eofSymbol stream

omit [TokenSource σ V ε] [Resolver ρ σ V ε] [LawfulTokenSource σ V ε] in
theorem Behind.outlook_eq {front : List (Token V)} {other : Feed σ ρ V ε}
    (behind : Behind front feed other) :
    feed.outlook = ⟨front.map .token ++ other.outlook.pending, other.outlook.sentinel⟩ := by
  simp only [Feed.outlook, beyond, bottom, behind.queue, behind.frames, behind.eof,
    behind.primary, behind.eofSymbol, behind.sentinel, List.map_append, List.append_assoc]

omit [LawfulTokenSource σ V ε] in
theorem Behind.streams_iff {front : List (Token V)} {other : Feed σ ρ V ε}
    (behind : Behind front feed other) :
    feed.Streams stream ↔ ∃ rest, stream = front ++ₛ rest ∧ other.Streams rest := by
  rw [Streams, behind.outlook_eq, behind.eofSymbol, Outlook.streams_tokens_iff]
  rfl

omit [LawfulTokenSource σ V ε] in
/-- What a feed stands for does not end. -/
theorem not_ends_outlook (feed : Feed σ ρ V ε) : ¬ feed.outlook.Ends ε eofSymbol := by
  have bottom (pending : List (Pending σ V)) (outlook : Outlook σ ρ V)
      (ends : outlook.Ends ε eofSymbol) : outlook.pending ≠ pending ++ [feed.bottom] := by
    induction ends generalizing pending with
    | nothing => simp
    | token _ ih =>
      cases pending with
      | nil => unfold Feed.bottom; split <;> simp
      | cons first pending => simpa using fun _ => ih pending
    | source _ _ ih =>
      cases pending with
      | nil => unfold Feed.bottom; split <;> simp
      | cons first pending => simpa using fun _ => ih pending
  intro ends
  refine bottom _ _ ends (List.append_assoc _ _ _).symm

omit [TokenSource σ V ε] [Resolver ρ σ V ε] [LawfulTokenSource σ V ε] in
/-- Where the same is to come, more tokens wait if what is beyond the others begins with one. -/
theorem length_lt_of_same {waiting others : List (Token V)} {pending rest : List (Pending σ V)}
    (source : ∀ token rest, pending ≠ .token token :: rest)
    (same : waiting.map .token ++ pending = others.map .token ++ .token token :: rest) :
    others.length < waiting.length := by
  induction others generalizing waiting with
  | nil =>
    cases waiting with
    | nil => exact absurd same (source _ _)
    | cons first waiting => simp
  | cons other others ih =>
    cases waiting with
    | nil => exact absurd same (source _ _)
    | cons first waiting =>
      have shorter := ih (List.cons.inj same).2
      simpa using shorter

omit [TokenSource σ V ε] [Resolver ρ σ V ε] [LawfulTokenSource σ V ε] in
/-- Everything that a feed may ask is good, and its resolver is fit. -/
structure Among (eofSymbol : Nat) (good : σ → Prop) (fit : Option (Nat × ρ) → Prop)
    (feed : Feed σ ρ V ε) : Prop where
  eofSymbol : feed.eofSymbol = eofSymbol
  stocked : Stocked good feed.outlook.pending
  fit : fit feed.sentinel

section
variable {good : σ → Prop} {fit : Option (Nat × ρ) → Prop}

omit [TokenSource σ V ε] [Resolver ρ σ V ε] [LawfulTokenSource σ V ε] in
theorem Behind.among_iff {front : List (Token V)} {other : Feed σ ρ V ε}
    (behind : Behind front feed other) :
    feed.Among eofSymbol good fit ↔ other.Among eofSymbol good fit := by
  have stocked : Stocked good feed.outlook.pending ↔ Stocked good other.outlook.pending := by
    rw [behind.outlook_eq, stocked_tokens_iff]
  constructor
  · rintro ⟨number, good, fit⟩
    exact ⟨behind.eofSymbol ▸ number, stocked.mp good, behind.sentinel ▸ fit⟩
  · rintro ⟨number, good, fit⟩
    exact ⟨behind.eofSymbol.trans number, stocked.mpr good, behind.sentinel.symm ▸ fit⟩

variable (sound : Sound ε eofSymbol good fit)
include sound

omit [LawfulTokenSource σ V ε] in
/-- A feed of good sources stands for a stream. -/
theorem Among.exists_streams (among : feed.Among eofSymbol good fit) :
    ∃ stream, feed.Streams stream := by
  obtain streams | ends := sound.streams_or_ends among.stocked among.fit
  · rwa [← among.eofSymbol] at streams
  · exact absurd ends (not_ends_outlook feed)

/-- A pull leaves the stream as it is and makes more of it wait. -/
theorem exists_pull (streams : feed.Streams stream) (among : feed.Among eofSymbol good fit) :
    ∃ fuel next, feed.pull fuel = .ok (.ok (), next) ∧ next.Streams stream ∧
      next.Among eofSymbol good fit ∧
      feed.queue.toList.length < next.queue.toList.length := by
  obtain ⟨rest, rfl, beyond⟩ := Outlook.streams_tokens_iff.mp streams
  obtain ⟨after, yields, further⟩ := beyond.uncons
  rw [among.eofSymbol] at yields further
  obtain ⟨fuel, next, pulled, number, outlook⟩ :=
    pull_of_yields yields rfl among.eofSymbol (sound.proper among.fit)
  obtain ⟨pending, sentinel⟩ := Outlook.mk.inj outlook
  obtain ⟨stocked, fit⟩ :=
    sound.kept yields (stocked_tokens_iff.mp among.stocked) among.fit
  refine ⟨fuel, next, pulled, ?_, ⟨number, ?_, sentinel ▸ fit⟩,
    length_lt_of_same (fun _ _ => beyond_ne_token) pending⟩
  · rw [Streams, outlook, number, Outlook.streams_tokens_iff]
    exact ⟨rest, rfl, Outlook.streams_token_iff.mpr ⟨rfl, further⟩⟩
  · rw [outlook]
    simpa using stocked

omit [LawfulTokenSource σ V ε] sound in
/-- The first of the tokens that wait is the head of the stream. -/
theorem exists_pop? (streams : feed.Streams stream) (among : feed.Among eofSymbol good fit)
    (waits : 0 < feed.queue.toList.length) :
    ∃ queue, feed.queue.pop? = some (stream.head, queue) ∧
      Streams { feed with queue } stream.tail ∧ Among eofSymbol good fit { feed with queue } := by
  cases popped : feed.queue.pop? with
  | none =>
    rw [feed.queue.pop?_eq_none_iff.mp popped] at waits
    contradiction
  | some item =>
    obtain ⟨first, queue⟩ := item
    have behind := behind_of_pop? popped
    obtain ⟨rest, rfl, left⟩ := behind.streams_iff.mp streams
    exact ⟨queue, rfl, left, behind.among_iff.mp among⟩

/-- The next token is the head of the stream. -/
theorem exists_delivers (streams : feed.Streams stream) (among : feed.Among eofSymbol good fit) :
    ∃ after, feed.Delivers stream.head after ∧ after.Streams stream.tail ∧
      after.Among eofSymbol good fit := by
  cases popped : feed.queue.pop? with
  | some item =>
    have waits : 0 < feed.queue.toList.length := by
      rw [feed.queue.toList_of_pop? popped]
      simp
    obtain ⟨queue, found, rest, still⟩ := exists_pop? streams among waits
    exact ⟨_, ⟨0, fun fuel _ => by simp [Feed.next, found]⟩, rest, still⟩
  | none =>
    obtain ⟨fuel, middle, pulled, streams, among, longer⟩ := exists_pull sound streams among
    obtain ⟨queue, found, rest, still⟩ := exists_pop? streams among (by omega)
    refine ⟨_, ⟨fuel, fun enough more => ?_⟩, rest, still⟩
    simp [Feed.next, popped, pull_mono pulled more, found]

omit sound in
/-- A look ahead finds a token at a distance, whatever fuel is left over. -/
def Peeks (feed : Feed σ ρ V ε) (distance : Nat) (token : Token V) (next : Feed σ ρ V ε) : Prop :=
  ∃ enough, ∀ fuel, enough ≤ fuel → feed.peek fuel distance = .ok (.ok token, next)

omit [LawfulTokenSource σ V ε] sound in
/-- A token that waits is that of the stream. -/
theorem peeks_of_waits {distance : Nat} (streams : feed.Streams stream)
    (waits : feed.queue.get? distance = some token) :
    feed.Peeks distance (stream.get distance) feed := by
  have found : stream.get distance = token := by
    obtain ⟨rest, rfl, -⟩ := Outlook.streams_tokens_iff.mp streams
    rw [Queue.get?_eq] at waits
    obtain ⟨inside, there⟩ := List.getElem?_eq_some_iff.mp waits
    rw [Stream'.get_append_left _ _ _ inside, there]
  refine ⟨1, fun fuel more => ?_⟩
  obtain ⟨fuel, rfl⟩ : ∃ less, fuel = less + 1 := ⟨fuel - 1, by omega⟩
  simp [peek, waits, found]

/-- Looking ahead reads the stream and leaves it as it is. -/
theorem exists_peeks (streams : feed.Streams stream) (among : feed.Among eofSymbol good fit)
    (distance : Nat) :
    ∃ after, feed.Peeks distance (stream.get distance) after ∧ after.Streams stream ∧
      after.Among eofSymbol good fit := by
  -- On the number of tokens that have yet to be pulled.
  obtain ⟨missing, enough⟩ :
      ∃ missing, distance < feed.queue.toList.length + missing := ⟨distance + 1, by omega⟩
  induction missing generalizing feed with
  | zero =>
    have waits : feed.queue.get? distance = some feed.queue.toList[distance] := by
      rw [Queue.get?_eq, List.getElem?_eq_getElem enough]
    exact ⟨feed, peeks_of_waits streams waits, streams, among⟩
  | succ missing ih =>
    cases waits : feed.queue.get? distance with
    | some token => exact ⟨feed, peeks_of_waits streams waits, streams, among⟩
    | none =>
      obtain ⟨fuel, middle, pulled, streams, among, longer⟩ := exists_pull sound streams among
      obtain ⟨after, ⟨further, peeked⟩, rest⟩ := ih streams among (by omega)
      refine ⟨after, ⟨max fuel further + 1, fun enough more => ?_⟩, rest⟩
      obtain ⟨enough, rfl⟩ : ∃ less, enough = less + 1 := ⟨enough - 1, by omega⟩
      simp only [peek, waits, pull_mono pulled (show fuel ≤ enough by omega), ok_bind]
      exact peeked enough (by omega)

end

section
omit [LawfulTokenSource σ V ε]

theorem streams_pushBack (streams : feed.Streams stream) (token : Token V) :
    (feed.pushBack token).Streams (Stream'.cons token stream) :=
  (behind_pushBack feed token).streams_iff.mpr ⟨stream, rfl, streams⟩

omit [TokenSource σ V ε] [Resolver ρ σ V ε] in
theorem outlook_includeSource (feed : Feed σ ρ V ε) (source : σ) :
    (feed.includeSource source).outlook =
      ⟨.source .stacked source :: feed.outlook.pending, feed.sentinel⟩ := by
  simp [outlook, includeSource, note, beyond, Frame.pending, bottom]

/-- All of a source that ends comes before what was to come, which is expanded by the resolver that
the source leaves. -/
theorem streams_includeSource {source : σ} {tokens : List (Token V)} {left : Option (Nat × ρ)}
    (unrolls : Unrolls ε feed.eofSymbol feed.sentinel source tokens left)
    (streams : Streams { feed with sentinel := left } stream) :
    (feed.includeSource source).Streams (tokens ++ₛ stream) := by
  rw [Streams, outlook_includeSource]
  exact Outlook.streams_of_unrolls unrolls streams

/-- Behind a source that goes on for ever nothing is reached. -/
theorem streams_includeSource_of_endless {source : σ}
    (endless : Outlook.Streams ε feed.eofSymbol ⟨[.source .stacked source], feed.sentinel⟩ stream) :
    (feed.includeSource source).Streams stream := by
  rw [Streams, outlook_includeSource]
  exact endless.onto .stacked _

/-- The end of file that a feed delivers for ever once it is closed. -/
def lastEof (feed : Feed σ ρ V ε) : Token V :=
  (feed.eof.getD (.bare feed.eofSymbol)).synthetic feed.eofSymbol

omit [Resolver ρ σ V ε] in
theorem outlook_close (feed : Feed σ ρ V ε) :
    feed.close.outlook = ⟨[.eof (feed.eof.getD (.bare feed.eofSymbol))], feed.sentinel⟩ := by
  cases seen : feed.eof <;> simp [Feed.outlook, close, noteAll, beyond, bottom, seen]

theorem streams_close (feed : Feed σ ρ V ε) :
    feed.close.Streams (Stream'.const feed.lastEof) := by
  rw [Streams, outlook_close]
  exact Outlook.streams_eof _

end

end TableDriven.Feed
