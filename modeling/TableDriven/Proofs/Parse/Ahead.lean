import TableDriven.Proofs.Feed.Stream
import TableDriven.Proofs.Parse.Fuel

/-! # Parses in front of a stream

A parse whose feed stands for a stream takes its tokens one by one, looks ahead in it and repairs
it: the tokens that a repair deletes are dropped from the stream, and those that it inserts stand in
front of the rest (`Has.recover_ok`).  None of this reports a failure, unless there is no repair.
-/

namespace TableDriven

open TableDriven.Parser
open TableDriven.Repair (Search Ends LeastOf Valid)

theorem drop_append_of_le_length {items : List α} {count : Nat} (rest : Stream' α)
    (enough : count ≤ items.length) :
    (items ++ₛ rest).drop count = items.drop count ++ₛ rest := by
  induction items generalizing count with
  | nil =>
    obtain rfl : count = 0 := by simpa using enough
    rfl
  | cons item items ih =>
    cases count with
    | zero => rfl
    | succ count => exact ih (by simpa using enough)

/-- Whether a notice tells the client that the parse has failed. -/
def Parser.Notice.isFailure : Notice V ε → Bool
  | .unrepaired _ | .ioFailed _ | .rejected _ => true
  | _ => false

namespace Parse

variable {σ ρ φ V ε : Type} {parse next : Parse σ ρ φ V ε} {fuel : Nat}

/-- The failures that were reported. -/
def failures (parse : Parse σ ρ φ V ε) : List (Notice V ε) :=
  parse.journal.toList.filter Notice.isFailure

@[simp] theorem failures_note (parse : Parse σ ρ φ V ε) (notice : Notice V ε) :
    (parse.note notice).failures = parse.failures ++ [notice].filter Notice.isFailure := by
  simp [failures, note]

@[simp] theorem failures_withFeed (parse : Parse σ ρ φ V ε) (feed : Feed σ ρ V ε) :
    (parse.withFeed feed).failures = parse.failures := by
  simp [failures, withFeed, List.filter_eq_nil_iff, Notice.isFailure]

section
variable [TokenSource σ V ε] [Resolver ρ σ V ε]

theorem failures_of_nextToken {answer : Except StreamFault (Token V)}
    (taken : parse.nextToken fuel = .ok (answer, next)) : next.failures = parse.failures := by
  obtain ⟨⟨told, feed⟩, -, taken⟩ := bind_eq_ok_iff.mp taken
  cases taken
  simp

theorem failures_of_peek {answer : Except StreamFault (Token V)} {distance : Nat}
    (peeked : parse.peek fuel distance = .ok (answer, next)) : next.failures = parse.failures := by
  obtain ⟨⟨told, feed⟩, -, peeked⟩ := bind_eq_ok_iff.mp peeked
  cases peeked
  simp

/-- Recovering reports no failure. -/
theorem Recovers.failures_eq {told : List (Token V × Report)} {outcome : Except StreamFault Unit}
    (recovers : parse.Recovers told outcome next) : next.failures = parse.failures := by
  induction recovers with
  | done => rfl
  | lost _ ih | found _ _ ih => exact ih.trans (by simp [Notice.isFailure])
  | looked peeked _ ih => exact ih.trans (failures_of_peek peeked)
  | took taken _ ih => exact ih.trans (failures_of_nextToken taken)
  | putBack _ _ ih => exact ih
  | reported peeked _ _ ih =>
    rw [ih, failures_note, failures_of_peek peeked]
    exact List.append_nil _
  | unseen peeked => exact failures_of_peek peeked
  | untaken taken => exact failures_of_nextToken taken

end

/-- What comes next is a stream, from good sources. -/
structure Has (eofSymbol : Nat) (good : σ → Prop) (fit : Option (Nat × ρ) → Prop)
    [TokenSource σ V ε] [Resolver ρ σ V ε] (parse : Parse σ ρ φ V ε)
    (stream : Stream' (Token V)) : Prop where
  streams : parse.feed.Streams stream
  among : parse.feed.Among eofSymbol good fit

variable [TokenSource σ V ε] [Resolver ρ σ V ε] {eofSymbol : Nat} {good : σ → Prop}
  {fit : Option (Nat × ρ) → Prop} {stream : Stream' (Token V)} {token : Token V}
  (has : parse.Has eofSymbol good fit stream)
include has

theorem Has.of_feed_eq (same : next.feed = parse.feed) : next.Has eofSymbol good fit stream :=
  ⟨same ▸ has.streams, same ▸ has.among⟩

theorem Has.pushBack (token : Token V) :
    (parse.pushBack token).Has eofSymbol good fit (Stream'.cons token stream) :=
  ⟨Feed.streams_pushBack has.streams token,
    (Feed.behind_pushBack parse.feed token).among_iff.mpr has.among⟩

omit has in
theorem has_withFeed {feed : Feed σ ρ V ε} (streams : feed.Streams stream)
    (among : feed.Among eofSymbol good fit) :
    (parse.withFeed feed).Has eofSymbol good fit stream :=
  ⟨(Feed.behind_takeJournal feed).streams_iff.mpr ⟨stream, rfl, streams⟩,
    (Feed.behind_takeJournal feed).among_iff.mpr among⟩

variable [LawfulTokenSource σ V ε] (sound : Feed.Sound ε eofSymbol good fit)
include sound

theorem Has.shows (distance : Nat) : parse.feed.Shows distance (stream.get distance) := by
  obtain ⟨after, ⟨enough, peeks⟩, -⟩ :=
    Feed.exists_peeks sound has.streams has.among distance
  exact ⟨enough, after, peeks enough (Nat.le_refl _)⟩

theorem Has.reads_iff {distance number : Nat} :
    parse.feed.Reads distance number ↔ (stream.get distance).number = number := by
  constructor
  · rintro ⟨token, shown, rfl⟩
    rw [shown.unique (has.shows sound distance)]
  · rintro rfl
    exact ⟨_, has.shows sound distance, rfl⟩

theorem Has.nextToken_ok : ∃ fuel after, parse.nextToken fuel = .ok (.ok stream.head, after) ∧
    after.Has eofSymbol good fit stream.tail := by
  obtain ⟨next, ⟨fuel, delivers⟩, streams, among⟩ :=
    Feed.exists_delivers sound has.streams has.among
  refine ⟨fuel, parse.withFeed next, ?_, has_withFeed streams among⟩
  rw [nextToken, delivers fuel (Nat.le_refl _)]
  rfl

theorem Has.peek_ok (distance : Nat) : ∃ fuel after,
    parse.peek fuel distance = .ok (.ok (stream.get distance), after) ∧
      after.Has eofSymbol good fit stream := by
  obtain ⟨next, ⟨fuel, peeks⟩, streams, among⟩ :=
    Feed.exists_peeks sound has.streams has.among distance
  refine ⟨fuel, parse.withFeed next, ?_, has_withFeed streams among⟩
  rw [peek, peeks fuel (Nat.le_refl _)]
  rfl

theorem Has.of_peek {distance : Nat} {answer : Except StreamFault (Token V)}
    (peeked : parse.peek fuel distance = .ok (answer, next)) :
    answer = .ok (stream.get distance) ∧ next.Has eofSymbol good fit stream := by
  obtain ⟨enough, after, found, still⟩ := has.peek_ok sound distance
  have same := (peek_mono peeked (Nat.le_max_left fuel enough)).symm.trans
    (peek_mono found (Nat.le_max_right fuel enough))
  cases same
  exact ⟨rfl, still⟩

/-- A search only looks ahead. -/
theorem Has.of_answer {search : Search α} {answer : Except StreamFault α}
    (answered : parse.answer fuel search = .ok (answer, next)) :
    next.Has eofSymbol good fit stream := by
  induction search generalizing parse with
  | done result =>
    cases answered
    exact has
  | ask probe further ih =>
    cases probe with
    | broken why => cases answered
    | lost =>
      have noted : (parse.note .lost).Has eofSymbol good fit stream := has.of_feed_eq rfl
      exact ih () noted answered
    | symbol distance =>
      simp only [Parse.answer, bind_eq_ok_iff] at answered
      obtain ⟨⟨told, middle⟩, peeked, answered⟩ := answered
      obtain ⟨rfl, still⟩ := has.of_peek sound peeked
      exact ih _ still answered

omit has sound [LawfulTokenSource σ V ε] in
/-- A repair that was found is made: the tokens that it deletes are dropped from the stream, and
those that it inserts stand in front of the rest. -/
theorem Has.apply_ok {searched : Parse σ ρ φ V ε} (has : searched.Has eofSymbol good fit stream)
    {repair : Repair} (found : parse.findRepair fuel = .ok (.ok (some repair), searched)) :
    ∃ repaired, searched.apply fuel repair = .ok (.ok (), repaired) ∧
      searched.Tells [(stream.head,
        .ofRepair repair ((stream.take repair.deletions).map Token.number))] repaired ∧
      repaired.Has eofSymbol good fit ((parse.inserted stream.head repair.insertion).reverse ++ₛ
        stream.drop repair.deletions) := by
  obtain ⟨-, enough⟩ := lt_length_of_valid (valid_of_found found).2
  obtain ⟨token, repaired, front, applied, tells, stands⟩ := apply_ok_of_found found
  obtain ⟨rest, rfl, behind⟩ := (Feed.behind_queue searched.feed).streams_iff.mp has.streams
  have among := (Feed.behind_queue searched.feed).among_iff.mp has.among
  have short := Nat.le_of_lt enough
  have head : (searched.feed.queue.toList ++ₛ rest).head = token := by
    rw [List.head?_eq_getElem?] at front
    obtain ⟨inside, rfl⟩ := List.getElem?_eq_some_iff.mp front
    exact Stream'.get_append_left 0 _ _ inside
  rw [head, Stream'.take_append_of_le_length _ _ _ short, drop_append_of_le_length rest short,
    ← Stream'.append_append_stream]
  exact ⟨repaired, applied, tells, stands.feed.streams_iff.mpr ⟨rest, rfl, behind⟩,
    stands.feed.among_iff.mpr among⟩

/-- **An error is repaired in the cheapest way.**  In front of a stream, and if every trial of the
search ends, the least repair is made and reported; if there is none, that is reported, and the
parse ends. -/
theorem Has.recover_ok (repairs : parse.repairs = true)
    (ends : Ends parse.table parse.feed.Reads parse.states) :
    ∃ found, LeastOf parse.table (Valid parse.table parse.feed.Reads parse.states) found ∧
      ∃ fuel ending after, parse.recover fuel = .ok (ending, after) ∧
        match found with
        | none =>
          ending = some (.error (.unrepairable stream.head.number stream.head.position)) ∧
            after.reports = parse.reports ∧
            after.failures = parse.failures ++ [.unrepaired stream.head]
        | some repair =>
          ending = none ∧ after.failures = parse.failures ∧
            parse.Tells [(stream.head,
              .ofRepair repair ((stream.take repair.deletions).map Token.number))] after ∧
            after.Has eofSymbol good fit ((parse.inserted stream.head repair.insertion).reverse ++ₛ
              stream.drop repair.deletions) := by
  obtain ⟨found, least, fuel, answers⟩ :=
    answer_search_least (fun distance => ⟨_, has.shows sound distance⟩) ends
  obtain ⟨searched, answered⟩ := answers fuel (Nat.le_refl _)
  have still := has.of_answer sound answered
  refine ⟨found, least, ?_⟩
  cases found with
  | none =>
    have nothing : parse.findRepair fuel = .ok (.ok none, searched) := by
      rw [findRepair, if_pos repairs, answered]
      rfl
    obtain ⟨enough, shown, peeked, -⟩ := still.peek_ok sound 0
    have recovers := (recovers_findRepair nothing).trans (.looked peeked .done)
    have tells := recovers.tells.trans (tells_note shown (.unrepaired stream.head))
    refine ⟨max fuel enough, _, shown.note (.unrepaired stream.head), ?_, rfl, ?_, ?_⟩
    · rw [recover, findRepair_mono nothing (Nat.le_max_left _ _), ok_bind]
      dsimp only
      rw [peek_mono peeked (Nat.le_max_right _ _)]
      rfl
    · rw [tells.reports_eq]
      exact List.append_nil _
    · rw [failures_note, recovers.failures_eq]
      rfl
  | some repair =>
    have named : parse.findRepair fuel =
        .ok (.ok (some repair), searched.note (.found repair)) := by
      rw [findRepair, if_pos repairs, answered]
      rfl
    have noted : (searched.note (.found repair)).Has eofSymbol good fit stream :=
      still.of_feed_eq rfl
    obtain ⟨repaired, applied, tells, last⟩ := noted.apply_ok named
    obtain ⟨_, _, made⟩ := recovers_apply applied
    have recovers := (recovers_findRepair named).trans made
    refine ⟨fuel, none, repaired, ?_, rfl, recovers.failures_eq,
      (recovers_findRepair named).tells.trans tells, last⟩
    rw [recover, named, ok_bind]
    dsimp only
    rw [applied]
    rfl

end Parse

end TableDriven
