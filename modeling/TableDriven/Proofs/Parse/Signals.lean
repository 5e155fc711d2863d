import TableDriven.Proofs.Feed.Journal
import TableDriven.Proofs.Parse.History

/-! # What a parse tells of its repairs and failures

The journal of a parser tells its client of repairs and of the failure, and holds what the sources
and the resolver note of theirs; `Notice.signal?` reads both off, in order.  `Deals` says of a
parse and what it has become which signals came meanwhile, and that nothing but reading calls were
made of the feed, whose notices are all kept.  It holds of every function of the parser, each of
which ends with the first failure that it meets.
-/

namespace TableDriven

open TableDriven.Parser
open Feed (Operation Hears)

/-- What a journal tells of a repair or a failure, one that a source or the resolver noted among
them. -/
inductive Parser.Signal (V : Type) where
  | repaired (token : Token V) (report : Report)
  | unrepaired (token : Token V)
  | ioFailed (cause : IoFault)
  | rejected (text : String)
  | faulted (fault : StreamFault)

def Parser.Notice.signal? (read : ε → Option StreamFault) : Notice V ε → Option (Signal V)
  | .repaired token report => some (.repaired token report)
  | .unrepaired token => some (.unrepaired token)
  | .ioFailed cause => some (.ioFailed cause)
  | .rejected text => some (.rejected text)
  | .fed notice => (notice.fault? read).map .faulted
  | .decided .. | .accepted | .lost | .found _ | .unknownProduction .. | .unknownLink _
  | .noted _ => none

/-- The notice of a feed that a parser has taken. -/
def Parser.Notice.fed? : Notice V ε → Option (Feed.Notice ε)
  | .fed notice => some notice
  | _ => none

/-- A call that neither stacks a source nor closes the feed. -/
def Feed.Operation.Reads : Operation σ V → Prop
  | .next | .peek _ | .pushBack _ => True
  | .stack _ | .close => False

namespace Parse

variable {σ ρ φ V ε : Type} [TokenSource σ V ε] [Resolver ρ σ V ε]
  {parse middle next : Parse σ ρ φ V ε} {said more : List (Signal V)}
  {fault? : Option StreamFault} {fuel : Nat}

/-- From `parse` to `next` these notices came and these calls were made; the notices tell `said`,
behind what the feed had noted before, and at last of the failure, if there is one. -/
structure Dealing (parse next : Parse σ ρ φ V ε) (said : List (Signal V))
    (fault? : Option StreamFault) (told : List (Notice V ε)) (calls : List (Operation σ V)) :
    Prop where
  journal : next.journal.toList = parse.journal.toList ++ told
  reads : ∀ call ∈ calls, call.Reads
  performs : ∀ earlier, (parse.feed.preceded earlier).Performs calls
    (next.feed.preceded (earlier ++ (told.filterMap Notice.fed?).toArray))
  signals : ∀ (read : ε → Option StreamFault) (heard : StreamFault → Option StreamFault),
    Hears σ ρ V read heard →
      told.filterMap (Notice.signal? read) ++ (next.feed.faults read).map .faulted =
        (parse.feed.faults read).map .faulted ++ said ++ (fault?.bind heard).toList.map .faulted

/-- From `parse` to `next` this was said, and a failure ended it or none was met. -/
def Deals (parse : Parse σ ρ φ V ε) (said : List (Signal V)) (fault? : Option StreamFault)
    (next : Parse σ ρ φ V ε) : Prop :=
  ∃ told calls, Dealing parse next said fault? told calls

theorem Deals.trans (first : parse.Deals said none middle)
    (second : middle.Deals more fault? next) : parse.Deals (said ++ more) fault? next := by
  obtain ⟨told, calls, first⟩ := first
  obtain ⟨later, others, second⟩ := second
  refine ⟨told ++ later, calls ++ others, ?_, ?_, fun earlier => ?_,
    fun read heard hears => ?_⟩
  · rw [second.journal, first.journal, List.append_assoc]
  · intro call made
    obtain made | made := List.mem_append.mp made
    · exact first.reads call made
    · exact second.reads call made
  · have front := first.performs earlier
    have back := second.performs (earlier ++ (told.filterMap Notice.fed?).toArray)
    simpa [List.filterMap_append] using front.append back
  · have front := first.signals read heard hears
    rw [Option.bind_none, Option.toList_none, List.map_nil, List.append_nil] at front
    rw [List.filterMap_append, List.append_assoc, second.signals read heard hears,
      ← List.append_assoc, ← List.append_assoc, front]
    simp

/-- A notice that is no signal, and not of the feed. -/
def IsSilent : Notice V ε → Prop
  | .decided .. | .accepted | .lost | .found _ | .noted _ => True
  | .repaired .. | .unrepaired _ | .ioFailed _ | .rejected _ | .unknownProduction ..
  | .unknownLink _ | .fed _ => False

theorem IsSilent.untold {notice : Notice V ε} (silent : IsSilent notice) :
    notice.fed? = none ∧ ∀ read, notice.signal? read = none := by
  cases notice with
  | decided | accepted | lost | found | noted => exact ⟨rfl, fun _ => rfl⟩
  | _ => exact silent.elim

/-- Nothing is said where the feed stays as it is and all notices are silent. -/
theorem deals_of_silent {told : List (Notice V ε)} (feed : next.feed = parse.feed)
    (journal : next.journal.toList = parse.journal.toList ++ told)
    (silent : ∀ notice ∈ told, IsSilent notice) : parse.Deals [] none next := by
  have unfed : told.filterMap Notice.fed? = [] :=
    List.filterMap_eq_nil_iff.mpr fun notice inside => (silent notice inside).untold.1
  have unsaid (read : ε → Option StreamFault) : told.filterMap (Notice.signal? read) = [] :=
    List.filterMap_eq_nil_iff.mpr fun notice inside => (silent notice inside).untold.2 read
  refine ⟨told, [], journal, by simp, fun earlier => ?_, fun read _ _ => ?_⟩
  · rw [unfed, feed]
    simpa using .done
  · rw [unsaid, feed]
    simp

/-- Nothing is said where the feed and the journal stay as they are. -/
theorem deals_of_eq (feed : next.feed = parse.feed) (journal : next.journal = parse.journal) :
    parse.Deals [] none next :=
  deals_of_silent feed (by rw [journal, List.append_nil]) (List.forall_mem_nil _)

theorem Deals.refl (parse : Parse σ ρ φ V ε) : parse.Deals [] none parse := deals_of_eq rfl rfl

theorem deals_note (parse : Parse σ ρ φ V ε) (notice : Notice V ε) (silent : IsSilent notice) :
    parse.Deals [] none (parse.note notice) :=
  deals_of_silent rfl (by simp [note]) (List.forall_mem_singleton.mpr silent)

/-- A signal comes behind all that the feed has noted, if its notices were taken. -/
theorem deals_signal (notice : Notice V ε) {signal : Signal V} (taken : parse.feed.journal = #[])
    (signals : ∀ read, notice.signal? read = some signal) (unfed : notice.fed? = none) :
    parse.Deals [signal] none (parse.note notice) := by
  refine ⟨[notice], [], by simp [note], by simp, fun earlier => ?_, fun read _ _ => ?_⟩
  · simpa [unfed] using .done
  · have nothing : parse.feed.faults read = [] := by simp [Feed.faults, taken]
    show _ ++ List.map _ (parse.feed.faults read) = _
    simp [nothing, signals]

/-! ## Calls of the feed -/

/-- A call that is made of the feed, and its notices are taken. -/
theorem deals_of_performed {operation : Operation σ V}
    {answer : Except StreamFault (Option (Token V))} {feed : Feed σ ρ V ε}
    (performed : ∀ earlier, (parse.feed.preceded earlier).perform fuel operation =
      .ok (answer, feed.preceded earlier)) (reads : operation.Reads)
    (noted : ∀ (read : ε → Option StreamFault) (heard : StreamFault → Option StreamFault),
      Hears σ ρ V read heard →
        feed.faults read = parse.feed.faults read ++ (fault?.bind heard).toList) :
    parse.Deals [] fault? (parse.withFeed feed) := by
  have fed : (feed.takeJournal.1.map (Notice.fed : _ → Notice V ε)).filterMap Notice.fed? =
      feed.journal.toList := by
    simp [List.filterMap_map, Function.comp_def, Notice.fed?, Feed.takeJournal]
  refine ⟨feed.takeJournal.1.map .fed, [operation], ?_, List.forall_mem_singleton.mpr reads,
    fun earlier => ?_, fun read heard hears => ?_⟩
  · simp [withFeed, Array.appendList_eq_append]
  · have left : feed.takeJournal.2.preceded (earlier ++ feed.journal) = feed.preceded earlier :=
      Feed.takeJournal_preceded
    rw [fed, Array.toArray_toList]
    exact .call (performed earlier) (left ▸ .done)
  · have nothing : (parse.withFeed feed).feed.faults read = [] := rfl
    rw [nothing]
    simp only [List.map_nil, List.append_nil, ← List.map_append, ← noted read heard hears]
    rw [Feed.faults, List.filterMap_map, List.map_filterMap]
    rfl

theorem deals_nextToken {answer : Except StreamFault (Token V)}
    (taken : parse.nextToken fuel = .ok (answer, next)) :
    parse.Deals [] (Feed.fault? answer) next ∧ next.feed.journal = #[] := by
  obtain ⟨⟨told, feed⟩, delivered, taken⟩ := bind_eq_ok_iff.mp taken
  cases taken
  have performed (earlier : Array (Feed.Notice ε)) : (parse.feed.preceded earlier).perform fuel
      .next = .ok (answer.map some, feed.preceded earlier) :=
    bind_eq_ok_iff.mpr ⟨_, Feed.next_preceded delivered, rfl⟩
  exact ⟨deals_of_performed performed trivial fun _ _ hears => hears.taken delivered, rfl⟩

theorem deals_peek {distance : Nat} {answer : Except StreamFault (Token V)}
    (peeked : parse.peek fuel distance = .ok (answer, next)) :
    parse.Deals [] (Feed.fault? answer) next ∧ next.feed.journal = #[] := by
  obtain ⟨⟨told, feed⟩, looked, peeked⟩ := bind_eq_ok_iff.mp peeked
  cases peeked
  have performed (earlier : Array (Feed.Notice ε)) : (parse.feed.preceded earlier).perform fuel
      (.peek distance) = .ok (answer.map some, feed.preceded earlier) :=
    bind_eq_ok_iff.mpr ⟨_, Feed.peek_preceded looked, rfl⟩
  exact ⟨deals_of_performed performed trivial fun _ _ hears => hears.peeked looked, rfl⟩

theorem deals_pushBack (parse : Parse σ ρ φ V ε) (token : Token V) :
    parse.Deals [] none (parse.pushBack token) := by
  refine ⟨[], [.pushBack token], (List.append_nil _).symm, List.forall_mem_singleton.mpr trivial,
    fun earlier => ?_, fun read heard _ => ?_⟩
  · have pushed : ((parse.feed.preceded earlier).perform 0 (.pushBack token)) =
        .ok (.ok none, (parse.feed.pushBack token).preceded earlier) := rfl
    simpa using .call pushed .done
  · simp [pushBack, Feed.pushBack, Feed.faults]

theorem Recovers.deals {told : List (Token V × Report)} {outcome : Except StreamFault Unit}
    (recovers : parse.Recovers told outcome next) :
    parse.Deals (told.map fun made => .repaired made.1 made.2) (Feed.fault? outcome) next := by
  induction recovers with
  | done => exact .refl _
  | lost _ ih => exact (deals_note _ .lost trivial).trans ih
  | found repair _ ih => exact (deals_note _ (.found repair) trivial).trans ih
  | looked peeked _ ih => exact (deals_peek peeked).1.trans ih
  | took taken _ ih => exact (deals_nextToken taken).1.trans ih
  | putBack token _ ih => exact (deals_pushBack _ token).trans ih
  | @reported _ _ _ _ _ _ _ token peeked report _ ih =>
    obtain ⟨looks, taken⟩ := deals_peek peeked
    exact looks.trans ((deals_signal (.repaired token report) taken (fun _ => rfl) rfl).trans ih)
  | unseen peeked => exact (deals_peek peeked).1
  | untaken taken => exact (deals_nextToken taken).1

section
variable [ValueFactory φ V ε] {production : Nat}

theorem Pops.deals {value : Option V} (pops : parse.Pops production value next) :
    parse.Deals [] none next := by
  cases pops with
  | @intro length value made reduces left produced =>
    obtain ⟨param, -, produced⟩ := bind_eq_ok_iff.mp produced
    dsimp only at produced
    split at produced
    next =>
      cases produced
      exact deals_of_eq rfl rfl
    next slot factory _ =>
      cases produced
      refine deals_of_silent rfl (by simp [Array.appendList_eq_append]; rfl) ?_
      intro notice inside
      obtain ⟨note, -, rfl⟩ := List.mem_map.mp inside
      trivial

omit [ValueFactory φ V ε] in
theorem deals_push (parse : Parse σ ρ φ V ε) (state : Option Nat) (value : Option V) :
    parse.Deals [] none (parse.push state value) := deals_of_eq rfl rfl

omit [ValueFactory φ V ε] in
theorem deals_shift (parse : Parse σ ρ φ V ε) (state : Option Nat) (token : Token V) :
    parse.Deals [] none (parse.shift state token) := deals_of_eq rfl rfl

/-- The failure of a source or the resolver that ended a parse. -/
def surfaced? : Result V → Option StreamFault
  | .error (.io cause) => some (.io cause)
  | .error (.rejected text) => some (.rejected text)
  | .error (.unrepairable _ _) | .error (.table _) | .ok _ => none

@[simp] theorem surfaced?_ofStream (fault : StreamFault) :
    surfaced? (.error (.ofStream fault) : Result V) = some fault := by
  cases fault <;> rfl

/-- What is said before the parse is left, and what of: the error that cannot be repaired, or
nothing. -/
inductive Parts (parse : Parse σ ρ φ V ε) : Result V → List (Signal V) → Prop where
  | hopeless {fuel enough : Nat} {token : Token V} {fetched waiting searched : Parse σ ρ φ V ε}
      (fetches : parse.nextToken enough = .ok (.ok token, fetched))
      (stuck : parse.turn fuel = .ok (.stuck, waiting))
      (unfound : waiting.findRepair fuel = .ok (.ok none, searched)) :
      Parts parse (.error (.unrepairable token.number token.position)) [.unrepaired token]
  | failed (fault : StreamFault) : Parts parse (.error (.ofStream fault)) []
  | table (cause : Misbehaviour) : Parts parse (.error (.table cause)) []
  | accepted (value : Option V) : Parts parse (.ok value) []

theorem Chains.deals {productions : List Nat} {answer : Option (Result V) × Parse σ ρ φ V ε}
    (chains : parse.Chains production productions answer) : parse.Deals [] none answer.2 ∧
      ∀ result, answer.1 = some result →
        surfaced? result = none ∧ ∀ begun : Parse σ ρ φ V ε, begun.Parts result [] := by
  induction chains with
  | popsInitial =>
    refine ⟨.refl _, ?_⟩
    rintro _ ⟨⟩
    exact ⟨rfl, fun _ => .table _⟩
  | accepted pops goal =>
    refine ⟨pops.deals.trans (deals_note _ .accepted trivial), ?_⟩
    rintro _ ⟨⟩
    exact ⟨rfl, fun _ => .accepted _⟩
  | noGoto pops other cause =>
    refine ⟨pops.deals, ?_⟩
    rintro _ ⟨⟩
    exact ⟨rfl, fun _ => .table _⟩
  | landed pops =>
    refine ⟨pops.deals.trans (deals_push _ _ _), ?_⟩
    rintro _ ⟨⟩
  | chained pops other went rest ih =>
    exact ⟨(pops.deals.trans (deals_push _ _ _)).trans ih.1, ih.2⟩

omit [ValueFactory φ V ε] in
theorem Faces.deals {token : Token V} {symbol : Nat} {action : Action} {decided : Parse σ ρ φ V ε}
    (faces : parse.Faces token symbol action decided) : parse.Deals [] none decided := by
  cases faces with
  | unwound fetches => exact (deals_nextToken fetches).1
  | named fetches => exact (deals_nextToken fetches).1.trans (deals_note _ _ trivial)

/-- A turn meets the failure that it ends with, and tells nothing. -/
theorem Turns.deals {events : List (Event V)} {turn : Turn V}
    (turns : parse.Turns events (turn, next)) :
    parse.Deals [] (turn.ending.bind surfaced?) next ∧
      ∀ result, turn.ending = some result → parse.Parts result [] := by
  -- A turn that reduces ends as the reduction does.
  have reduced {token : Token V} {symbol : Nat} {action : Action} {production : Nat}
      {productions : List Nat} {ending : Option (Result V)} {decided before : Parse σ ρ φ V ε}
      (faces : parse.Faces token symbol action decided) (shifts : decided.Deals [] none before)
      (chains : before.Chains production productions (ending, next)) :
      parse.Deals [] (ending.bind surfaced?) next ∧
        ∀ result, ending = some result → parse.Parts result [] := by
    obtain ⟨deals, ends⟩ := chains.deals
    have unmet : ending.bind surfaced? = none := by
      cases ending with
      | none => rfl
      | some result => exact (ends result rfl).1
    rw [unmet]
    exact ⟨(faces.deals.trans shifts).trans deals, fun result same => (ends result same).2 parse⟩
  cases turns with
  | failed failed =>
    refine ⟨?_, ?_⟩
    · rw [Turn.ending, Option.bind_some, surfaced?_ofStream]
      exact (deals_nextToken failed).1
    · rintro _ ⟨⟩
      exact .failed _
  | shifted faces =>
    refine ⟨faces.deals.trans (deals_shift _ _ _), ?_⟩
    rintro _ ⟨⟩
  | shiftReduced faces chains same =>
    rw [same, Turn.ending_shifted_unless]
    exact reduced faces (deals_shift _ _ _) chains
  | reduced faces chains same =>
    rw [same, Turn.ending_reduced_unless]
    exact reduced faces (deals_pushBack _ _) chains
  | stuck faces =>
    refine ⟨faces.deals.trans (deals_pushBack _ _), ?_⟩
    rintro _ ⟨⟩

/-- The token in error is the next one, and waits in front. -/
theorem fetches_of_stuck {waiting : Parse σ ρ φ V ε}
    (turned : parse.turn fuel = .ok (.stuck, waiting)) :
    ∃ token fetched enough, parse.nextToken enough = .ok (.ok token, fetched) ∧
      waiting.feed.queue.get? 0 = some token := by
  obtain ⟨events, turns⟩ := exists_turns turned
  cases turns with
  | @stuck token symbol decided faces =>
    have front : (decided.pushBack token).feed.queue.get? 0 = some token := by
      rw [Queue.get?_eq]
      rfl
    cases faces with
    | named fetches => exact ⟨_, _, _, fetches, front⟩
  | shiftReduced _ _ same | reduced _ _ same => cases ‹Option (Result V)› <;> cases same

omit [ValueFactory φ V ε] in
/-- A search that finds nothing leaves what waits where it is. -/
theorem get?_of_findRepair {token : Token V} {distance : Nat}
    (unfound : parse.findRepair fuel = .ok (.ok none, next))
    (waits : parse.feed.queue.get? distance = some token) :
    next.feed.queue.get? distance = some token := by
  unfold findRepair at unfound
  split at unfound
  next =>
    obtain ⟨⟨told, middle⟩, answered, unfound⟩ := bind_eq_ok_iff.mp unfound
    split at unfound <;> cases unfound
    exact (answers_of_answer answered).2.waits distance token waits
  next =>
    cases unfound
    exact waits

/-- Behind an error either a repair is made and reported, and no failure was met; or the parse ends
with the failure that was met, or without any if there is no repair. -/
theorem recover_deals {waiting last : Parse σ ρ φ V ε} {ending : Option (Result V)}
    (turned : parse.turn fuel = .ok (.stuck, waiting))
    (recovered : waiting.recover fuel = .ok (ending, last)) :
    (∃ token report, ending = none ∧ waiting.Deals [.repaired token report] none last) ∨
      ∃ result said, ending = some result ∧ parse.Parts result said ∧
        waiting.Deals said (surfaced? result) last := by
  obtain ⟨⟨told, searched⟩, found, recovered⟩ := bind_eq_ok_iff.mp recovered
  have search := (recovers_findRepair found).deals
  cases told with
  | error fault =>
    cases recovered
    exact .inr ⟨_, [], rfl, .failed fault, (surfaced?_ofStream fault).symm ▸ search⟩
  | ok choice =>
    cases choice with
    | some repair =>
      obtain ⟨_, _, -, made, -⟩ := apply_ok_of_found found
      obtain ⟨⟨told, next⟩, applied, recovered⟩ := bind_eq_ok_iff.mp recovered
      cases applied.symm.trans made
      cases recovered
      obtain ⟨token, deleted, repairs⟩ := recovers_apply applied
      exact .inl ⟨token, _, rfl, search.trans repairs.deals⟩
    | none =>
      obtain ⟨⟨told, shown⟩, peeked, recovered⟩ := bind_eq_ok_iff.mp recovered
      obtain ⟨looks, taken⟩ := deals_peek peeked
      cases told with
      | error fault =>
        cases recovered
        exact .inr ⟨_, [], rfl, .failed fault, (surfaced?_ofStream fault).symm ▸ search.trans looks⟩
      | ok token =>
        cases recovered
        obtain ⟨first, fetched, enough, fetches, front⟩ := fetches_of_stuck turned
        obtain rfl : token = first := by
          have waits := get?_of_findRepair found front
          obtain ⟨⟨_, feed⟩, looked, peeked⟩ := bind_eq_ok_iff.mp peeked
          cases peeked
          have here := Feed.waits_of_peek looked
          rw [Feed.get?_of_peek looked waits] at here
          exact (Option.some.inj here).symm
        refine .inr ⟨_, [.unrepaired token], rfl, .hopeless fetches turned found, ?_⟩
        exact (search.trans looks).trans (deals_signal _ taken (fun _ => rfl) rfl)

theorem step_deals {ending : Option (Result V)} (stepped : parse.step fuel = .ok (ending, next)) :
    (∃ repairs : List (Token V × Report), ending = none ∧
        parse.Deals (repairs.map fun made => .repaired made.1 made.2) none next) ∨
      ∃ result said, ending = some result ∧ parse.Parts result said ∧
        parse.Deals said (surfaced? result) next := by
  obtain ⟨⟨turn, waiting⟩, turned, stepped⟩ := bind_eq_ok_iff.mp stepped
  obtain ⟨events, turns⟩ := exists_turns turned
  obtain ⟨deals, ends⟩ := turns.deals
  cases turn with
  | shifted symbol =>
    cases stepped
    exact .inl ⟨[], rfl, deals⟩
  | reduced =>
    cases stepped
    exact .inl ⟨[], rfl, deals⟩
  | ended result =>
    cases stepped
    exact .inr ⟨result, [], rfl, ends result rfl, deals⟩
  | stuck =>
    obtain ⟨token, report, rfl, repaired⟩ | ⟨result, said, rfl, parts, left⟩ :=
      recover_deals turned stepped
    · exact .inl ⟨[(token, report)], rfl, deals.trans repaired⟩
    · exact .inr ⟨result, said, rfl, parts, deals.trans left⟩

/-- A run reports repairs and goes on, until the step that ends it. -/
theorem run_deals {result : Result V} (ran : parse.run fuel = .ok (result, next)) :
    ∃ (repairs : List (Token V × Report)) (said : List (Signal V)) (last : Parse σ ρ φ V ε),
      parse.Reaches last ∧ last.Parts result said ∧
        parse.Deals ((repairs.map fun made => .repaired made.1 made.2) ++ said)
          (surfaced? result) next := by
  induction fuel generalizing parse with
  | zero => contradiction
  | succ fuel ih =>
    obtain ⟨⟨ending, middle⟩, stepped, ran⟩ := bind_eq_ok_iff.mp ran
    obtain ⟨repairs, rfl, first⟩ | ⟨result, said, rfl, parts, deals⟩ := step_deals stepped
    · obtain ⟨more, said, last, reaches, parts, rest⟩ := ih ran
      refine ⟨repairs ++ more, said, last, (Reaches.step .start stepped).trans reaches, parts, ?_⟩
      rw [List.map_append, List.append_assoc]
      exact first.trans rest
    · cases ran
      exact ⟨[], said, parse, .start, parts, deals⟩

end

end Parse

end TableDriven
