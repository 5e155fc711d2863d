import TableDriven.Proofs.Feed.Calls
import TableDriven.Proofs.Feed.Custody
import TableDriven.Proofs.Feed.Mended

/-! # What failed calls lose

A call of a feed can fail, because a source does or because the resolver finds nothing, and can be
made again.  `Feed.Replies` is a sequence of calls with their answers.  Those that succeed answer
what they would if there were no others and the sources were mended (`calls_lose_nothing`).
-/

namespace TableDriven.Feed

variable {σ ρ V ε : Type} [TokenSource σ V ε] [Resolver ρ σ V ε] {finder : Finder σ V}
  {feed middle next after : Feed σ ρ V ε} {fuel distance : Nat} {token : Token V}

/-- A call and its answer. -/
abbrev Reply (σ V : Type) : Type := Operation σ V × Except StreamFault (Option (Token V))

/-- Calls one after the other, with their answers. -/
inductive Replies : Feed σ ρ V ε → List (Reply σ V) → Feed σ ρ V ε → Prop where
  | done {feed : Feed σ ρ V ε} : Replies feed [] feed
  | call {feed middle after : Feed σ ρ V ε} {fuel : Nat} {operation : Operation σ V}
      {answer : Except StreamFault (Option (Token V))} {replies : List (Reply σ V)}
      (performed : feed.perform fuel operation = .ok (answer, middle))
      (rest : Replies middle replies after) : Replies feed ((operation, answer) :: replies) after

/-- The call of a mended feed. -/
def Operation.mended (finder : Finder σ V) : Operation σ V → Operation (Mended finder) V
  | .stack source => .stack ⟨source⟩
  | .next => .next
  | .peek distance => .peek distance
  | .pushBack token => .pushBack token
  | .close => .close

/-- The calls that succeed, of a mended feed. -/
def successes (finder : Finder σ V) (replies : List (Reply σ V)) : List (Reply (Mended finder) V) :=
  (replies.filter (·.2.isOk)).map fun reply => (reply.1.mended finder, reply.2)

/-- Calls are answered in one way. -/
theorem Replies.unique [LawfulTokenSource σ V ε] {replies others : List (Reply σ V)}
    {last : Feed σ ρ V ε} (answered : feed.Replies replies after) (again : feed.Replies others last)
    (same : others.map Prod.fst = replies.map Prod.fst) : others = replies ∧ last = after := by
  induction answered generalizing others with
  | done =>
    cases again with
    | done => exact ⟨rfl, rfl⟩
    | call => cases same
  | call performed rest ih =>
    cases again with
    | done => cases same
    | @call _ _ _ enough _ _ _ again others =>
      simp only [List.map_cons, List.cons.injEq] at same
      obtain ⟨rfl, same⟩ := same
      have alike := (perform_mono performed (Nat.le_max_left _ enough)).symm.trans
        (perform_mono again (Nat.le_max_right _ enough))
      cases alike
      obtain ⟨rfl, rfl⟩ := ih others same
      exact ⟨rfl, rfl⟩

/-- A look ahead that fails leaves what any look ahead would have found waiting. -/
theorem waits_of_failed_peek [LawfulTokenSource σ V ε] {fault : StreamFault} {enough near : Nat}
    (failed : feed.peek fuel distance = .ok (.error fault, next))
    (peeked : feed.peek enough near = .ok (.ok token, after)) :
    next.queue.get? near = some token := by
  induction fuel generalizing feed enough with
  | zero => contradiction
  | succ fuel ih =>
    cases waits : feed.queue.get? near with
    | some found =>
      have shown : feed.Shows near token := ⟨enough, after, peeked⟩
      rw [shown.unique (shows_of_waits waits)]
      exact get?_of_peek failed waits
    | none =>
      cases enough with
      | zero => contradiction
      | succ enough =>
        simp only [peek, waits] at failed peeked
        split at failed
        next => cases failed
        next =>
          -- Both ask the sources for the same.
          obtain ⟨told, pulled, failed⟩ := bind_eq_ok_iff.mp failed
          obtain ⟨other, again, peeked⟩ := bind_eq_ok_iff.mp peeked
          have same := (pull_mono pulled (Nat.le_max_left fuel enough)).symm.trans
            (pull_mono again (Nat.le_max_right fuel enough))
          cases same
          obtain ⟨answer, middle⟩ := told
          cases answer with
          | error fault => cases peeked
          | ok done => exact ih failed peeked

omit [TokenSource σ V ε] in
theorem Took.settings {answer : Except StreamFault Bool} (took : feed.Took token answer next) :
    next.eofSymbol = feed.eofSymbol ∧
      next.sentinel.map Prod.fst = feed.sentinel.map Prod.fst := by
  cases took with
  | waits => exact ⟨rfl, rfl⟩
  | included sentinel | refused sentinel => exact ⟨rfl, by simp [including, noteAll, sentinel]⟩

/-- The numbers of the end of file and of the sentinels stay the same. -/
theorem isKept_settings (eofSymbol : Nat) (symbol? : Option Nat) :
    IsKept fun feed : Feed σ ρ V ε =>
      feed.eofSymbol = eofSymbol ∧ feed.sentinel.map Prod.fst = symbol? where
  poll := by
    rintro feed next fuel answer ⟨rfl, rfl⟩ polled
    cases polled_of_poll polled with
    | past => exact ⟨rfl, rfl⟩
    | failed => simp
    | inner _ _ _ took => simpa using took.settings
    | finished => simp
    | ended _ _ _ _ _ took => simpa [exhausted] using took.settings
  queue _ same := same

variable {good : σ → Prop} {fit : ρ → Prop} [LawfulTokenSource σ V ε]

section
variable (suits : finder.Suits ε good fit) {found : Token V}
include suits

omit [LawfulTokenSource σ V ε] in
theorem isKept_suited : IsKept (Suited (ε := ε) (V := V) finder good fit) where
  poll suited polled := suited.poll suits polled
  queue _ suited := ⟨suited.eofSymbol, suited.primary, suited.symbol, suited.fit⟩

namespace Suited

variable (suited : feed.Suited finder good fit)
include suited

theorem shows_mended_of_pull {answer : Except StreamFault Unit}
    (pulled : feed.pull fuel = .ok (answer, next)) :
    (next.mended finder).Shows distance found ↔ (feed.mended finder).Shows distance found := by
  induction fuel generalizing feed with
  | zero => contradiction
  | succ fuel ih =>
    obtain ⟨⟨told, middle⟩, polled, rest⟩ := bind_eq_ok_iff.mp pulled
    have ahead : (middle.mended finder).Shows distance found ↔ _ :=
      suited.shows_mended_of_poll suits polled
    cases told with
    | error fault =>
      cases rest
      exact ahead
    | ok filled =>
      cases filled with
      | true =>
        cases rest
        exact ahead
      | false => exact (ih (suited.poll suits polled) rest).trans ahead

theorem shows_mended_of_peek {answer : Except StreamFault (Token V)} {other : Nat}
    (peeked : feed.peek fuel other = .ok (answer, next)) :
    (next.mended finder).Shows distance found ↔ (feed.mended finder).Shows distance found := by
  induction fuel generalizing feed with
  | zero => contradiction
  | succ fuel ih =>
    simp only [peek] at peeked
    split at peeked
    next =>
      cases peeked
      rfl
    next =>
      obtain ⟨⟨told, middle⟩, pulled, peeked⟩ := bind_eq_ok_iff.mp peeked
      have ahead : (middle.mended finder).Shows distance found ↔ _ :=
        suited.shows_mended_of_pull suits pulled
      cases told with
      | error fault =>
        cases peeked
        exact ahead
      | ok done => exact (ih ((isKept_suited suits).pull suited pulled) peeked).trans ahead

/-- The next token is the one in front, and what is behind it moves up. -/
theorem shows_mended_of_next (taken : feed.next fuel = .ok (.ok token, next)) :
    (feed.mended finder).Shows 0 token ∧ ∀ distance found,
      (next.mended finder).Shows distance found ↔
        (feed.mended finder).Shows (distance + 1) found := by
  obtain ⟨middle, rfl | pulled, behind⟩ := behind_of_next taken
  · have behind : Behind [token] (middle.mended finder) _ := behind.mended
    exact ⟨behind.shows_front, fun _ _ => behind.shows_succ_iff.symm⟩
  · have behind : Behind [token] (middle.mended finder) _ := behind.mended
    refine ⟨(suited.shows_mended_of_pull suits pulled).mp behind.shows_front, fun _ _ => ?_⟩
    rw [← suited.shows_mended_of_pull suits pulled]
    exact behind.shows_succ_iff.symm

end Suited

end

omit [Resolver ρ σ V ε] [LawfulTokenSource σ V ε] in
/-- What lies ahead of a feed, once it is mended, lies ahead of another. -/
structure Stands (finder : Finder σ V) (feed : Feed σ ρ V ε)
    (other : Feed (Mended finder) (Lookup finder.findMended) V ε) : Prop where
  shows : ∀ distance token,
    (feed.mended finder).Shows distance token ↔ other.Shows distance token
  settings : other.eofSymbol = finder.eofSymbol ∧ other.sentinel.map Prod.fst = finder.symbol?

section
variable {other : Feed (Mended finder) (Lookup finder.findMended) V ε} {operation : Operation σ V}

omit [TokenSource σ V ε] [Resolver ρ σ V ε] [LawfulTokenSource σ V ε] in
/-- The resolver of a mended feed is known by the number of its sentinels. -/
theorem sentinel_eq_of_symbol {sentinel others : Option (Nat × Lookup finder.findMended)}
    (same : sentinel.map Prod.fst = others.map Prod.fst) : sentinel = others := by
  cases sentinel <;> cases others <;> simp_all [Prod.ext_iff]

omit [TokenSource σ V ε] [Resolver ρ σ V ε] [LawfulTokenSource σ V ε] in
theorem Suited.symbol_mended (suited : feed.Suited finder good fit) :
    (feed.mended finder).sentinel.map Prod.fst = finder.symbol? := by
  rw [← suited.symbol]
  cases sentinel : feed.sentinel <;> simp [mended, sentinel]

omit [Resolver ρ σ V ε] [LawfulTokenSource σ V ε] in
theorem Suited.stands (suited : feed.Suited finder good fit) :
    feed.Stands finder (feed.mended finder) where
  shows _ _ := .rfl
  settings := ⟨suited.eofSymbol, suited.symbol_mended⟩

omit [Resolver ρ σ V ε] in
theorem Stands.pushBack (stands : feed.Stands finder other) (token : Token V) :
    (feed.pushBack token).Stands finder (other.pushBack token) where
  shows distance found := by
    have behind : Behind [token] ((feed.pushBack token).mended finder) _ :=
      (behind_pushBack feed token).mended
    have alike := behind_pushBack other token
    constructor
    · exact behind.shows_congr alike fun distance found => (stands.shows distance found).mp
    · exact alike.shows_congr behind fun distance found => (stands.shows distance found).mpr
  settings := stands.settings

omit [Resolver ρ σ V ε] in
theorem Stands.stack (stands : feed.Stands finder other) (suited : feed.Suited finder good fit)
    (source : σ) :
    (feed.includeSource source).Stands finder (other.includeSource ⟨source⟩) where
  shows distance found := by
    have behind : Behind [] ((feed.includeSource source).mended finder)
        ((feed.mended finder).includeSource ⟨source⟩) := ⟨rfl, rfl, rfl, rfl, rfl, rfl⟩
    rw [behind.shows_nil_iff]
    refine shows_includeSource_iff ?_ ?_ stands.shows _
    · exact suited.eofSymbol.trans stands.settings.1.symm
    · exact sentinel_eq_of_symbol (suited.symbol_mended.trans stands.settings.2.symm)
  settings := stands.settings

variable (suits : finder.Suits ε good fit)
include suits

/-- A call that fails changes nothing. -/
theorem Stands.failed {fault : StreamFault} (stands : feed.Stands finder other)
    (suited : feed.Suited finder good fit)
    (performed : feed.perform fuel operation = .ok (.error fault, next)) :
    next.Stands finder other := by
  refine ⟨fun distance found => ?_, stands.settings⟩
  rw [← stands.shows]
  cases operation with
  | next =>
    obtain ⟨⟨answer, middle⟩, failed, answered⟩ := bind_eq_ok_iff.mp performed
    cases answer with
    | error fault =>
      cases answered
      exact suited.shows_mended_of_pull suits (pull_of_next failed)
    | ok token => cases answered
  | peek distance =>
    obtain ⟨⟨answer, middle⟩, peeked, answered⟩ := bind_eq_ok_iff.mp performed
    cases answer with
    | error fault =>
      cases answered
      exact suited.shows_mended_of_peek suits peeked
    | ok token => cases answered
  | pushBack | stack | close => cases performed

/-- A call that succeeds has the same answer. -/
theorem Stands.succeeded {answer : Option (Token V)} (stands : feed.Stands finder other)
    (suited : feed.Suited finder good fit) (opened : operation ≠ .close)
    (performed : feed.perform fuel operation = .ok (.ok answer, next)) :
    ∃ fuel last, other.perform fuel (operation.mended finder) = .ok (.ok answer, last) ∧
      next.Stands finder last := by
  have kept : IsKept fun other : Feed (Mended finder) (Lookup finder.findMended) V ε =>
      other.eofSymbol = finder.eofSymbol ∧ other.sentinel.map Prod.fst = finder.symbol? :=
    isKept_settings _ _
  cases operation with
  | next =>
    obtain ⟨⟨told, middle⟩, taken, answered⟩ := bind_eq_ok_iff.mp performed
    cases told with
    | error fault => cases answered
    | ok token =>
      cases answered
      obtain ⟨front, behind⟩ := suited.shows_mended_of_next suits taken
      obtain ⟨last, enough, delivers⟩ := delivers_of_shows ((stands.shows 0 token).mp front)
      have taken := delivers enough (Nat.le_refl _)
      refine ⟨enough, last, bind_eq_ok_iff.mpr ⟨_, taken, rfl⟩, fun distance found => ?_,
        kept.next stands.settings taken⟩
      rw [behind, stands.shows, (shows_of_next taken).2]
  | peek distance =>
    obtain ⟨⟨told, middle⟩, peeked, answered⟩ := bind_eq_ok_iff.mp performed
    cases told with
    | error fault => cases answered
    | ok token =>
      cases answered
      have ahead (distance : Nat) (found : Token V) :
          (next.mended finder).Shows distance found ↔ _ :=
        suited.shows_mended_of_peek suits peeked
      have waits : next.queue.get? distance = some token := waits_of_peek peeked
      have here : (next.mended finder).Shows distance token := shows_of_waits waits
      obtain ⟨enough, last, again⟩ := (stands.shows distance token).mp ((ahead _ _).mp here)
      refine ⟨enough, last, bind_eq_ok_iff.mpr ⟨_, again, rfl⟩, fun distance found => ?_,
        kept.peek stands.settings again⟩
      rw [ahead, stands.shows, shows_of_peek again]
  | pushBack token =>
    cases performed
    exact ⟨0, _, rfl, stands.pushBack token⟩
  | stack source =>
    cases performed
    exact ⟨0, _, rfl, stands.stack suited source⟩
  | close => exact absurd rfl opened

/-- Call by call, the other feed makes those that succeed. -/
theorem Stands.replies {replies : List (Reply σ V)} (stands : feed.Stands finder other)
    (suited : feed.Suited finder good fit) (opened : ∀ reply ∈ replies, reply.1 ≠ .close)
    (answered : feed.Replies replies after) :
    ∃ last, other.Replies (successes finder replies) last ∧ after.Stands finder last ∧
      after.Suited finder good fit := by
  induction answered generalizing other with
  | done => exact ⟨other, .done, stands, suited⟩
  | @call feed middle after fuel operation answer replies performed rest ih =>
    have here : operation ≠ .close := opened _ List.mem_cons_self
    have further := fun reply inside => opened reply (List.mem_cons_of_mem _ inside)
    have still : middle.Suited finder good fit :=
      (isKept_suited suits).perform suited
        (fun _ => ⟨suited.eofSymbol, suited.primary, suited.symbol, suited.fit⟩)
        (fun close => absurd close here) performed
    cases answer with
    | error fault => exact ih (stands.failed suits suited performed) still further
    | ok answer =>
      obtain ⟨fuel, next, again, stands⟩ := stands.succeeded suits suited here performed
      obtain ⟨last, others, rest⟩ := ih stands still further
      exact ⟨last, .call again others, rest⟩

end

/-! ## All calls -/

/-- **Failures lose no token.**  Of calls of which some fail the others answer what they answer
alone, over sources without the calls that fail and the sentinels for which nothing is found.  A
call that fails leaves all that is still to come, and a look ahead that fails leaves waiting what
was there to be found. -/
theorem calls_lose_nothing (finder : Finder σ V) {good : σ → Prop} {fit : ρ → Prop}
    (suits : finder.Suits ε good fit) {feed after : Feed σ ρ V ε}
    (suited : feed.Suited finder good fit) {replies : List (Reply σ V)}
    (opened : ∀ reply ∈ replies, reply.1 ≠ .close) (answered : feed.Replies replies after) :
    (∃ last, (feed.mended finder).Replies (successes finder replies) last ∧
      ∀ distance token, (after.mended finder).Shows distance token ↔ last.Shows distance token) ∧
    (∀ others last, (feed.mended finder).Replies others last →
      others.map Prod.fst = (successes finder replies).map Prod.fst →
        others = successes finder replies) ∧
    (∀ fuel operation fault next, after.perform fuel operation = .ok (.error fault, next) →
      ∀ distance token,
        (next.mended finder).Shows distance token ↔ (after.mended finder).Shows distance token) ∧
    ∀ fuel distance fault next, after.peek fuel distance = .ok (.error fault, next) →
      ∀ enough near token middle, after.peek enough near = .ok (.ok token, middle) →
        next.queue.get? near = some token := by
  obtain ⟨last, others, stands, still⟩ := suited.stands.replies suits suited opened answered
  refine ⟨⟨last, others, stands.shows⟩, ?_, ?_, ?_⟩
  · intro replies left again same
    exact (others.unique again same).1
  · intro fuel operation fault next failed
    exact (still.stands.failed suits still failed).shows
  · intro fuel distance fault next failed enough near token middle peeked
    exact waits_of_failed_peek failed peeked

/-- Makes calls one after the other, each with the same fuel, and collects the answers. -/
def answerAll (fuel : Nat) (feed : Feed σ ρ V ε) :
    List (Operation σ V) → Run (List (Except StreamFault (Option (Token V))))
  | [] => .ok []
  | operation :: operations => do
    let (answer, feed) ← feed.perform fuel operation
    let answers ← feed.answerAll fuel operations
    return answer :: answers

omit [LawfulTokenSource σ V ε] in
theorem exists_replies {operations : List (Operation σ V)}
    {answers : List (Except StreamFault (Option (Token V)))} (fuel : Nat)
    (answered : feed.answerAll fuel operations = .ok answers) :
    ∃ after, feed.Replies (operations.zip answers) after := by
  induction operations generalizing feed answers with
  | nil =>
    cases answered
    exact ⟨feed, .done⟩
  | cons operation operations ih =>
    obtain ⟨⟨answer, middle⟩, performed, answered⟩ := bind_eq_ok_iff.mp answered
    obtain ⟨others, rest, collected⟩ := bind_eq_ok_iff.mp answered
    cases collected
    obtain ⟨after, replies⟩ := ih rest
    exact ⟨after, .call performed replies⟩

instance : LawfulTokenSource Scripted Unit Unit where
  next_mono pulled _ := pulled

/-- The same source for every token that comes from a file, and none for any other. -/
def findFile (source : Scripted) (token : Token Unit) : Except StreamFault Scripted :=
  if token.file.isSome then .ok source else .error (.rejected "no file")

/-- A source that fails, a sentinel that is refused and an included source that fails, between calls
that stack a source and put a token back. -/
theorem calls_lose_nothing_of_scripted :
    let gone : StreamFault := .rejected "gone"
    let finder : Finder Scripted Unit :=
      ⟨0, some 1, findFile ⟨[.ok (.bare 5), .error gone, .ok (.bare 6)]⟩⟩
    let feed : Feed Scripted (Lookup finder.find) Unit Unit := start
      ⟨[.error gone, .ok (.bare 2), .ok (.bare 1), .ok ⟨1, none, some "file", .origin⟩,
        .ok (.bare 3)]⟩ 0 (some (1, ⟨⟩))
    let operations : List (Operation Scripted Unit) :=
      [.next, .peek 3, .peek 3, .stack ⟨[.ok (.bare 7)]⟩, .pushBack (.bare 8), .next, .peek 4]
    let replies := operations.zip
      [.error gone, .error (.rejected "no file"), .error gone, .ok none, .ok none,
        .ok (some (.bare 8)), .ok (some (.bare 3))]
    ∃ after last, feed.Replies replies after ∧
      (feed.mended finder).Replies (successes finder replies) last ∧
      ∀ distance token, (after.mended finder).Shows distance token ↔ last.Shows distance token := by
  intro gone finder feed operations replies
  obtain ⟨after, answered⟩ : ∃ after, feed.Replies replies after :=
    exists_replies 9 (by decide +kernel)
  have suits : finder.Suits Unit (fun _ => True) (fun _ : Lookup finder.find => True) := by
    refine ⟨fun _ _ => trivial, fun _ _ last => ?_, fun _ resolves => ?_⟩
    · simp [Finder.refuses, last, finder]
    · cases resolves
      exact ⟨rfl, trivial⟩
  have suited : feed.Suited finder (fun _ => True) (fun _ => True) :=
    ⟨rfl, fun _ _ => trivial, rfl, fun _ _ => trivial⟩
  obtain ⟨⟨last, others, shows⟩, -⟩ :=
    calls_lose_nothing finder suits suited (by simp [replies, operations]) answered
  exact ⟨after, last, answered, others, shows⟩

/-- Where the end of file is a sentinel and no source is found for it, it is delivered for ever, and
what the source would deliver next is not. -/
theorem refused_last_delivered :
    let feed (answers : List (Except StreamFault (Token Unit))) :
        Feed Scripted (Lookup (findFile ⟨[.ok (.bare 5)]⟩)) Unit Unit :=
      start ⟨answers⟩ 0 (some (0, ⟨⟩))
    let found : Token Unit := ⟨0, none, some "file", .origin⟩
    (∃ after, (feed [.ok (.bare 0), .ok found]).Replies
      (List.zip [.next, .next] [.error (.rejected "no file"), .ok (some (.bare 0))]) after) ∧
    ∃ after, (feed [.ok found]).Replies (List.zip [.next] [.ok (some (.bare 5))]) after := by
  intro feed found
  exact ⟨exists_replies 9 (by decide +kernel), exists_replies 9 (by decide +kernel)⟩

end TableDriven.Feed
