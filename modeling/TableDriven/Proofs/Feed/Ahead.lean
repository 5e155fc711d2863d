import TableDriven.Proofs.Feed.Behind
import TableDriven.Proofs.Feed.Poll

/-! # The tokens ahead of a feed

`Feed.Shows` says which token a look ahead finds at a distance.  What lies ahead does not depend
on how much of it has been pulled: looking ahead leaves it as it is (`shows_of_peek`), the next
token is the one at distance 0 and what is behind it moves up (`shows_of_next`), and a token that
is put back stands in front of the rest (`behind_pushBack`).
-/

namespace TableDriven.Feed

variable {σ ρ V ε : Type} [TokenSource σ V ε] [Resolver ρ σ V ε]
  {feed other next : Feed σ ρ V ε} {front : List (Token V)} {fuel enough distance : Nat}
  {token found : Token V}

omit [TokenSource σ V ε] [Resolver ρ σ V ε] in
/-- A feed has its own queue in front of what its sources deliver. -/
theorem behind_queue (feed : Feed σ ρ V ε) :
    Behind feed.queue.toList feed { feed with queue := .empty } :=
  ⟨rfl, rfl, rfl, rfl, rfl, by simp⟩

omit [TokenSource σ V ε] [Resolver ρ σ V ε] in
/-- What waits still does behind nothing else. -/
theorem Behind.get?_of_waits (behind : Behind feed.queue.toList next other)
    (waits : feed.queue.get? distance = some token) : next.queue.get? distance = some token := by
  rw [Queue.get?_eq] at waits ⊢
  rw [behind.queue, List.getElem?_append_left (List.getElem?_eq_some_iff.mp waits).1]
  exact waits

/-- A pull leaves what waits where it is. -/
theorem get?_of_pull {answer : Except StreamFault Unit}
    (pulled : feed.pull fuel = .ok (answer, next)) (waits : feed.queue.get? distance = some token) :
    next.queue.get? distance = some token := by
  have alike := (behind_queue feed).pull fuel
  rw [pulled] at alike
  obtain ⟨_, -, -, behind⟩ := alike.of_ok_left
  exact behind.get?_of_waits waits

/-- A look ahead leaves what waits where it is, and finds a token that waits. -/
theorem get?_of_peek {answer : Except StreamFault (Token V)} {other : Nat}
    (peeked : feed.peek fuel distance = .ok (answer, next))
    (waits : feed.queue.get? other = some token) : next.queue.get? other = some token := by
  induction fuel generalizing feed with
  | zero => contradiction
  | succ fuel ih =>
    simp only [peek] at peeked
    split at peeked
    next =>
      cases peeked
      exact waits
    next =>
      obtain ⟨⟨told, middle⟩, pulled, peeked⟩ := bind_eq_ok_iff.mp peeked
      have waits := get?_of_pull pulled waits
      cases told with
      | error fault =>
        cases peeked
        exact waits
      | ok done => exact ih peeked waits

/-- The token that a look ahead finds waits at its distance from then on. -/
theorem waits_of_peek (peeked : feed.peek fuel distance = .ok (.ok token, next)) :
    next.queue.get? distance = some token := by
  induction fuel generalizing feed with
  | zero => contradiction
  | succ fuel ih =>
    simp only [peek] at peeked
    split at peeked
    next waits =>
      cases peeked
      exact waits
    next =>
      obtain ⟨⟨told, middle⟩, -, peeked⟩ := bind_eq_ok_iff.mp peeked
      cases told with
      | error fault => cases peeked
      | ok done => exact ih peeked

/-! ## What lies ahead -/

/-- A look ahead finds a token at a distance. -/
def Shows (feed : Feed σ ρ V ε) (distance : Nat) (token : Token V) : Prop :=
  ∃ fuel next, feed.peek fuel distance = .ok (.ok token, next)

theorem shows_of_waits (waits : feed.queue.get? distance = some token) :
    feed.Shows distance token :=
  ⟨1, feed, by simp [peek, waits]⟩

/-- What lies ahead does not depend on the journal, and moves back by what is put in front. -/
theorem Behind.shows_iff (behind : Behind front feed other) :
    feed.Shows (front.length + distance) token ↔ other.Shows distance token := by
  constructor
  · rintro ⟨fuel, next, peeked⟩
    have alike := behind.peek fuel distance
    rw [peeked] at alike
    obtain ⟨⟨_, other⟩, found, rfl, -⟩ := alike.of_ok_left
    exact ⟨fuel, other, found⟩
  · rintro ⟨fuel, next, peeked⟩
    have alike := behind.peek fuel distance
    rw [peeked] at alike
    obtain ⟨⟨_, feed⟩, found, rfl, -⟩ := alike.of_ok_right
    exact ⟨fuel, feed, found⟩

/-- With the same in front the same lies ahead. -/
theorem Behind.shows_nil_iff (behind : Behind [] feed other) :
    feed.Shows distance token ↔ other.Shows distance token := by
  have same : feed.Shows (([] : List (Token V)).length + distance) token ↔
      other.Shows distance token := behind.shows_iff
  rwa [List.length_nil, Nat.zero_add] at same

/-- Without some of the tokens that wait a feed shows what it showed so much further ahead. -/
theorem Behind.shows_drop_iff {waiting : List (Token V)} {dropped : Nat}
    (all : Behind waiting feed other) (left : Behind (waiting.drop dropped) next other)
    (enough : dropped ≤ waiting.length) (further : Nat) (token : Token V) :
    next.Shows further token ↔ feed.Shows (dropped + further) token := by
  rw [← List.take_append_drop dropped waiting] at all
  have front : Behind (waiting.take dropped) feed next := all.of_append left
  have same : feed.Shows ((waiting.take dropped).length + further) token ↔
      next.Shows further token := front.shows_iff
  rw [List.length_take, Nat.min_eq_left enough] at same
  exact same.symm

/-- The numbers of the tokens that wait. -/
def Waits (feed : Feed σ ρ V ε) (distance number : Nat) : Prop :=
  ∃ token, feed.queue.get? distance = some token ∧ token.number = number

/-- The numbers of the tokens that a look ahead finds. -/
def Reads (feed : Feed σ ρ V ε) (distance number : Nat) : Prop :=
  ∃ token, feed.Shows distance token ∧ token.number = number

omit [TokenSource σ V ε] [Resolver ρ σ V ε] in
theorem Waits.unique {first second : Nat} (one : feed.Waits distance first)
    (other : feed.Waits distance second) : first = second := by
  obtain ⟨token, waits, rfl⟩ := one
  obtain ⟨found, waits', rfl⟩ := other
  cases waits.symm.trans waits'
  rfl

omit [TokenSource σ V ε] [Resolver ρ σ V ε] in
theorem behind_takeJournal (feed : Feed σ ρ V ε) : Behind [] feed.takeJournal.2 feed :=
  ⟨rfl, rfl, rfl, rfl, rfl, rfl⟩

theorem shows_takeJournal_iff :
    feed.takeJournal.2.Shows distance token ↔ feed.Shows distance token :=
  (behind_takeJournal feed).shows_nil_iff

/-- What a look ahead finds it finds with the same fuel without the journal. -/
theorem peek_takeJournal {last : Feed σ ρ V ε}
    (peeked : feed.peek fuel distance = .ok (.ok token, last)) :
    ∃ last, feed.takeJournal.2.peek fuel distance = .ok (.ok token, last) := by
  have alike := (behind_takeJournal feed).peek fuel distance
  rw [List.length_nil, Nat.zero_add, peeked] at alike
  obtain ⟨⟨_, last⟩, found, rfl, -⟩ := alike.of_ok_right
  exact ⟨last, found⟩

variable [LawfulTokenSource σ V ε]

theorem Polled.mono {answer : Except StreamFault Bool} (polled : feed.Polled fuel answer next)
    (more : fuel ≤ enough) : feed.Polled enough answer next := by
  cases polled with
  | past isOver => exact .past isOver
  | failed asks asked => exact .failed asks (LawfulTokenSource.next_mono asked more)
  | inner asks asked inner took =>
    exact .inner asks (LawfulTokenSource.next_mono asked more) inner took
  | finished frames asked last =>
    exact .finished frames (LawfulTokenSource.next_mono asked more) last
  | ended frames eof primary asked last took =>
    exact .ended frames eof primary (LawfulTokenSource.next_mono asked more) last took

theorem poll_mono {result : Except StreamFault Bool × Feed σ ρ V ε}
    (polled : feed.poll fuel = .ok result) (more : fuel ≤ enough) :
    feed.poll enough = .ok result :=
  ((polled_of_poll polled).mono more).poll_eq

theorem pull_mono {result : Except StreamFault Unit × Feed σ ρ V ε}
    (pulled : feed.pull fuel = .ok result) (more : fuel ≤ enough) :
    feed.pull enough = .ok result := by
  induction fuel generalizing feed enough with
  | zero => contradiction
  | succ fuel ih =>
    obtain ⟨enough, rfl⟩ : ∃ less, enough = less + 1 := ⟨enough - 1, by omega⟩
    have more : fuel ≤ enough := by omega
    simp only [Feed.pull, bind_eq_ok_iff] at pulled ⊢
    obtain ⟨⟨answer, middle⟩, polled, rest⟩ := pulled
    refine ⟨_, poll_mono polled more, ?_⟩
    cases answer with
    | error fault => exact rest
    | ok filled =>
      cases filled with
      | true => exact rest
      | false => exact ih rest more

theorem peek_mono {result : Except StreamFault (Token V) × Feed σ ρ V ε}
    (peeked : feed.peek fuel distance = .ok result) (more : fuel ≤ enough) :
    feed.peek enough distance = .ok result := by
  induction fuel generalizing feed enough with
  | zero => contradiction
  | succ fuel ih =>
    obtain ⟨enough, rfl⟩ : ∃ less, enough = less + 1 := ⟨enough - 1, by omega⟩
    have more : fuel ≤ enough := by omega
    simp only [peek] at peeked ⊢
    split at peeked
    next => exact peeked
    next =>
      simp only [bind_eq_ok_iff] at peeked ⊢
      obtain ⟨⟨answer, middle⟩, pulled, rest⟩ := peeked
      refine ⟨_, pull_mono pulled more, ?_⟩
      cases answer with
      | error fault => exact rest
      | ok done => exact ih rest more

theorem Shows.unique (first : feed.Shows distance token)
    (second : feed.Shows distance found) : token = found := by
  obtain ⟨fuel, next, first⟩ := first
  obtain ⟨enough, other, second⟩ := second
  have first := peek_mono first (Nat.le_max_left fuel enough)
  have second := peek_mono second (Nat.le_max_right fuel enough)
  cases first.symm.trans second
  rfl

/-- What a look ahead finds it finds with the same fuel once more has been pulled. -/
theorem peek_of_pull {last : Feed σ ρ V ε} (pulled : feed.pull fuel = .ok (.ok (), next))
    (peeked : feed.peek enough distance = .ok (.ok token, last)) :
    ∃ last, next.peek enough distance = .ok (.ok token, last) := by
  cases enough with
  | zero => contradiction
  | succ enough =>
    simp only [peek] at peeked
    split at peeked
    next found waits =>
      cases peeked
      exact ⟨next, by simp [peek, get?_of_pull pulled waits]⟩
    next =>
      obtain ⟨⟨answer, middle⟩, again, peeked⟩ := bind_eq_ok_iff.mp peeked
      have pulled := pull_mono pulled (Nat.le_max_left fuel enough)
      cases pulled.symm.trans (pull_mono again (Nat.le_max_right fuel enough))
      exact ⟨last, peek_mono peeked (by omega)⟩

theorem peek_of_peek {other : Nat} {last : Feed σ ρ V ε}
    (first : feed.peek fuel other = .ok (.ok found, next))
    (peeked : feed.peek enough distance = .ok (.ok token, last)) :
    ∃ last, next.peek enough distance = .ok (.ok token, last) := by
  induction fuel generalizing feed last with
  | zero => contradiction
  | succ fuel ih =>
    simp only [peek] at first
    split at first
    next =>
      cases first
      exact ⟨last, peeked⟩
    next =>
      obtain ⟨⟨answer, middle⟩, pulled, first⟩ := bind_eq_ok_iff.mp first
      cases answer with
      | error fault => cases first
      | ok done =>
        obtain ⟨last, peeked⟩ := peek_of_pull pulled peeked
        exact ih first peeked

theorem Reads.unique {first second : Nat} (one : feed.Reads distance first)
    (other : feed.Reads distance second) : first = second := by
  obtain ⟨token, shown, rfl⟩ := one
  obtain ⟨found, shown', rfl⟩ := other
  rw [shown.unique shown']

/-- A pull that succeeds leaves what lies ahead as it is. -/
theorem shows_of_pull (pulled : feed.pull fuel = .ok (.ok (), next)) :
    next.Shows distance token ↔ feed.Shows distance token := by
  constructor
  · rintro ⟨enough, last, peeked⟩
    cases waits : feed.queue.get? distance with
    | some found =>
      have there : next.Shows distance found := shows_of_waits (get?_of_pull pulled waits)
      rw [Shows.unique ⟨enough, last, peeked⟩ there]
      exact shows_of_waits waits
    | none =>
      refine ⟨max fuel enough + 1, last, ?_⟩
      simp only [peek, waits, pull_mono pulled (Nat.le_max_left fuel enough), ok_bind]
      exact peek_mono peeked (Nat.le_max_right fuel enough)
  · rintro ⟨enough, last, peeked⟩
    obtain ⟨last, peeked⟩ := peek_of_pull pulled peeked
    exact ⟨enough, last, peeked⟩

/-- A look ahead that succeeds leaves what lies ahead as it is. -/
theorem shows_of_peek {other : Nat}
    (peeked : feed.peek fuel other = .ok (.ok found, next)) :
    next.Shows distance token ↔ feed.Shows distance token := by
  induction fuel generalizing feed with
  | zero => contradiction
  | succ fuel ih =>
    simp only [peek] at peeked
    split at peeked
    next =>
      cases peeked
      rfl
    next =>
      obtain ⟨⟨answer, middle⟩, pulled, peeked⟩ := bind_eq_ok_iff.mp peeked
      cases answer with
      | error fault => cases peeked
      | ok done => exact (ih peeked).trans (shows_of_pull pulled)

omit [TokenSource σ V ε] [Resolver ρ σ V ε] [LawfulTokenSource σ V ε] in
theorem behind_of_pop? {queue : Queue (Token V)} (popped : feed.queue.pop? = some (token, queue)) :
    Behind [token] feed { feed with queue } :=
  ⟨rfl, rfl, rfl, rfl, rfl, feed.queue.toList_of_pop? popped⟩

omit [TokenSource σ V ε] [Resolver ρ σ V ε] [LawfulTokenSource σ V ε] in
theorem behind_pushBack (feed : Feed σ ρ V ε) (token : Token V) :
    Behind [token] (feed.pushBack token) feed :=
  ⟨rfl, rfl, rfl, rfl, rfl, rfl⟩

omit [LawfulTokenSource σ V ε] in
theorem Behind.shows_front {front : List (Token V)} (behind : Behind (token :: front) feed other) :
    feed.Shows 0 token :=
  shows_of_waits (by rw [Queue.get?_eq, behind.queue]; rfl)

omit [LawfulTokenSource σ V ε] in
theorem Behind.shows_succ_iff (behind : Behind [found] feed other) :
    feed.Shows (distance + 1) token ↔ other.Shows distance token := by
  rw [Nat.add_comm]
  exact behind.shows_iff

omit [LawfulTokenSource σ V ε] in
/-- The token that is delivered waits in front, at once or after a pull. -/
theorem behind_of_next (taken : feed.next fuel = .ok (.ok token, next)) :
    ∃ middle, (middle = feed ∨ feed.pull fuel = .ok (.ok (), middle)) ∧
      Behind [token] middle next := by
  unfold Feed.next at taken
  split at taken
  next first queue popped =>
    cases taken
    exact ⟨feed, .inl rfl, behind_of_pop? popped⟩
  next =>
    obtain ⟨⟨answer, middle⟩, pulled, taken⟩ := bind_eq_ok_iff.mp taken
    cases answer with
    | error fault => cases taken
    | ok done =>
      dsimp only at taken
      split at taken
      next first queue popped =>
        cases taken
        exact ⟨middle, .inr pulled, behind_of_pop? popped⟩
      next => cases taken

omit [LawfulTokenSource σ V ε] in
/-- If no token is delivered it is because the pull fails. -/
theorem pull_of_next {fault : StreamFault} (failed : feed.next fuel = .ok (.error fault, next)) :
    feed.pull fuel = .ok (.error fault, next) := by
  unfold Feed.next at failed
  split at failed
  next => cases failed
  next =>
    obtain ⟨⟨answer, middle⟩, pulled, failed⟩ := bind_eq_ok_iff.mp failed
    cases answer with
    | error fault =>
      cases failed
      exact pulled
    | ok done =>
      dsimp only at failed
      split at failed <;> cases failed

/-- The next token is the one in front, and what is behind it moves up. -/
theorem shows_of_next (taken : feed.next fuel = .ok (.ok token, next)) :
    feed.Shows 0 token ∧
      ∀ distance found, next.Shows distance found ↔ feed.Shows (distance + 1) found := by
  obtain ⟨middle, rfl | pulled, behind⟩ := behind_of_next taken
  · exact ⟨behind.shows_front, fun _ _ => behind.shows_succ_iff.symm⟩
  · refine ⟨(shows_of_pull pulled).mp behind.shows_front, fun distance found => ?_⟩
    rw [← shows_of_pull pulled]
    exact behind.shows_succ_iff.symm

/-! ## Delivering -/

/-- The next token and the feed behind it, whatever fuel is left over. -/
def Delivers (feed : Feed σ ρ V ε) (token : Token V) (next : Feed σ ρ V ε) : Prop :=
  ∃ enough, ∀ fuel, enough ≤ fuel → feed.next fuel = .ok (.ok token, next)

omit [LawfulTokenSource σ V ε] in
/-- A token that waits in front is delivered without fuel. -/
theorem Behind.next_ok (behind : Behind (token :: front) feed other) :
    ∃ next, (∀ fuel, feed.next fuel = .ok (.ok token, next)) ∧ Behind front next other := by
  cases popped : feed.queue.pop? with
  | none =>
    rw [Queue.pop?_eq_none_iff, behind.queue] at popped
    contradiction
  | some item =>
    obtain ⟨first, queue⟩ := item
    have split := feed.queue.toList_of_pop? popped
    rw [behind.queue] at split
    obtain ⟨rfl, left⟩ := List.cons.inj split
    refine ⟨{ feed with queue }, fun fuel => by simp [Feed.next, popped], ?_⟩
    exact ⟨behind.primary, behind.frames, behind.eof, behind.eofSymbol, behind.sentinel, left.symm⟩

omit [LawfulTokenSource σ V ε] in
theorem Behind.delivers (behind : Behind (token :: front) feed other) :
    ∃ next, feed.Delivers token next ∧ Behind front next other := by
  obtain ⟨next, taken, left⟩ := behind.next_ok
  exact ⟨next, ⟨0, fun fuel _ => taken fuel⟩, left⟩

omit [TokenSource σ V ε] [LawfulTokenSource σ V ε] in
theorem Took.ne_nil (took : feed.Took token (.ok true) next) : next.queue.toList ≠ [] := by
  cases took with
  | waits => simp [enqueue]

omit [LawfulTokenSource σ V ε] in
/-- Asking a source for a new token leaves one that waits. -/
theorem waits_of_poll (polled : feed.poll fuel = .ok (.ok true, next)) :
    next.queue.toList ≠ [] := by
  generalize filled : (.ok true : Except StreamFault Bool) = answer at polled
  cases polled_of_poll polled with
  | past => simp [enqueue]
  | failed => cases filled
  | inner _ _ _ took | ended _ _ _ _ _ took =>
    cases filled
    exact took.ne_nil
  | @finished frame outer =>
    have resumes : frame.resume.toList ≠ [] := by
      simpa [← Queue.isEmpty_iff] using (Except.ok.inj filled).symm
    simp [finishFrame, note, Feed.noteAll, resumes]

omit [LawfulTokenSource σ V ε] in
theorem waits_of_pull (pulled : feed.pull fuel = .ok (.ok (), next)) :
    next.queue.toList ≠ [] := by
  induction fuel generalizing feed with
  | zero => contradiction
  | succ fuel ih =>
    obtain ⟨⟨answer, middle⟩, polled, pulled⟩ := bind_eq_ok_iff.mp pulled
    cases answer with
    | error fault => cases pulled
    | ok filled =>
      cases filled with
      | true =>
        cases pulled
        exact waits_of_poll polled
      | false => exact ih pulled

/-- The token that a look ahead finds in front is delivered. -/
theorem delivers_of_shows (shown : feed.Shows 0 token) : ∃ next, feed.Delivers token next := by
  cases waits : feed.queue.toList with
  | cons first rest =>
    obtain ⟨next, delivers, -⟩ := (waits ▸ behind_queue feed).delivers
    have here : feed.Shows 0 first := shows_of_waits (by rw [Queue.get?_eq, waits]; rfl)
    exact ⟨_, shown.unique here ▸ delivers⟩
  | nil =>
    have nothing : feed.queue.pop? = none := feed.queue.pop?_eq_none_iff.mpr waits
    obtain ⟨fuel, last, peeked⟩ := shown
    have shown : feed.Shows 0 token := ⟨fuel, last, peeked⟩
    cases fuel with
    | zero => contradiction
    | succ fuel =>
      simp only [peek, Queue.get?_eq, waits, List.getElem?_nil] at peeked
      obtain ⟨⟨answer, middle⟩, pulled, peeked⟩ := bind_eq_ok_iff.mp peeked
      cases answer with
      | error fault => cases peeked
      | ok done =>
        cases popped : middle.queue.pop? with
        | none => exact absurd (middle.queue.pop?_eq_none_iff.mp popped) (waits_of_pull pulled)
        | some item =>
          obtain ⟨first, queue⟩ := item
          have front : middle.Shows 0 first := (behind_of_pop? popped).shows_front
          refine ⟨{ middle with queue }, fuel, fun enough more => ?_⟩
          rw [shown.unique ((shows_of_pull pulled).mp front)]
          simp [Feed.next, nothing, popped, pull_mono pulled more]

theorem Delivers.shows (delivers : feed.Delivers token next) :
    feed.Shows 0 token ∧
      ∀ distance found, next.Shows distance found ↔ feed.Shows (distance + 1) found := by
  obtain ⟨enough, taken⟩ := delivers
  exact shows_of_next (taken enough (Nat.le_refl _))

omit [LawfulTokenSource σ V ε] in
/-- The next tokens, one after the other, and the feed behind them. -/
inductive DeliversAll : Feed σ ρ V ε → List (Token V) → Feed σ ρ V ε → Prop where
  | nil (feed : Feed σ ρ V ε) : DeliversAll feed [] feed
  | cons {feed middle next : Feed σ ρ V ε} {token : Token V} {tokens : List (Token V)}
      (delivers : feed.Delivers token middle) (rest : DeliversAll middle tokens next) :
      DeliversAll feed (token :: tokens) next

/-- What is delivered is what a look ahead finds. -/
theorem exists_deliversAll_iff {tokens : List (Token V)} :
    (∃ next, feed.DeliversAll tokens next) ↔
      ∀ distance token, tokens[distance]? = some token → feed.Shows distance token := by
  induction tokens generalizing feed with
  | nil =>
    constructor
    · rintro - distance token there
      cases there
    · rintro -
      exact ⟨feed, .nil feed⟩
  | cons first tokens ih =>
    constructor
    · rintro ⟨next, delivered⟩ distance token there
      cases delivered with
      | cons delivers rest =>
        obtain ⟨front, behind⟩ := delivers.shows
        cases distance with
        | zero =>
          cases there
          exact front
        | succ distance => exact (behind _ _).mp (ih.mp ⟨next, rest⟩ distance token there)
    · intro shown
      obtain ⟨middle, delivers⟩ := delivers_of_shows (shown 0 first rfl)
      obtain ⟨next, rest⟩ := ih.mpr fun distance token there =>
        (delivers.shows.2 distance token).mpr (shown (distance + 1) token there)
      exact ⟨next, .cons delivers rest⟩

end TableDriven.Feed
