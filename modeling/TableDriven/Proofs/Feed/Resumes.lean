import TableDriven.Proofs.Feed.Ahead

/-! # What a feed goes on with

`Feed.Resumes` says what a feed will deliver in terms of another feed: some pending tokens, and
then what the other shows from a distance on.  Dropping tokens and putting others in front keeps
this form (`Resumes.splice`).
-/

namespace TableDriven.Feed

variable {σ ρ V ε : Type} [TokenSource σ V ε] [Resolver ρ σ V ε]
  {feed other next whole : Feed σ ρ V ε} {pending front : List (Token V)} {token : Token V}
  {count distance dropped : Nat}

/-- The feed delivers the pending tokens and then what `whole` shows from distance `count` on. -/
def Resumes (feed : Feed σ ρ V ε) (pending : List (Token V)) (whole : Feed σ ρ V ε)
    (count : Nat) : Prop :=
  ∀ distance token, feed.Shows distance token ↔
    pending[distance]? = some token ∨
      pending.length ≤ distance ∧ whole.Shows (count + (distance - pending.length)) token

theorem resumes_self (feed : Feed σ ρ V ε) : feed.Resumes [] feed 0 := by
  intro distance token
  simp

theorem Resumes.congr (resumes : feed.Resumes pending whole count)
    (same : ∀ distance token, other.Shows distance token ↔ feed.Shows distance token) :
    other.Resumes pending whole count :=
  fun distance token => (same distance token).trans (resumes distance token)

/-- Where some tokens are dropped and others put in front, these come before the pending ones that
are left. -/
theorem Resumes.splice (resumes : feed.Resumes pending whole count)
    (stand : ∀ distance token, distance < front.length →
      (next.Shows distance token ↔ front[distance]? = some token))
    (rest : ∀ distance token, next.Shows (front.length + distance) token ↔
      feed.Shows (dropped + distance) token) :
    next.Resumes (front ++ pending.drop dropped) whole (count + (dropped - pending.length)) := by
  intro distance token
  by_cases near : distance < front.length
  · rw [stand distance token near, List.getElem?_append_left near, List.length_append]
    exact ⟨.inl, fun shown => shown.resolve_right (by omega)⟩
  · obtain ⟨further, rfl⟩ : ∃ further, distance = front.length + further :=
      ⟨distance - front.length, by omega⟩
    rw [rest, resumes, List.getElem?_append_right (by omega), List.length_append,
      Nat.add_sub_cancel_left, List.getElem?_drop, List.length_drop]
    have places (far : pending.length ≤ dropped + further) :
        count + (dropped + further - pending.length) =
          count + (dropped - pending.length) +
            (front.length + further - (front.length + (pending.length - dropped))) := by
      omega
    constructor
    · rintro (here | ⟨far, shown⟩)
      · exact .inl here
      · exact .inr ⟨by omega, places far ▸ shown⟩
    · rintro (here | ⟨far, shown⟩)
      · exact .inl here
      · exact .inr ⟨by omega, (places (by omega)).symm ▸ shown⟩

/-- The tokens in front, if they are pending, are the pending ones. -/
theorem Resumes.take_eq [LawfulTokenSource σ V ε] {taken : List (Token V)}
    (resumes : feed.Resumes pending whole count)
    (shown : ∀ distance token, taken[distance]? = some token → feed.Shows distance token) :
    taken.take pending.length = pending.take taken.length := by
  apply List.ext_getElem?
  intro distance
  rw [List.getElem?_take, List.getElem?_take]
  by_cases both : distance < pending.length ∧ distance < taken.length
  · rw [if_pos both.1, if_pos both.2, List.getElem?_eq_getElem both.1,
      List.getElem?_eq_getElem both.2]
    congr 1
    have here : feed.Shows distance pending[distance] :=
      (resumes _ _).mpr (.inl (List.getElem?_eq_getElem both.1))
    exact (shown distance _ (List.getElem?_eq_getElem both.2)).unique here
  · split <;> split <;> grind

/-- Behind the pending tokens the whole feed shows what is taken. -/
theorem Resumes.shows_taken {taken : List (Token V)} (resumes : feed.Resumes pending whole count)
    (shown : ∀ distance token, taken[distance]? = some token → feed.Shows distance token)
    (there : (taken.drop pending.length)[distance]? = some token) :
    whole.Shows (count + distance) token := by
  rw [List.getElem?_drop] at there
  obtain here | ⟨-, shown⟩ := (resumes _ _).mp (shown _ _ there)
  · rw [List.getElem?_eq_none (by omega)] at here
    cases here
  · rwa [Nat.add_sub_cancel_left] at shown

section
variable [LawfulTokenSource σ V ε] {fuel enough : Nat}

theorem next_mono {answer : Except StreamFault (Token V) × Feed σ ρ V ε}
    (taken : feed.next fuel = .ok answer) (more : fuel ≤ enough) :
    feed.next enough = .ok answer := by
  unfold Feed.next at taken ⊢
  split at taken
  next => exact taken
  next =>
    obtain ⟨pulled, pull, taken⟩ := bind_eq_ok_iff.mp taken
    exact bind_eq_ok_iff.mpr ⟨pulled, pull_mono pull more, taken⟩

/-- A token that is taken and put back leaves what lies ahead as it was. -/
theorem shows_pushBack_of_next (taken : feed.next fuel = .ok (.ok token, next)) (distance : Nat)
    (found : Token V) :
    (next.takeJournal.2.pushBack token).Shows distance found ↔ feed.Shows distance found := by
  obtain ⟨first, rest⟩ := shows_of_next taken
  have behind := behind_pushBack next.takeJournal.2 token
  cases distance with
  | zero =>
    constructor
    · intro shown
      rw [shown.unique behind.shows_front]
      exact first
    · intro shown
      rw [shown.unique first]
      exact behind.shows_front
  | succ distance => rw [behind.shows_succ_iff, shows_takeJournal_iff, rest]

/-- Tokens that wait in front of what is left of a queue are shown, and then the rest. -/
theorem shows_of_behind {base : Feed σ ρ V ε} {waiting : List (Token V)}
    (all : Behind waiting feed base) (left : Behind (front ++ waiting.drop dropped) next base)
    (enough : dropped ≤ waiting.length) :
    (∀ distance token, distance < front.length →
      (next.Shows distance token ↔ front[distance]? = some token)) ∧
      ∀ distance token, next.Shows (front.length + distance) token ↔
        feed.Shows (dropped + distance) token := by
  let middle : Feed σ ρ V ε :=
    { base with queue := { front := waiting.drop dropped ++ base.queue.toList, back := #[] } }
  have behind : Behind (waiting.drop dropped) middle base :=
    ⟨rfl, rfl, rfl, rfl, rfl, by simp [middle, Queue.toList]⟩
  constructor
  · intro distance token near
    have there : next.queue.get? distance = front[distance]? := by
      rw [Queue.get?_eq, left.queue, List.append_assoc, List.getElem?_append_left near]
    constructor
    · intro shown
      have here : next.Shows distance front[distance] :=
        shows_of_waits (there.trans (List.getElem?_eq_getElem near))
      rw [shown.unique here, List.getElem?_eq_getElem near]
    · intro here
      exact shows_of_waits (there.trans here)
  · intro distance token
    rw [(left.of_append behind).shows_iff, all.shows_drop_iff behind enough]

end

end TableDriven.Feed
