import TableDriven.Proofs.Parse.Listed
import TableDriven.Proofs.Repair.Ends
import TableDriven.Proofs.Repair.Least

/-! # Searching over a feed

`Parse.answer` runs a search over the feed of a parse.  What it answers is what the search answers
for the tokens that wait by then (`answers_of_answer`), and a search that concludes is answered
with enough fuel (`answer_of_concludes`).  `answer_search_least` puts this together with the
search itself.
-/

namespace TableDriven

open TableDriven.Repair (Search Ends LeastOf Valid)

namespace Parse

variable {σ ρ φ V ε : Type} [TokenSource σ V ε] [Resolver ρ σ V ε]
  {parse searched : Parse σ ρ φ V ε} {fuel bound distance : Nat}

/-- A parse that has read ahead and written in its journal. -/
structure Reader (parse searched : Parse σ ρ φ V ε) : Prop where
  table : searched.table = parse.table
  stack : searched.stack = parse.stack
  waits : ∀ distance token, parse.feed.queue.get? distance = some token →
    searched.feed.queue.get? distance = some token

omit [TokenSource σ V ε] [Resolver ρ σ V ε] in
theorem Reader.isPrefix (reader : parse.Reader searched) :
    parse.feed.queue.toList <+: searched.feed.queue.toList := by
  rw [List.prefix_iff_getElem?]
  intro index inside
  rw [← Queue.get?_eq]
  apply reader.waits
  rw [Queue.get?_eq, List.getElem?_eq_getElem inside]

theorem reader_of_peek {answer : Except StreamFault (Token V)}
    (peeked : parse.peek fuel distance = .ok (answer, searched)) : parse.Reader searched := by
  obtain ⟨⟨told, next⟩, found, peeked⟩ := bind_eq_ok_iff.mp peeked
  cases peeked
  refine ⟨rfl, rfl, fun other token waits => ?_⟩
  show next.queue.get? other = some token
  exact Feed.get?_of_peek found waits

theorem answer_symbol_eq {token : Token V}
    (peeked : parse.peek fuel distance = .ok (.ok token, searched))
    (next : (Repair.Probe.symbol distance).Answer → Search α) :
    parse.answer fuel (.ask (.symbol distance) next) =
      searched.answer fuel (next token.number) := by
  rw [answer, peeked]
  rfl

/-- A search is answered by tokens that wait in the end, and none is found without fuel. -/
theorem answers_of_answer {search : Search α} {result : α}
    (answered : parse.answer fuel search = .ok (.ok result, searched)) :
    search.Answers (fun distance number => 0 < fuel ∧ searched.feed.Waits distance number) result ∧
      parse.Reader searched := by
  induction search generalizing parse with
  | done other =>
    cases answered
    exact ⟨.done result, rfl, rfl, fun _ _ waits => waits⟩
  | ask probe next ih =>
    cases probe with
    | broken why => cases answered
    | lost =>
      obtain ⟨answers, reader⟩ := ih () answered
      exact ⟨.lost answers, reader.table, reader.stack, reader.waits⟩
    | symbol distance =>
      simp only [answer, bind_eq_ok_iff] at answered
      obtain ⟨⟨told, middle⟩, peeked, answered⟩ := answered
      cases told with
      | error fault => cases answered
      | ok token =>
        obtain ⟨answers, reader⟩ := ih _ answered
        have first := reader_of_peek peeked
        refine ⟨.symbol ⟨?_, token, ?_, rfl⟩ answers, reader.table.trans first.table,
          reader.stack.trans first.stack, fun _ _ waits => reader.waits _ _ (first.waits _ _ waits)⟩
        · apply Nat.pos_of_ne_zero
          rintro rfl
          cases peeked
        · apply reader.waits
          obtain ⟨⟨found, after⟩, looked, peeked⟩ := bind_eq_ok_iff.mp peeked
          cases peeked
          show after.queue.get? distance = some token
          exact Feed.waits_of_peek looked

variable [LawfulTokenSource σ V ε]

/-- This much fuel finds every token nearer than the bound. -/
def Finds (parse : Parse σ ρ φ V ε) (fuel bound : Nat) : Prop :=
  ∀ distance, distance < bound → ∃ token next, parse.feed.peek fuel distance = .ok (.ok token, next)

theorem exists_finds (endless : ∀ distance, ∃ token, parse.feed.Shows distance token)
    (bound : Nat) :
    ∃ enough, ∀ fuel, enough ≤ fuel → parse.Finds fuel bound := by
  induction bound with
  | zero => exact ⟨0, fun fuel _ distance near => absurd near (Nat.not_lt_zero distance)⟩
  | succ bound ih =>
    obtain ⟨enough, finds⟩ := ih
    obtain ⟨token, least, next, peeked⟩ := endless bound
    refine ⟨max enough least, fun fuel more distance near => ?_⟩
    by_cases last : distance = bound
    · subst last
      exact ⟨token, next, Feed.peek_mono peeked (by omega)⟩
    · exact finds fuel (by omega) distance (by omega)

theorem answer_of_answers {ahead : Nat → Nat → Prop} {search : Search α} {result : α}
    (shown : ∀ distance number, ahead distance number → parse.feed.Reads distance number)
    (finds : parse.Finds fuel bound)
    (answers : search.Answers (fun distance number => distance < bound ∧ ahead distance number)
      result) :
    ∃ searched, parse.answer fuel search = .ok (.ok result, searched) := by
  induction answers generalizing parse with
  | done result => exact ⟨parse, rfl⟩
  | @lost next result _ ih =>
    have noted : ∃ searched,
        (parse.note .lost).answer fuel (next ()) = .ok (.ok result, searched) := ih shown finds
    exact noted
  | @symbol distance number next result here _ ih =>
    obtain ⟨near, read⟩ := here
    obtain ⟨token, after, peeked⟩ := finds distance near
    have found : parse.peek fuel distance = .ok (.ok token, parse.withFeed after) := by
      rw [peek, peeked]
      rfl
    obtain rfl : token.number = number :=
      Feed.Reads.unique ⟨token, ⟨fuel, after, peeked⟩, rfl⟩ (shown distance number read)
    have further : ∃ searched,
        (parse.withFeed after).answer fuel (next token.number) = .ok (.ok result, searched) := by
      apply ih
      · intro other symbol read
        obtain ⟨held, shows, rfl⟩ := shown other symbol read
        exact ⟨held, Feed.shows_takeJournal_iff.mpr ((Feed.shows_of_peek peeked).mpr shows), rfl⟩
      · intro other near
        obtain ⟨held, last, seen⟩ := finds other near
        obtain ⟨last, seen⟩ := Feed.peek_of_peek peeked seen
        obtain ⟨last, seen⟩ := Feed.peek_takeJournal seen
        exact ⟨held, last, seen⟩
    obtain ⟨searched, answered⟩ := further
    exact ⟨searched, (answer_symbol_eq found next).trans answered⟩

theorem answer_of_concludes {search : Nat → Search α} {result : α}
    (endless : ∀ distance, ∃ token, parse.feed.Shows distance token)
    (concludes : Search.Concludes parse.feed.Reads search result) :
    ∃ enough, ∀ fuel, enough ≤ fuel →
      ∃ searched, parse.answer fuel (search fuel) = .ok (.ok result, searched) := by
  obtain ⟨bound, enough, answers⟩ := concludes
  obtain ⟨least, finds⟩ := exists_finds endless bound
  refine ⟨max enough least, fun fuel more => ?_⟩
  exact answer_of_answers (fun _ _ read => read) (finds fuel (by omega)) (answers fuel (by omega))

/-- **The search finds the least repair.**  In front of a stream that never fails, and if every
sequence of reductions that it tries ends, the search answers with enough fuel; and what it
answers is the valid repair that precedes all others, or nothing if no repair is valid. -/
theorem answer_search_least
    (endless : ∀ distance, ∃ token, parse.feed.Shows distance token)
    (ends : Ends parse.table parse.feed.Reads parse.states) :
    ∃ result, LeastOf parse.table (Valid parse.table parse.feed.Reads parse.states) result ∧
      ∃ enough, ∀ fuel, enough ≤ fuel → ∃ searched,
        parse.answer fuel (Repair.search parse.table fuel parse.states) =
          .ok (.ok result, searched) := by
  have read (distance : Nat) : ∃ number, parse.feed.Reads distance number := by
    obtain ⟨token, shown⟩ := endless distance
    exact ⟨token.number, token, shown, rfl⟩
  obtain ⟨result, concludes⟩ := Repair.search_concludes ends read
  refine ⟨result, ?_, answer_of_concludes endless concludes⟩
  obtain ⟨bound, enough, answers⟩ := concludes
  have unique : Repair.Unambiguous parse.feed.Reads := fun _ _ _ => Feed.Reads.unique
  exact Repair.search_least unique
    ((answers enough (Nat.le_refl _)).mono fun _ _ read => read.2)

/-- A `b` behind a list has a least repair, or none, and the search answers with it. -/
theorem answer_search_least_lists : ∃ result,
    LeastOf .lists (Valid .lists (ofListed .lists [1, 0] [1, 0]).feed.Reads [some 1, some 0])
      result ∧
      ∃ enough, ∀ fuel, enough ≤ fuel → ∃ searched,
        (ofListed .lists [1, 0] [1, 0]).answer fuel
          (Repair.search .lists fuel [some 1, some 0]) = .ok (.ok result, searched) :=
  answer_search_least (Feed.exists_shows_of_listed (isPlain_ofListed .lists [1, 0] [1, 0]))
    (Repair.ends_lists _)

end Parse

end TableDriven
