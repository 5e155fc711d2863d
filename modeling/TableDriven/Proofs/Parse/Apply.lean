import TableDriven.Proofs.Parse.Reports
import TableDriven.Proofs.Parse.Search

/-! # Making a repair

`Parse.apply` looks at the tokens it is going to delete, drops them and puts the insertion in
front.  When they all wait it does so without failing (`apply_ok`), and they do when a search has
found the repair (`recover_ok`): it has looked at least one token further than it deletes.
-/

namespace TableDriven

open TableDriven.Parser
open TableDriven.Repair (Insertion Valid Passes demand)

namespace Parse

variable {σ ρ φ V ε : Type} [TokenSource σ V ε] [Resolver ρ σ V ε]
  {table : LrTable} {stack : StateStack} {waiting rest : List (Token V)} {token : Token V}
  {behind : Feed σ ρ V ε} {parse searched : Parse σ ρ φ V ε} {fuel : Nat}

/-- A parse with this table and these states, in front of which these tokens wait before all that
another feed delivers. -/
structure Stands (parse : Parse σ ρ φ V ε) (table : LrTable) (stack : StateStack)
    (waiting : List (Token V)) (behind : Feed σ ρ V ε) : Prop where
  table : parse.table = table
  states : parse.states = stack
  feed : Feed.Behind waiting parse.feed behind

namespace Stands

omit [TokenSource σ V ε] [Resolver ρ σ V ε] in
theorem note (stands : parse.Stands table stack waiting behind) (notice : Parser.Notice V ε) :
    (parse.note notice).Stands table stack waiting behind :=
  ⟨stands.table, stands.states, stands.feed⟩

omit [TokenSource σ V ε] [Resolver ρ σ V ε] in
theorem pushBack (stands : parse.Stands table stack waiting behind) (token : Token V) :
    (parse.pushBack token).Stands table stack (token :: waiting) behind :=
  ⟨stands.table, stands.states, stands.feed.pushBack token⟩

omit [TokenSource σ V ε] [Resolver ρ σ V ε] in
theorem foldl_pushBack (stands : parse.Stands table stack waiting behind)
    (tokens : List (Token V)) :
    (tokens.foldl Parse.pushBack parse).Stands table stack (tokens.reverse ++ waiting) behind := by
  induction tokens generalizing parse waiting with
  | nil => exact stands
  | cons token tokens ih =>
    rw [List.reverse_cons, List.append_assoc]
    exact ih (stands.pushBack token)

theorem peek_ok (stands : parse.Stands table stack waiting behind) (fueled : 0 < fuel)
    {distance : Nat} (there : waiting[distance]? = some token) :
    ∃ after, parse.peek fuel distance = .ok (.ok token, after) ∧
      after.Stands table stack waiting behind := by
  obtain ⟨fuel, rfl⟩ : ∃ less, fuel = less + 1 := ⟨fuel - 1, by omega⟩
  have inside := (List.getElem?_eq_some_iff.mp there).1
  have found : parse.feed.queue.get? distance = some token := by
    rw [Queue.get?_eq, stands.feed.queue, List.getElem?_append_left inside, there]
  refine ⟨parse.withFeed parse.feed, ?_, stands.table, stands.states, stands.feed.takeJournal⟩
  simp only [peek, Feed.peek, found]
  rfl

theorem nextToken_ok (stands : parse.Stands table stack (token :: rest) behind) (fuel : Nat) :
    ∃ after, parse.nextToken fuel = .ok (.ok token, after) ∧
      after.Stands table stack rest behind := by
  obtain ⟨next, taken, left⟩ := stands.feed.next_ok
  refine ⟨parse.withFeed next, ?_, stands.table, stands.states, left.takeJournal⟩
  rw [nextToken, taken fuel]
  rfl

theorem upcoming_ok (stands : parse.Stands table stack waiting behind) (fueled : 0 < fuel)
    {count : Nat} {done : List Nat} (enough : done.length + count ≤ waiting.length) :
    ∃ after, parse.upcoming fuel count done =
        .ok (.ok (done.reverse ++ ((waiting.drop done.length).take count).map Token.number), after) ∧
      after.Stands table stack waiting behind := by
  induction count generalizing parse done with
  | zero =>
    refine ⟨parse, ?_, stands⟩
    simp [upcoming]
  | succ count ih =>
    have inside : done.length < waiting.length := by omega
    obtain ⟨middle, peeked, stands⟩ := stands.peek_ok fueled (List.getElem?_eq_getElem inside)
    have longer : (waiting[done.length].number :: done).length + count ≤ waiting.length := by
      rw [List.length_cons]
      omega
    obtain ⟨after, rest, stands⟩ := ih stands longer
    refine ⟨after, ?_, stands⟩
    rw [List.drop_eq_getElem_cons inside, List.take_succ_cons, List.map_cons]
    simp only [upcoming, peeked, ok_bind, rest]
    simp

theorem skip_ok (stands : parse.Stands table stack waiting behind) (fuel : Nat) {count : Nat}
    (enough : count ≤ waiting.length) :
    ∃ after, parse.skip fuel count = .ok (.ok (), after) ∧
      after.Stands table stack (waiting.drop count) behind := by
  induction count generalizing parse waiting with
  | zero => exact ⟨parse, rfl, stands⟩
  | succ count ih =>
    cases waiting with
    | nil => simp at enough
    | cons token rest =>
      obtain ⟨middle, taken, stands⟩ := stands.nextToken_ok fuel
      obtain ⟨after, skipped, stands⟩ := ih stands (by simpa using enough)
      exact ⟨after, by simp only [skip, taken, ok_bind, skipped], stands⟩

end Stands

/-- A repair of tokens that wait is made and reported: they are dropped, and the insertion stands
in front. -/
theorem Stands.apply_ok (stands : parse.Stands table stack waiting behind) (fueled : 0 < fuel)
    {repair : Repair} (enough : repair.deletions < waiting.length)
    (front : waiting.head? = some token) :
    ∃ repaired, parse.apply fuel repair = .ok (.ok (), repaired) ∧
      parse.Tells
        [(token, .ofRepair repair ((waiting.take repair.deletions).map Token.number))] repaired ∧
      repaired.Stands table stack
        ((parse.inserted token repair.insertion).reverse ++ waiting.drop repair.deletions)
        behind := by
  obtain ⟨looked, upcoming, first⟩ :=
    stands.upcoming_ok fueled (show ([] : List Nat).length + repair.deletions ≤ _ by simp; omega)
  have there : waiting[0]? = some token := by rwa [← List.head?_eq_getElem?]
  obtain ⟨shown, peeked, second⟩ := first.peek_ok fueled there
  let notice : Parser.Notice V ε :=
    .repaired token (.ofRepair repair ((waiting.take repair.deletions).map Token.number))
  obtain ⟨skipped, dropped, third⟩ := (second.note notice).skip_ok fuel (Nat.le_of_lt enough)
  have inserted := third.foldl_pushBack (parse.inserted token repair.insertion)
  have drops := (recovers_skip dropped).trans
    (recovers_foldl_pushBack skipped (parse.inserted token repair.insertion))
  have recovers := (recovers_upcoming upcoming).trans (.reported peeked _ drops)
  refine ⟨_, ?_, recovers.tells, inserted⟩
  have same : skipped.inserted token repair.insertion =
      parse.inserted token repair.insertion := by
    simp only [Parse.inserted]
    rw [third.table, stands.table]
  simp only [List.reverse_nil, List.nil_append, List.length_nil, List.drop_zero] at upcoming
  simp only [apply, upcoming, peeked, ok_bind]
  rw [dropped]
  simp only [ok_bind, same]
  rfl

omit [TokenSource σ V ε] [Resolver ρ σ V ε] in
/-- A repair that was found deletes fewer tokens than wait, and there was fuel to see them. -/
theorem lt_length_of_valid {repair : Repair}
    (valid : Valid table (fun distance number => 0 < fuel ∧ parse.feed.Waits distance number) stack
      repair) : 0 < fuel ∧ repair.deletions < parse.feed.queue.toList.length := by
  obtain ⟨next, -, passes⟩ := valid.parses
  obtain ⟨count, some⟩ : ∃ less, demand table = less + 1 :=
    Nat.exists_eq_succ_of_ne_zero (by simp only [demand]; omega)
  rw [some] at passes
  have seen : ∃ symbol, 0 < fuel ∧ parse.feed.Waits repair.deletions symbol := by
    cases passes with
    | accepted shown _ | ended shown _ | shifted shown _ _ => exact ⟨_, shown⟩
  obtain ⟨symbol, fueled, token, waits, -⟩ := seen
  rw [Queue.get?_eq] at waits
  exact ⟨fueled, (List.getElem?_eq_some_iff.mp waits).1⟩

/-- A repair that was found is valid for the tokens that wait by then. -/
theorem valid_of_found {repair : Repair}
    (found : parse.findRepair fuel = .ok (.ok (some repair), searched)) :
    parse.Reader searched ∧
      Valid parse.table (fun distance number => 0 < fuel ∧ searched.feed.Waits distance number)
        parse.states repair := by
  rw [findRepair] at found
  split at found
  next =>
    obtain ⟨⟨told, middle⟩, answered, found⟩ := bind_eq_ok_iff.mp found
    split at found
    next other last same =>
      cases same
      cases found
      obtain ⟨answers, reader⟩ := answers_of_answer answered
      have unique : Repair.Unambiguous fun distance number =>
          0 < fuel ∧ middle.feed.Waits distance number :=
        fun _ _ _ first second => first.2.unique second.2
      exact ⟨⟨reader.table, reader.stack, reader.waits⟩,
        (Repair.search_least unique answers).1⟩
    next other =>
      cases found
      exact absurd rfl (other repair searched)
  next => cases found

/-- A repair that was found is made. -/
theorem apply_ok_of_found {repair : Repair}
    (found : parse.findRepair fuel = .ok (.ok (some repair), searched)) :
    ∃ token repaired, searched.feed.queue.toList.head? = some token ∧
      searched.apply fuel repair = .ok (.ok (), repaired) ∧
      searched.Tells [(token, .ofRepair repair
        ((searched.feed.queue.toList.take repair.deletions).map Token.number))] repaired ∧
      repaired.Stands parse.table parse.states
        ((parse.inserted token repair.insertion).reverse ++
          searched.feed.queue.toList.drop repair.deletions)
        { searched.feed with queue := .empty } := by
  obtain ⟨reader, valid⟩ := valid_of_found found
  obtain ⟨fueled, enough⟩ := lt_length_of_valid valid
  have stands : searched.Stands parse.table parse.states searched.feed.queue.toList
      { searched.feed with queue := .empty } :=
    ⟨reader.table, congrArg (List.map Cell.state) reader.stack, Feed.behind_queue searched.feed⟩
  obtain ⟨token, front⟩ : ∃ token, searched.feed.queue.toList.head? = some token := by
    rw [List.head?_eq_getElem?]
    exact ⟨_, List.getElem?_eq_getElem (Nat.zero_lt_of_lt enough)⟩
  obtain ⟨repaired, applied, tells, stands⟩ := stands.apply_ok fueled enough front
  have same : searched.inserted token repair.insertion =
      parse.inserted token repair.insertion := by
    simp only [Parse.inserted]
    rw [reader.table]
  exact ⟨token, repaired, front, applied, tells, same ▸ stands⟩

/-- A repair that was found is valid for the tokens that wait by then, and it is made and reported:
the insertion stands in front of the tokens behind the deletions. -/
theorem recover_ok {repair : Repair}
    (found : parse.findRepair fuel = .ok (.ok (some repair), searched)) :
    parse.feed.queue.toList <+: searched.feed.queue.toList ∧
      Valid parse.table (fun distance number => 0 < fuel ∧ searched.feed.Waits distance number)
        parse.states repair ∧
      ∃ token deleted repaired, parse.recover fuel = .ok (none, repaired) ∧
        .repaired token (.ofRepair repair deleted) ∈ repaired.journal ∧
        repaired.Stands parse.table parse.states
          ((parse.inserted token repair.insertion).reverse ++
            searched.feed.queue.toList.drop repair.deletions)
          { searched.feed with queue := .empty } := by
  obtain ⟨reader, valid⟩ := valid_of_found found
  obtain ⟨token, repaired, -, applied, tells, stands⟩ := apply_ok_of_found found
  refine ⟨reader.isPrefix, valid, token,
    (searched.feed.queue.toList.take repair.deletions).map Token.number, repaired, ?_,
    mem_journal_of_mem_reports ?_, stands⟩
  · simp only [recover, found, ok_bind, applied]
    rfl
  · rw [tells.reports_eq]
    simp

end Parse

end TableDriven
