import TableDriven.Proofs.Feed.Calls
import TableDriven.Proofs.Parse.Ledger
import TableDriven.Proofs.Parse.Search
import TableDriven.Proofs.Repair.Reach

/-! # Searching disturbs nothing

`Looks` lists the tokens that a search asks a feed for.  They are all in view (`looks_inView`), so
it does not matter what a source does behind them: as long as the tokens in view can be had, no
search fails (`answer_ok_of_within`).  A search leaves the stack of the parse alone, and its feed
delivers the same tokens as before.
-/

namespace TableDriven

open TableDriven.Repair (Search InView Ends demand)

namespace Parse

variable {σ ρ φ V ε : Type} [TokenSource σ V ε] [Resolver ρ σ V ε]
  {parse searched : Parse σ ρ φ V ε} {fuel distance : Nat} {ahead : Nat → Nat → Prop}
  {nearby : Nat → Prop}

/-- In answering a search over the feed the token at a distance is asked for. -/
inductive Looks (fuel distance : Nat) : Search α → Parse σ ρ φ V ε → Prop where
  | here {next : Nat → Search α} {parse : Parse σ ρ φ V ε} :
      Looks fuel distance (.ask (.symbol distance) next) parse
  | later {other : Nat} {next : Nat → Search α} {parse middle : Parse σ ρ φ V ε} {token : Token V}
      (peeked : parse.peek fuel other = .ok (.ok token, middle))
      (rest : Looks fuel distance (next token.number) middle) :
      Looks fuel distance (.ask (.symbol other) next) parse
  | lost {next : Unit → Search α} {parse : Parse σ ρ φ V ε}
      (rest : Looks fuel distance (next ()) (parse.note .lost)) :
      Looks fuel distance (.ask .lost next) parse

/-- A search that asks for a token fails with the look ahead, or goes on with what it finds. -/
theorem peek_of_answer {next : (Repair.Probe.symbol distance).Answer → Search α}
    {told : Except StreamFault α}
    (answered : parse.answer fuel (.ask (.symbol distance) next) = .ok (told, searched)) :
    (∃ fault, told = .error fault ∧ parse.peek fuel distance = .ok (.error fault, searched)) ∨
      ∃ token middle, parse.peek fuel distance = .ok (.ok token, middle) ∧
        middle.answer fuel (next token.number) = .ok (told, searched) := by
  simp only [answer, bind_eq_ok_iff] at answered
  obtain ⟨⟨seen, middle⟩, peeked, answered⟩ := answered
  cases seen with
  | error fault =>
    cases answered
    exact .inl ⟨fault, rfl, peeked⟩
  | ok token => exact .inr ⟨token, middle, peeked, answered⟩

variable [LawfulTokenSource σ V ε]

theorem Looks.near {search : Search α} (looks : Looks fuel distance search parse)
    (within : search.Within ahead nearby)
    (truly : ∀ other number, parse.feed.Reads other number → ahead other number) :
    nearby distance := by
  induction looks with
  | here =>
    cases within with
    | symbol here => exact here
  | later peeked _ ih =>
    cases within with
    | symbol _ rest =>
      obtain ⟨shown, same⟩ := shows_of_peek peeked
      refine ih (rest _ (truly _ _ ⟨_, shown, rfl⟩)) ?_
      rintro other number ⟨token, there, rfl⟩
      exact truly _ _ ⟨token, (same _ _).mp there, rfl⟩
  | lost _ ih =>
    cases within with
    | lost rest => exact ih rest truly

/-- If the tokens that a search may ask for can be had, it does not fail. -/
theorem answer_ok_of_within {search : Search α} {told : Except StreamFault α}
    (within : search.Within ahead nearby)
    (truly : ∀ other number, parse.feed.Reads other number → ahead other number)
    (shown : ∀ other, nearby other → ∃ token, parse.feed.Shows other token)
    (answered : parse.answer fuel search = .ok (told, searched)) :
    ∃ result, told = .ok result := by
  induction within generalizing parse with
  | done result =>
    cases answered
    exact ⟨result, rfl⟩
  | broken => cases answered
  | @lost next _ ih =>
    have noted : (parse.note .lost).answer fuel (next ()) = .ok (told, searched) := answered
    refine ih ?_ ?_ noted
    · exact truly
    · exact shown
  | @symbol away next here _ ih =>
    obtain ⟨fault, rfl, failed⟩ | ⟨token, middle, peeked, answered⟩ := peek_of_answer answered
    · -- The token can be had, so looking for it does not fail.
      obtain ⟨⟨_, _⟩, looked, same⟩ := bind_eq_ok_iff.mp failed
      cases same
      obtain ⟨token, enough, last, found⟩ := shown away here
      have found := Feed.peek_mono found (Nat.le_max_left enough fuel)
      cases found.symm.trans (Feed.peek_mono looked (Nat.le_max_right enough fuel))
    · obtain ⟨there, same⟩ := shows_of_peek peeked
      refine ih token.number (truly _ _ ⟨token, there, rfl⟩) ?_ ?_ answered
      · rintro other number ⟨found, there, rfl⟩
        exact truly _ _ ⟨found, (same _ _).mp there, rfl⟩
      · intro other near
        obtain ⟨found, there⟩ := shown other near
        exact ⟨found, (same _ _).mpr there⟩

theorem deliversAll_of_answer {search : Search α} {result : α}
    (answered : parse.answer fuel search = .ok (.ok result, searched)) (tokens : List (Token V)) :
    (∃ rest, searched.feed.DeliversAll tokens rest) ↔ ∃ rest, parse.feed.DeliversAll tokens rest := by
  simp only [Feed.exists_deliversAll_iff, shows_of_answer answered]

/-- **Searching only looks, and no further than it must.**  A search asks for no token as far ahead
as repairs can delete and must parse behind, and for none behind an end of file.  If all tokens in
view can be had, it does not fail, whatever comes behind them; it changes nothing but the feed and
the journal, and the feed delivers the same tokens as before.  If no token fails and every sequence
of reductions that it tries ends, it answers with enough fuel. -/
theorem search_only_looks
    (shown : ∀ distance, InView parse.table parse.feed.Reads distance →
      ∃ token, parse.feed.Shows distance token) :
    (∀ fuel distance, Looks fuel distance (Repair.search parse.table fuel parse.states) parse →
      distance < parse.table.maxDeletion.toNat + max parse.table.validationLength.toNat 1 ∧
        ∀ nearer token, nearer < distance → parse.feed.Shows nearer token →
          token.number ≠ parse.table.eof) ∧
      (∀ fuel told searched,
        parse.answer fuel (Repair.search parse.table fuel parse.states) = .ok (told, searched) →
          (∃ result, told = .ok result) ∧
          (∃ feed journal, searched = { parse with feed, journal }) ∧
          ∀ tokens, (∃ rest, searched.feed.DeliversAll tokens rest) ↔
            ∃ rest, parse.feed.DeliversAll tokens rest) ∧
      ((∀ distance, ∃ token, parse.feed.Shows distance token) →
        Ends parse.table parse.feed.Reads parse.states →
          ∃ enough, ∀ fuel, enough ≤ fuel → ∃ result searched,
            parse.answer fuel (Repair.search parse.table fuel parse.states) =
              .ok (.ok result, searched)) := by
  have within (fuel : Nat) : (Repair.search parse.table fuel parse.states).Within
      parse.feed.Reads (InView parse.table parse.feed.Reads) :=
    Repair.search_within fun _ _ _ => Feed.Reads.unique
  refine ⟨fun fuel distance looks => ?_, fun fuel told searched answered => ?_, ?_⟩
  · obtain ⟨near, clear⟩ := looks.near (within fuel) fun _ _ read => read
    exact ⟨near, fun nearer token before shown =>
      clear nearer token.number before ⟨token, shown, rfl⟩⟩
  · obtain ⟨result, rfl⟩ :=
      answer_ok_of_within (within fuel) (fun _ _ read => read) shown answered
    obtain ⟨feed, journal, same, -⟩ := (recovers_answer answered).tells
    exact ⟨⟨result, rfl⟩, ⟨feed, journal, same⟩, deliversAll_of_answer answered⟩
  · intro endless ends
    have read (distance : Nat) : ∃ number, parse.feed.Reads distance number := by
      obtain ⟨token, shown⟩ := endless distance
      exact ⟨token.number, token, shown, rfl⟩
    obtain ⟨result, concludes⟩ := Repair.search_concludes ends read
    obtain ⟨enough, answers⟩ := answer_of_concludes endless concludes
    exact ⟨enough, fun fuel more => ⟨result, answers fuel more⟩⟩

/-- In a list of `a` a `b` is an error; behind it a token is yet to be replaced by a source. -/
theorem search_only_looks_including :
    let included : Listed Unit := .ofSymbols [(0, none), (0, none)] 2
    let parse : Parse (Listed Unit) (Feed.Fixed (Listed Unit)) Empty Unit Empty :=
      { Parser.create .lists true with
        stack := [⟨some 1, none⟩, ⟨some 0, none⟩]
        feed := (Feed.ofSource (.ofSymbols [(1, none), (9, none), (0, none)] 2) 2).setResolver 9
          ⟨included⟩ }
    ∃ enough, ∀ fuel, enough ≤ fuel → ∃ result searched,
      parse.answer fuel (Repair.search .lists fuel [some 1, some 0]) = .ok (.ok result, searched) ∧
        searched.stack = parse.stack ∧
        (∀ tokens, (∃ rest, searched.feed.DeliversAll tokens rest) ↔
          ∃ rest, parse.feed.DeliversAll tokens rest) ∧
        ∀ distance, Looks fuel distance (Repair.search .lists fuel [some 1, some 0]) parse →
          distance < 4 := by
  intro included parse
  have sound : Feed.Sound Empty 2 _ _ :=
    Feed.sound_of_listed included (by decide : 2 ≠ 9) rfl (by decide)
  have among : parse.feed.Among 2 (fun listed => listed.eof.number = 2)
      (fun sentinel => sentinel = some (9, ⟨included⟩)) := by
    refine ⟨rfl, ?_, rfl⟩
    simp only [parse, Feed.setResolver, Feed.ofSource, Feed.outlook, Feed.beyond, Feed.bottom,
      List.flatMap_nil, List.nil_append, Feed.stocked_tokens_iff]
    exact Feed.stocked_source_iff.mpr ⟨rfl, Feed.stocked_nil⟩
  obtain ⟨stream, streams⟩ := among.exists_streams sound
  have endless (distance : Nat) : ∃ token, parse.feed.Shows distance token := by
    obtain ⟨after, ⟨fuel, peeks⟩, -⟩ := Feed.exists_peeks sound streams among distance
    exact ⟨_, fuel, after, peeks fuel (Nat.le_refl _)⟩
  obtain ⟨looks, leaves, answers⟩ := search_only_looks fun distance _ => endless distance
  obtain ⟨enough, answers⟩ := answers endless (Repair.ends_lists _)
  refine ⟨enough, fun fuel more => ?_⟩
  obtain ⟨result, searched, answered⟩ := answers fuel more
  obtain ⟨-, ⟨feed, journal, same⟩, delivers⟩ := leaves fuel _ searched answered
  exact ⟨result, searched, answered, same ▸ rfl, delivers,
    fun distance asked => (looks fuel distance asked).1⟩

end Parse

end TableDriven
