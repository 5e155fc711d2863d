import TableDriven.Proofs.Feed.Stream
import TableDriven.Token.Listed

/-! # What calls do to the stream

Whatever was called before, a feed stands for one stream, and `Obeys` says what each further call
does to it: the next token is its head, looking ahead reads it and leaves it as it is, what is put
back or stacked comes in front, and behind a close there is only an end of file.

The resolver is set before a source is asked, or never.  If what it finds for a token depends on
what it was asked before, stacking a source can change the tokens behind it, since the sentinels of
that source are now the first that it is asked for.
-/

namespace TableDriven.Feed

open TokenSource (Answers)

variable {σ ρ V ε : Type} [TokenSource σ V ε] [Resolver ρ σ V ε] {eofSymbol : Nat}
  {good : σ → Prop} {fit : Option (Nat × ρ) → Prop} {feed middle after : Feed σ ρ V ε}
  {operation : Operation σ V} {operations : List (Operation σ V)} {fuel : Nat}
  {answer : Except StreamFault (Option (Token V))} {stream : Stream' (Token V)}

/-- What a call does to the stream that a feed stands for.  All of a stacked source that ends comes
before the stream, as the resolver expands it behind it; one that does not end is all that there is.
-/
structure Obeys (good : σ → Prop) (fit : Option (Nat × ρ) → Prop) (feed : Feed σ ρ V ε)
    (stream : Stream' (Token V)) : Prop where
  next : ∃ after, feed.Delivers stream.head after ∧ after.Streams stream.tail
  peek : ∀ distance, ∃ after,
    feed.Peeks distance (stream.get distance) after ∧ after.Streams stream
  pushBack : ∀ token, (feed.pushBack token).Streams (Stream'.cons token stream)
  stack : ∀ source, good source → ∀ tokens left,
    Unrolls ε feed.eofSymbol feed.sentinel source tokens left →
      ∃ rest, Streams { feed with sentinel := left } rest ∧
        (feed.includeSource source).Streams (tokens ++ₛ rest) ∧
        (IsSteady σ V ε fit → rest = stream)
  stackEndless : ∀ source, good source →
    (¬ ∃ tokens left, Unrolls ε feed.eofSymbol feed.sentinel source tokens left) →
      ∃ endless,
        Outlook.Streams ε feed.eofSymbol ⟨[.source .stacked source], feed.sentinel⟩ endless ∧
        (feed.includeSource source).Streams endless
  close : feed.close.Streams (Stream'.const feed.lastEof)

section
omit [TokenSource σ V ε] [Resolver ρ σ V ε]

theorem Among.includeSource (among : feed.Among eofSymbol good fit) {source : σ}
    (holds : good source) : (feed.includeSource source).Among eofSymbol good fit where
  eofSymbol := among.eofSymbol
  stocked := by
    rw [outlook_includeSource]
    exact stocked_source_iff.mpr ⟨holds, among.stocked⟩
  fit := among.fit

theorem Among.setSentinel (among : feed.Among eofSymbol good fit)
    {other : Option (Nat × ρ) → Prop} {sentinel : Option (Nat × ρ)} (fits : other sentinel) :
    Among eofSymbol good other { feed with sentinel } :=
  ⟨among.eofSymbol, among.stocked, fits⟩

end

omit [Resolver ρ σ V ε] in
theorem Among.close (among : feed.Among eofSymbol good fit) :
    feed.close.Among eofSymbol good fit where
  eofSymbol := among.eofSymbol
  stocked := by
    rw [outlook_close]
    simp
  fit := among.fit

variable [LawfulTokenSource σ V ε]

theorem perform_mono {enough : Nat} {result : Except StreamFault (Option (Token V)) × Feed σ ρ V ε}
    (performed : feed.perform fuel operation = .ok result) (more : fuel ≤ enough) :
    feed.perform enough operation = .ok result := by
  cases operation with
  | next =>
    obtain ⟨told, taken, performed⟩ := bind_eq_ok_iff.mp performed
    exact bind_eq_ok_iff.mpr ⟨told, next_mono taken more, performed⟩
  | peek distance =>
    obtain ⟨told, peeked, performed⟩ := bind_eq_ok_iff.mp performed
    exact bind_eq_ok_iff.mpr ⟨told, peek_mono peeked more, performed⟩
  | pushBack | stack | close => exact performed

section
variable (sound : Sound ε eofSymbol good fit)
include sound

/-- A call ends, and leaves good sources. -/
theorem Among.exists_perform (among : feed.Among eofSymbol good fit)
    (handed : ∀ source ∈ operation.source?, good source) :
    ∃ fuel answer after, feed.perform fuel operation = .ok (answer, after) ∧
      after.Among eofSymbol good fit := by
  obtain ⟨stream, streams⟩ := among.exists_streams sound
  cases operation with
  | next =>
    obtain ⟨after, ⟨fuel, delivers⟩, -, still⟩ := exists_delivers sound streams among
    exact ⟨fuel, _, after, bind_eq_ok_iff.mpr ⟨_, delivers fuel (Nat.le_refl _), rfl⟩, still⟩
  | peek distance =>
    obtain ⟨after, ⟨fuel, peeks⟩, -, still⟩ := exists_peeks sound streams among distance
    exact ⟨fuel, _, after, bind_eq_ok_iff.mpr ⟨_, peeks fuel (Nat.le_refl _), rfl⟩, still⟩
  | pushBack token =>
    exact ⟨0, _, _, rfl, (behind_pushBack feed token).among_iff.mpr among⟩
  | stack source => exact ⟨0, _, _, rfl, among.includeSource (handed source rfl)⟩
  | close => exact ⟨0, _, _, rfl, among.close⟩

theorem Among.perform (among : feed.Among eofSymbol good fit)
    (handed : ∀ source ∈ operation.source?, good source)
    (performed : feed.perform fuel operation = .ok (answer, after)) :
    after.Among eofSymbol good fit := by
  obtain ⟨enough, told, middle, found, still⟩ := among.exists_perform sound handed
  have same := (perform_mono performed (Nat.le_max_left fuel enough)).symm.trans
    (perform_mono found (Nat.le_max_right fuel enough))
  cases same
  exact still

theorem Among.performs (among : feed.Among eofSymbol good fit)
    (handed : ∀ operation ∈ operations, ∀ source ∈ operation.source?, good source)
    (performs : feed.Performs operations after) : after.Among eofSymbol good fit := by
  induction performs with
  | done => exact among
  | call performed _ ih =>
    apply ih
    · exact among.perform sound (handed _ (by simp)) performed
    · exact fun operation inside => handed operation (by simp [inside])

theorem Among.exists_performs (among : feed.Among eofSymbol good fit)
    (handed : ∀ operation ∈ operations, ∀ source ∈ operation.source?, good source) :
    ∃ after, feed.Performs operations after := by
  induction operations generalizing feed with
  | nil => exact ⟨feed, .done⟩
  | cons operation operations ih =>
    obtain ⟨fuel, answer, middle, performed, among⟩ :=
      among.exists_perform sound (handed operation (by simp))
    obtain ⟨after, performs⟩ :=
      ih among (fun operation inside => handed operation (by simp [inside]))
    exact ⟨after, .call performed performs⟩

end

omit [LawfulTokenSource σ V ε] in
/-- Before a source is asked the sources are those that were handed over. -/
theorem Among.prepares {any : Option (Nat × ρ) → Prop} (among : feed.Among eofSymbol good any)
    (handed : ∀ operation ∈ operations, ∀ source ∈ operation.source?, good source)
    (prepares : feed.Prepares operations after) : after.Among eofSymbol good any := by
  induction prepares with
  | done => exact among
  | @call feed _ _ fuel operation _ _ serves performed _ ih =>
    apply ih
    · cases operation with
      | next =>
        cases popped : feed.queue.pop? with
        | none =>
          rw [Serves, feed.queue.pop?_eq_none_iff.mp popped] at serves
          contradiction
        | some item =>
          obtain ⟨first, queue⟩ := item
          simp only [Feed.perform, Feed.next, popped] at performed
          cases performed
          exact (behind_of_pop? popped).among_iff.mp among
      | peek distance =>
        obtain ⟨token, waits⟩ : ∃ token, feed.queue.get? distance = some token :=
          ⟨_, by rw [Queue.get?_eq, List.getElem?_eq_getElem serves]⟩
        cases fuel with
        | zero => contradiction
        | succ fuel =>
          simp only [Feed.perform, Feed.peek, waits] at performed
          cases performed
          exact among
      | pushBack token =>
        cases performed
        exact (behind_pushBack _ token).among_iff.mpr among
      | stack source =>
        cases performed
        exact among.includeSource (handed (.stack source) (by simp) source rfl)
      | close =>
        cases performed
        exact among.close
    · exact fun operation inside => handed operation (by simp [inside])

/-! ## The stream -/

theorem Among.obeys (sound : Sound ε eofSymbol good fit) (among : feed.Among eofSymbol good fit)
    (streams : feed.Streams stream) : feed.Obeys good fit stream where
  next := by
    obtain ⟨after, delivers, rest, -⟩ := exists_delivers sound streams among
    exact ⟨after, delivers, rest⟩
  peek := by
    intro distance
    obtain ⟨after, peeks, rest, -⟩ := exists_peeks sound streams among distance
    exact ⟨after, peeks, rest⟩
  pushBack := streams_pushBack streams
  stack := by
    intro source holds tokens left unrolls
    have fellows : Fellows fit left feed.sentinel :=
      sound.fellows_of_unrolls (among.eofSymbol ▸ unrolls) holds among.fit
    obtain ⟨rest, further⟩ := (among.setSentinel fellows.first).exists_streams sound
    refine ⟨rest, further, streams_includeSource unrolls further, fun steady => ?_⟩
    have number : feed.eofSymbol = eofSymbol := among.eofSymbol
    subst number
    exact (sound.streams_of_steady steady further among.stocked fellows).unique streams
  stackEndless := by
    intro source holds endless
    obtain ends | ⟨stream, streams⟩ := sound.unrolls_or_streams holds among.fit
    · exact absurd (among.eofSymbol.symm ▸ ends) endless
    · rw [← among.eofSymbol] at streams
      exact ⟨stream, streams, streams_includeSource_of_endless streams⟩
  close := streams_close feed

/-- After any calls a feed stands for one stream, and the next call does to it what it should; and
the calls can be made. -/
theorem calls_obey_stream (sound : Sound ε eofSymbol good fit) {source : σ} (holds : good source)
    {early : List (Operation σ V)} (operations : List (Operation σ V)) {before : Feed σ ρ V ε}
    (prepares : (ofSource source eofSymbol).Prepares early before)
    {sentinel : Option (Nat × ρ)} (fits : fit sentinel)
    (handed : ∀ operation ∈ early ++ operations, ∀ source ∈ operation.source?, good source) :
    (∃ after, Performs { before with sentinel } operations after) ∧
      ∀ after, Performs { before with sentinel } operations after →
        ∃ stream, after.Streams stream ∧ (∀ other, after.Streams other → other = stream) ∧
          after.Obeys good fit stream := by
  have first : (ofSource source eofSymbol : Feed σ ρ V ε).Among eofSymbol good fun _ => True :=
    ⟨rfl, by simpa [ofSource, outlook, beyond, bottom] using holds, trivial⟩
  have prepared := first.prepares
    (fun operation inside => handed operation (List.mem_append_left _ inside)) prepares
  have among := prepared.setSentinel fits
  have others (operation : Operation σ V) (inside : operation ∈ operations) :=
    handed operation (List.mem_append_right _ inside)
  refine ⟨among.exists_performs sound others, fun after performs => ?_⟩
  have among := among.performs sound others performs
  obtain ⟨stream, streams⟩ := among.exists_streams sound
  exact ⟨stream, streams, fun other again => again.unique streams, among.obeys sound streams⟩

/-- A resolver that finds the same source for every sentinel. -/
structure Fixed (σ : Type) where
  source : σ

instance : Resolver (Fixed σ) σ V ε := ⟨fun fixed _ => (.ok fixed.source, fixed, [])⟩

omit [TokenSource σ V ε] [Resolver ρ σ V ε] [LawfulTokenSource σ V ε] in
theorem answers_listed (listed : Listed V) :
    Answers ε listed listed.next.1 listed.next.2 :=
  ⟨0, [], rfl⟩

section
variable {symbol : Nat} {included : Listed V}
omit [TokenSource σ V ε] [Resolver ρ σ V ε] [LawfulTokenSource σ V ε]

/-- A list that does not begin with a sentinel yields its first token, or it ends. -/
theorem yields_or_unrolls_of_ordinary (listed : Listed V)
    (ordinary : listed.next.1.number ≠ symbol) :
    (∃ token after, Outlook.Yields ε eofSymbol
      ⟨[.source .stacked listed], some (symbol, Fixed.mk included)⟩ token after) ∨
      Unrolls ε eofSymbol (some (symbol, Fixed.mk included)) listed []
        (some (symbol, Fixed.mk included)) := by
  by_cases last : listed.next.1.number = eofSymbol
  · exact .inr (.ended (answers_listed listed) last)
  · exact .inl ⟨_, _, .delivered (answers_listed listed) last (by simpa [IsOrdinary])⟩

theorem number_next_ne {listed : Listed V} (eof : listed.eof.number ≠ symbol)
    (flat : ∀ token ∈ listed.tokens, token.number ≠ symbol) : listed.next.1.number ≠ symbol := by
  unfold Listed.next
  cases waiting : listed.tokens with
  | nil => exact eof
  | cons token tokens => exact flat token (by simp [waiting])

/-- The tokens of a list, and what is included for some of them, make a sound source. -/
theorem sound_of_listed (included : Listed V) (different : eofSymbol ≠ symbol)
    (number : included.eof.number = eofSymbol)
    (flat : ∀ token ∈ included.tokens, token.number ≠ symbol) :
    Sound ε eofSymbol (fun listed : Listed V => listed.eof.number = eofSymbol)
      (fun sentinel => sentinel = some (symbol, Fixed.mk included)) where
  proper := by
    rintro _ rfl entry found
    cases found
    exact different
  rest := by
    intro listed rest token holds answers _
    obtain ⟨-, rfl⟩ := (answers_listed listed).unique answers
    unfold Listed.next
    split <;> exact holds
  included := by
    intro _ _ _ _ _ _ _ _ _ fits _ _ resolves
    cases fits
    cases resolves
    exact ⟨number, rfl⟩
  settles := by
    rintro ⟨tokens, eof, isClosed⟩ _ holds rfl
    induction tokens with
    | nil =>
      have ordinary : eof.number ≠ symbol := fun same => different (holds ▸ same)
      exact (yields_or_unrolls_of_ordinary (⟨[], eof, isClosed⟩ : Listed V) ordinary).imp_right
        fun unrolls => ⟨_, unrolls⟩
    | cons token tokens ih =>
      by_cases same : token.number = symbol
      · have inner : token.number ≠ eofSymbol := fun last => different (last ▸ same)
        have first : included.next.1.number ≠ symbol := number_next_ne (number ▸ different) flat
        exact settles_of_resolved (answers_listed ⟨token :: tokens, eof, isClosed⟩) inner same rfl
          (yields_or_unrolls_of_ordinary included first) (ih holds)
      · exact (yields_or_unrolls_of_ordinary ⟨token :: tokens, eof, isClosed⟩ same).imp_right
          fun unrolls => ⟨_, unrolls⟩

end

/-- Looking past an include that comes up, stacking a list on it and taking a token. -/
theorem calls_obey_stream_of_listed :
    let included : Listed Unit := .ofSymbols [(4, none), (5, none)] 0
    let feed : Feed (Listed Unit) (Fixed (Listed Unit)) Unit Unit :=
      ofSource (.ofSymbols [(2, none), (1, none), (3, none)] 0) 0
    ∃ after, (feed.setResolver 1 ⟨included⟩).Performs
        [.peek 3, .stack (.ofSymbols [(1, none), (6, none)] 0), .next, .pushBack (.bare 7), .peek 9]
        after ∧
      ∃ stream, after.Streams stream ∧ after.Obeys (fun listed => listed.eof.number = 0)
        (fun sentinel => sentinel = some (1, ⟨included⟩)) stream := by
  intro included feed
  have sound : Sound Unit 0 _ _ := sound_of_listed included (by decide : 0 ≠ 1) rfl (by decide)
  have prepared : feed.Prepares [] feed := .done
  obtain ⟨⟨after, performs⟩, obeys⟩ := calls_obey_stream sound rfl
    [.peek 3, .stack (.ofSymbols [(1, none), (6, none)] 0), .next, .pushBack (.bare 7), .peek 9]
    prepared rfl (by simp [Operation.source?]; rfl)
  obtain ⟨stream, streams, -, holds⟩ := obeys after performs
  exact ⟨after, performs, stream, streams, holds⟩

end TableDriven.Feed
