import TableDriven.Proofs.Feed.Brings
import TableDriven.Proofs.Feed.Operations

/-! # Feeds without failures

A mended source is a source without the calls that fail and without the sentinel tokens for which
nothing is found, and a mended feed is a feed of mended sources with a resolver that always finds
the same.  Whatever a poll of a feed comes to, and that it fails among it, what lies ahead of the
mended feed stays as it is (`shows_mended_of_poll`); so it does when more than one source is asked.
-/

namespace TableDriven.Feed

/-- What a resolver finds where it goes by the sentinel token alone. -/
structure Finder (σ V : Type) where
  eofSymbol : Nat
  symbol? : Option Nat
  find : Token V → Except StreamFault σ

namespace Finder

variable {σ V : Type} (finder : Finder σ V)

/-- Whether the token is a sentinel for which nothing is found. -/
def refuses (token : Token V) : Bool :=
  finder.symbol? == some token.number && !(finder.find token).isOk

/-- Whether a mended source is without the token.  It keeps its end of file. -/
def drops (token : Token V) : Bool := token.number != finder.eofSymbol && finder.refuses token

end Finder

/-- A source without the calls that fail and the sentinels that are refused. -/
structure Mended {σ V : Type} (finder : Finder σ V) where
  source : σ

/-- A resolver that finds the same for a token whenever it is asked. -/
structure Lookup {τ V : Type} (find : Token V → Except StreamFault τ) where

instance {τ V : Type} {find : Token V → Except StreamFault τ} : Subsingleton (Lookup find) :=
  ⟨fun _ _ => rfl⟩

instance {τ V ε : Type} {find : Token V → Except StreamFault τ} : Resolver (Lookup find) τ V ε where
  resolve lookup token := (find token, lookup, [])

variable {σ ρ V ε : Type} {finder : Finder σ V}

/-- The first token that a source delivers and that is not dropped. -/
def Mended.ask [TokenSource σ V ε] : Nat → σ → Run (Pull (Mended finder) V ε)
  | 0, _ => .error .fuel
  | fuel + 1, source => do
    let pull : Pull σ V ε ← TokenSource.next fuel source
    match pull.answer with
    | .error _ => ask fuel pull.rest
    | .ok token =>
      if finder.drops token then ask fuel pull.rest else return ⟨.ok token, ⟨pull.rest⟩, []⟩

instance [TokenSource σ V ε] : TokenSource (Mended finder) V ε where
  next fuel mended := Mended.ask fuel mended.source
  close mended := TokenSource.close mended.source

/-- What is found, mended. -/
def Finder.findMended (finder : Finder σ V) (token : Token V) :
    Except StreamFault (Mended finder) :=
  (finder.find token).map Mended.mk

/-- The feed whose sources are mended. -/
def mended (finder : Finder σ V) (feed : Feed σ ρ V ε) :
    Feed (Mended finder) (Lookup finder.findMended) V ε where
  primary := feed.primary.map Mended.mk
  frames := feed.frames.map fun frame => ⟨⟨frame.source⟩, frame.resume⟩
  queue := feed.queue
  eof := feed.eof
  eofSymbol := feed.eofSymbol
  sentinel := feed.sentinel.map fun entry => (entry.1, ⟨⟩)
  journal := #[]

section
variable [TokenSource σ V ε] [Resolver ρ σ V ε]

variable (ε) in
/-- What is assumed of good sources and of fit resolvers.  Good sources stay good, and something is
found for their end of file if that is a sentinel; fit resolvers find what the finder finds, and
stay fit. -/
structure Finder.Suits (finder : Finder σ V) (good : σ → Prop) (fit : ρ → Prop) : Prop where
  rest : ∀ {fuel : Nat} {source : σ} {pull : Pull σ V ε}, good source →
    TokenSource.next fuel source = .ok pull → good pull.rest
  last : ∀ {fuel : Nat} {source rest : σ} {token : Token V} {notes : List ε}, good source →
    TokenSource.next fuel source = .ok ⟨.ok token, rest, notes⟩ →
      token.number = finder.eofSymbol → finder.refuses token = false
  finds : ∀ {resolver next : ρ} {token : Token V} {answer : Except StreamFault σ} {notes : List ε},
    fit resolver → Resolver.resolve resolver token = (answer, next, notes) →
      answer = finder.find token ∧ fit next

/-- The primary source is good, and the resolver is fit and has the finder's sentinels. -/
structure Suited (finder : Finder σ V) (good : σ → Prop) (fit : ρ → Prop) (feed : Feed σ ρ V ε) :
    Prop where
  eofSymbol : feed.eofSymbol = finder.eofSymbol
  primary : ∀ source ∈ feed.primary, good source
  symbol : feed.sentinel.map Prod.fst = finder.symbol?
  fit : ∀ entry ∈ feed.sentinel, fit entry.2

end

section
variable [TokenSource σ V ε] [LawfulTokenSource σ V ε] {fuel enough : Nat} {source rest : σ}
  {token : Token V} {notes : List ε}

theorem Mended.ask_mono {pull : Pull (Mended finder) V ε}
    (asked : Mended.ask fuel source = .ok pull) (more : fuel ≤ enough) :
    Mended.ask enough source = .ok pull := by
  induction fuel generalizing source enough with
  | zero => contradiction
  | succ fuel ih =>
    obtain ⟨enough, rfl⟩ : ∃ less, enough = less + 1 := ⟨enough - 1, by omega⟩
    have more : fuel ≤ enough := by omega
    obtain ⟨⟨answer, rest, notes⟩, answered, asked⟩ := bind_eq_ok_iff.mp asked
    refine bind_eq_ok_iff.mpr ⟨_, LawfulTokenSource.next_mono answered more, ?_⟩
    cases answer with
    | error fault => exact ih asked more
    | ok token =>
      dsimp only at asked ⊢
      split at asked
      next drops =>
        rw [if_pos drops]
        exact ih asked more
      next keeps => rw [if_neg keeps, asked]

instance : LawfulTokenSource (Mended finder) V ε where
  next_mono := Mended.ask_mono

omit [LawfulTokenSource σ V ε] in
/-- A token that is not dropped is delivered. -/
theorem Mended.next_of_next (asked : TokenSource.next fuel source = .ok ⟨.ok token, rest, notes⟩)
    (keeps : finder.drops token = false) :
    TokenSource.next (fuel + 1) (⟨source⟩ : Mended finder) =
      .ok (⟨.ok token, ⟨rest⟩, []⟩ : Pull (Mended finder) V ε) := by
  refine bind_eq_ok_iff.mpr ⟨_, asked, ?_⟩
  simp [keeps]

/-- Leaving out a call that fails or delivers a token that is dropped changes nothing. -/
theorem Mended.next_iff_of_next {answer : Except StreamFault (Token V)}
    (asked : TokenSource.next fuel source = .ok ⟨answer, rest, notes⟩)
    (dropped : ∀ token, answer = .ok token → finder.drops token = true)
    (pull : Pull (Mended finder) V ε) :
    (∃ fuel, TokenSource.next fuel (⟨rest⟩ : Mended finder) = .ok pull) ↔
      ∃ fuel, TokenSource.next fuel (⟨source⟩ : Mended finder) = .ok pull := by
  have skips (enough : Nat) (more : fuel ≤ enough) :
      (Mended.ask (enough + 1) source : Run (Pull (Mended finder) V ε)) =
        Mended.ask enough rest := by
    rw [Mended.ask, LawfulTokenSource.next_mono asked more, ok_bind]
    cases answer with
    | error fault => rfl
    | ok token => simp [dropped token rfl]
  constructor
  · rintro ⟨enough, asked⟩
    refine ⟨max fuel enough + 1, ?_⟩
    exact (skips _ (Nat.le_max_left fuel enough)).trans
      (Mended.ask_mono asked (Nat.le_max_right fuel enough))
  · rintro ⟨enough, asked⟩
    refine ⟨max fuel enough, ?_⟩
    exact (skips _ (Nat.le_max_left fuel enough)).symm.trans
      (Mended.ask_mono asked (show enough ≤ max fuel enough + 1 by omega))

end

/-! ## Mended feeds -/

section
variable {feed next : Feed σ ρ V ε}

theorem Asks.mended {place : Place} {source : σ} (asks : feed.Asks place source) :
    (feed.mended finder).Asks place ⟨source⟩ := by
  cases asks with
  | @stacked frame outer frames =>
    have mapped : (feed.mended finder).frames = ⟨⟨frame.source⟩, frame.resume⟩ :: _ :=
      congrArg (List.map _) frames
    have asks := Asks.stacked mapped
    exact asks
  | primary frames eof primary =>
    exact .primary (congrArg (List.map _) frames) eof (congrArg (Option.map Mended.mk) primary)

theorem IsOver.mended {eof : Token Unit} (isOver : feed.IsOver eof) :
    (feed.mended finder).IsOver eof := by
  cases isOver with
  | seen frames seen => exact .seen (congrArg (List.map _) frames) seen
  | closed frames eof primary =>
    exact .closed (congrArg (List.map _) frames) eof (congrArg (Option.map Mended.mk) primary)

theorem mended_replied (rest : σ) (notes : List ε) :
    (feed.replied rest notes).mended finder = (feed.mended finder).replied ⟨rest⟩ [] := by
  obtain ⟨primary, frames, queue, eof, eofSymbol, sentinel, journal⟩ := feed
  cases frames <;> rfl

theorem Behind.mended {front : List (Token V)} {other : Feed σ ρ V ε}
    (behind : Behind front feed other) : Behind front (feed.mended finder) (other.mended finder)
    where
  primary := congrArg (Option.map Mended.mk) behind.primary
  frames := congrArg (List.map _) behind.frames
  eof := behind.eof
  eofSymbol := behind.eofSymbol
  sentinel := congrArg (Option.map _) behind.sentinel
  queue := behind.queue

variable [TokenSource σ V ε] [Resolver ρ σ V ε] {good : σ → Prop} {fit : ρ → Prop} {fuel : Nat}
  {token : Token V} {place : Place} {source rest : σ} {notes : List ε}

omit [TokenSource σ V ε] [Resolver ρ σ V ε] in
theorem Suited.exhausted (suited : feed.Suited finder good fit) (eof : Token V) :
    (feed.exhausted eof).Suited finder good fit :=
  ⟨suited.eofSymbol, suited.primary, suited.symbol, suited.fit⟩

namespace Suited

variable (suits : finder.Suits ε good fit) (suited : feed.Suited finder good fit)
include suits suited

theorem replied {answer : Except StreamFault (Token V)} (asks : feed.Asks place source)
    (asked : TokenSource.next fuel source = .ok ⟨answer, rest, notes⟩) :
    (feed.replied rest notes).Suited finder good fit := by
  obtain ⟨eofSymbol, primary, symbol, fit⟩ := suited
  refine ⟨by simpa using eofSymbol, ?_, by simpa using symbol, by simpa using fit⟩
  cases asks with
  | stacked frames => simpa [Feed.replied, frames, noteAll] using primary
  | primary frames eof there =>
    simpa [Feed.replied, frames, noteAll] using suits.rest (primary source there) asked

theorem took {answer : Except StreamFault Bool} (took : feed.Took token answer next) :
    next.Suited finder good fit := by
  obtain ⟨eofSymbol, primary, symbol, fit⟩ := suited
  cases took with
  | waits => exact ⟨eofSymbol, primary, symbol, fit⟩
  | included sentinel number resolves | refused sentinel number resolves =>
    refine ⟨eofSymbol, primary, ?_, ?_⟩
    · simpa [including, noteAll, sentinel] using symbol
    · rintro entry ⟨⟩
      exact (suits.finds (fit _ sentinel) resolves).2

theorem poll {answer : Except StreamFault Bool} (polled : feed.poll fuel = .ok (answer, next)) :
    next.Suited finder good fit := by
  cases polled_of_poll polled with
  | past => exact ⟨suited.eofSymbol, suited.primary, suited.symbol, suited.fit⟩
  | failed asks asked => exact suited.replied suits asks asked
  | inner asks asked _ took => exact (suited.replied suits asks asked).took suits took
  | finished frames asked =>
    obtain ⟨eofSymbol, primary, symbol, fit⟩ := suited.replied suits (.stacked frames) asked
    exact ⟨eofSymbol, primary, symbol, fit⟩
  | ended frames eof primary asked _ took =>
    have further := suited.replied suits (.primary frames eof primary) asked
    exact (further.exhausted _).took suits took

end Suited

/-- What is found for a token that comes from a source is found by the mended feed, too. -/
theorem Took.mended {filled : Bool} (took : feed.Took token (.ok filled) next)
    (suits : finder.Suits ε good fit) (suited : feed.Suited finder good fit) :
    finder.refuses token = false ∧
      (feed.mended finder).Took token (.ok filled) (next.mended finder) := by
  have symbol := suited.symbol
  cases took with
  | waits ordinary =>
    refine ⟨?_, .waits ?_⟩
    · cases sentinel : feed.sentinel with
      | none => simp [Finder.refuses, ← symbol, sentinel]
      | some entry => simp [Finder.refuses, ← symbol, sentinel, (ordinary entry sentinel).symm]
    · rintro _ there
      obtain ⟨entry, sentinel, rfl⟩ := Option.map_eq_some_iff.mp there
      exact ordinary entry sentinel
  | @included number resolver after source notes sentinel same resolves =>
    obtain ⟨found, -⟩ := suits.finds (suited.fit _ sentinel) resolves
    refine ⟨by simp [Finder.refuses, ← found, Except.isOk, Except.toBool], ?_⟩
    have told : Resolver.resolve (⟨⟩ : Lookup finder.findMended) token =
        (.ok (⟨source⟩ : Mended finder), ⟨⟩, ([] : List ε)) := by
      simp only [Resolver.resolve, Finder.findMended, ← found]
      rfl
    exact Took.included (congrArg (Option.map _) sentinel) same told

/-- A token for which nothing is found leaves no trace in the mended feed. -/
theorem Took.mended_refused {fault : StreamFault} (took : feed.Took token (.error fault) next)
    (suits : finder.Suits ε good fit) (suited : feed.Suited finder good fit) :
    finder.refuses token = true ∧ next.mended finder = feed.mended finder := by
  have symbol := suited.symbol
  cases took with
  | refused sentinel number resolves =>
    obtain ⟨found, -⟩ := suits.finds (suited.fit _ sentinel) resolves
    constructor
    · simp [Finder.refuses, ← found, ← symbol, sentinel, number, Except.isOk, Except.toBool]
    · simp [Feed.mended, noteAll, sentinel]

omit [Resolver ρ σ V ε] in
/-- What is left out of a source makes no difference to the mended feed. -/
theorem shows_mended_replied [LawfulTokenSource σ V ε] {distance : Nat} {found : Token V}
    {answer : Except StreamFault (Token V)} (asks : feed.Asks place source)
    (asked : TokenSource.next fuel source = .ok ⟨answer, rest, notes⟩)
    (dropped : ∀ token, answer = .ok token → finder.drops token = true) :
    ((feed.replied rest notes).mended finder).Shows distance found ↔
      (feed.mended finder).Shows distance found := by
  rw [mended_replied]
  exact shows_replied_iff asks.mended (Mended.next_iff_of_next asked dropped)

omit [TokenSource σ V ε] [Resolver ρ σ V ε] in
/-- The end of file is not dropped. -/
theorem Suited.keeps_last (suited : feed.Suited finder good fit)
    (last : token.number = feed.eofSymbol) : finder.drops token = false := by
  simp [Finder.drops, last, suited.eofSymbol]

section
variable (suits : finder.Suits ε good fit) (suited : feed.Suited finder good fit)
include suits suited

/-- A poll that succeeds does so for the mended feed, too. -/
theorem Suited.poll_mended {filled : Bool} (polled : feed.poll fuel = .ok (.ok filled, next)) :
    ∃ fuel after, (feed.mended finder).poll fuel = .ok (.ok filled, after) ∧
      Behind [] after (next.mended finder) := by
  have same (feed : Feed (Mended finder) (Lookup finder.findMended) V ε) : Behind [] feed feed :=
    ⟨rfl, rfl, rfl, rfl, rfl, rfl⟩
  generalize fine : (.ok filled : Except StreamFault Bool) = answer at polled
  cases polled_of_poll polled with
  | failed => cases fine
  | past isOver => exact ⟨fuel, _, (Polled.past isOver.mended).poll_eq, same _⟩
  | @inner place source rest token notes _ _ asks asked inner took =>
    cases fine
    obtain ⟨found, took⟩ := took.mended suits (suited.replied suits asks asked)
    rw [mended_replied] at took
    have keeps : finder.drops token = false := by simp [Finder.drops, found]
    have asked := Mended.next_of_next asked keeps
    exact ⟨_, _, (Polled.inner asks.mended asked inner took).poll_eq, same _⟩
  | @finished frame outer rest token notes frames asked last =>
    have frames : (feed.mended finder).frames = ⟨⟨frame.source⟩, frame.resume⟩ :: _ :=
      congrArg (List.map _) frames
    have asked := Mended.next_of_next asked (suited.keeps_last last)
    refine ⟨_, _, (Polled.finished frames asked last).poll_eq, ?_⟩
    rw [← mended_replied rest notes]
    exact ⟨rfl, rfl, rfl, rfl, rfl, rfl⟩
  | @ended source rest token notes _ _ frames eof primary asked last took =>
    cases fine
    have asks := Asks.primary frames eof primary
    have took : (((feed.mended finder).replied ⟨rest⟩ []).exhausted token).Took token (.ok filled)
        (next.mended finder) := by
      rw [← mended_replied rest notes]
      exact (took.mended suits ((suited.replied suits asks asked).exhausted token)).2
    have asked := Mended.next_of_next asked (suited.keeps_last last)
    have asks : (feed.mended finder).Asks .primary ⟨source⟩ := asks.mended
    cases asks with
    | primary frames eof primary =>
      exact ⟨_, _, (Polled.ended frames eof primary asked last took).poll_eq, same _⟩

variable [LawfulTokenSource σ V ε] {distance : Nat} {found : Token V}

/-- Whatever comes of a poll leaves what lies ahead of the mended feed as it is. -/
theorem Suited.shows_mended_of_poll {answer : Except StreamFault Bool}
    (polled : feed.poll fuel = .ok (answer, next)) :
    (next.mended finder).Shows distance found ↔ (feed.mended finder).Shows distance found := by
  cases answer with
  | ok filled =>
    obtain ⟨fuel, after, again, behind⟩ := suited.poll_mended suits polled
    rw [← shows_of_poll again]
    exact behind.shows_nil_iff.symm
  | error fault =>
    generalize failed : (.error fault : Except StreamFault Bool) = answer at polled
    cases polled_of_poll polled with
    | past | finished => cases failed
    | failed asks asked => exact shows_mended_replied asks asked (by rintro _ ⟨⟩)
    | @inner place source rest token notes _ _ asks asked inner took =>
      cases failed
      obtain ⟨refused, same⟩ := took.mended_refused suits (suited.replied suits asks asked)
      rw [same]
      refine shows_mended_replied asks asked ?_
      rintro _ ⟨⟩
      simp [Finder.drops, refused, ← suited.eofSymbol, inner]
    | @ended source rest token notes _ _ frames eof primary asked last took =>
      cases failed
      have asks := Asks.primary frames eof primary
      have further := (suited.replied suits asks asked).exhausted token
      have refused := (took.mended_refused suits further).1
      rw [suits.last (suited.primary source primary) asked (last.trans suited.eofSymbol)] at refused
      cases refused

end

end

end TableDriven.Feed
