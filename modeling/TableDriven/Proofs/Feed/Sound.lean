import TableDriven.Proofs.Feed.Outlook

/-! # Outlooks that do not run dry

Sources and a resolver are `Sound` if they do not fail and includes are nested finitely: behind
finitely many of them there is a token, or the end of the source.  Then an outlook that holds such
sources goes on for ever as a stream, unless each of its sources ends (`Sound.streams_or_ends`).
What a feed stands for always goes on, since at the bottom of it an end of file is repeated.
-/

namespace TableDriven.Feed

open TokenSource (Answers)
open Outlook (Yields)

variable {σ ρ V ε : Type}

section
variable (ε) [TokenSource σ V ε] [Resolver ρ σ V ε]

/-- Sources and a resolver that do not fail, with includes that are nested finitely.  The end of
file is no sentinel; what is left of a source, and what is included for one of its tokens, is as
good as the source; and behind finitely many includes there is a token or the end of the source. -/
structure Sound (eofSymbol : Nat) (good : σ → Prop) (fit : Option (Nat × ρ) → Prop) : Prop where
  proper : ∀ {sentinel}, fit sentinel → IsOrdinary sentinel eofSymbol
  rest : ∀ {source rest token}, good source → Answers ε source token rest →
    token.number ≠ eofSymbol → good rest
  included : ∀ {source rest included token symbol resolver next} {notes : List ε}, good source →
    fit (some (symbol, resolver)) → Answers ε source token rest → token.number = symbol →
    Resolver.resolve resolver token = (.ok included, next, notes) →
      good included ∧ fit (some (symbol, next))
  settles : ∀ {source sentinel}, good source → fit sentinel →
    (∃ token after, Yields ε eofSymbol ⟨[.source .stacked source], sentinel⟩ token after) ∨
      ∃ left, Unrolls ε eofSymbol sentinel source [] left

/-- What is to come ends, and no token is ever repeated: every source of it ends. -/
inductive Outlook.Ends (eofSymbol : Nat) : Outlook σ ρ V → Prop where
  | nothing {sentinel : Option (Nat × ρ)} : Ends eofSymbol ⟨[], sentinel⟩
  | token {token : Token V} {pending : List (Pending σ V)} {sentinel : Option (Nat × ρ)}
      (ends : Ends eofSymbol ⟨pending, sentinel⟩) :
      Ends eofSymbol ⟨.token token :: pending, sentinel⟩
  | source {source : σ} {tokens : List (Token V)} {pending : List (Pending σ V)}
      {sentinel left : Option (Nat × ρ)} (unrolls : Unrolls ε eofSymbol sentinel source tokens left)
      (ends : Ends eofSymbol ⟨pending, left⟩) :
      Ends eofSymbol ⟨.source .stacked source :: pending, sentinel⟩

end

/-- All sources that are still to come are good. -/
def Stocked (good : σ → Prop) (pending : List (Pending σ V)) : Prop :=
  ∀ place source, .source place source ∈ pending → good source

@[simp] theorem stocked_nil {good : σ → Prop} : Stocked good ([] : List (Pending σ V)) := by
  simp [Stocked]

@[simp] theorem stocked_token_iff {good : σ → Prop} {token : Token V}
    {pending : List (Pending σ V)} :
    Stocked good (.token token :: pending) ↔ Stocked good pending := by
  simp [Stocked]

@[simp] theorem stocked_eof_iff {good : σ → Prop} {eof : Token Unit}
    {pending : List (Pending σ V)} :
    Stocked good (.eof eof :: pending) ↔ Stocked good pending := by
  simp [Stocked]

@[simp] theorem stocked_source_iff {good : σ → Prop} {place : Place} {source : σ}
    {pending : List (Pending σ V)} :
    Stocked good (.source place source :: pending) ↔ good source ∧ Stocked good pending := by
  constructor
  · intro stocked
    refine ⟨stocked place source (by simp), fun place source inside => ?_⟩
    exact stocked place source (by simp [inside])
  · rintro ⟨holds, stocked⟩ place source inside
    obtain ⟨rfl, rfl⟩ | inside := by simpa using inside
    · exact holds
    · exact stocked _ _ inside

@[simp] theorem stocked_tokens_iff {good : σ → Prop} {tokens : List (Token V)}
    {pending : List (Pending σ V)} :
    Stocked good (tokens.map .token ++ pending) ↔ Stocked good pending := by
  induction tokens with
  | nil => simp
  | cons token tokens ih => simpa using ih

variable [TokenSource σ V ε] [Resolver ρ σ V ε] {eofSymbol : Nat} {good : σ → Prop}
  {fit : Option (Nat × ρ) → Prop} {outlook after : Outlook σ ρ V} {token : Token V}
  {pending : List (Pending σ V)} {sentinel left : Option (Nat × ρ)} {source : σ}
  {tokens : List (Token V)}

/-- Reading an outlook keeps its sources good and its resolver fit. -/
theorem Sound.kept (sound : Sound ε eofSymbol good fit)
    (yields : Yields ε eofSymbol outlook token after) (stocked : Stocked good outlook.pending)
    (fits : fit outlook.sentinel) : Stocked good after.pending ∧ fit after.sentinel := by
  induction yields with
  | token => exact ⟨stocked_token_iff.mp stocked, fits⟩
  | eof => exact ⟨stocked, fits⟩
  | delivered answers inner =>
    obtain ⟨holds, others⟩ := stocked_source_iff.mp stocked
    exact ⟨stocked_source_iff.mpr ⟨sound.rest holds answers inner, others⟩, fits⟩
  | resolved answers inner number resolves _ ih =>
    obtain ⟨holds, others⟩ := stocked_source_iff.mp stocked
    obtain ⟨included, fits⟩ := sound.included holds fits answers number resolves
    apply ih _ fits
    simp only [stocked_source_iff]
    exact ⟨included, sound.rest holds answers inner, others⟩
  | finished _ _ _ ih => exact ih (stocked_source_iff.mp stocked).2 fits
  | ended => exact ⟨stocked_eof_iff.mpr (stocked_source_iff.mp stocked).2, fits⟩

/-- The resolver that a source leaves is fit. -/
theorem Sound.fit_of_unrolls (sound : Sound ε eofSymbol good fit)
    (unrolls : Unrolls ε eofSymbol sentinel source tokens left) (holds : good source)
    (fits : fit sentinel) : fit left := by
  induction unrolls with
  | ended => exact fits
  | delivered answers inner _ _ ih => exact ih (sound.rest holds answers inner) fits
  | resolved answers inner number resolves _ _ first second =>
    obtain ⟨included, fits⟩ := sound.included holds fits answers number resolves
    exact second (sound.rest holds answers inner) (first included fits)

/-- Of a source with nothing left the end of file is to come, and what it leads to. -/
theorem Unrolls.exists_last (unrolls : Unrolls ε eofSymbol sentinel source tokens left)
    (nothing : tokens = []) :
    ∃ last rest token, Answers ε last token rest ∧ token.number = eofSymbol ∧
      ∀ place pending found after,
        Yields ε eofSymbol (⟨.source place last :: pending, left⟩ : Outlook σ ρ V) found after →
          Yields ε eofSymbol ⟨.source place source :: pending, sentinel⟩ found after := by
  induction unrolls with
  | ended answers last => exact ⟨_, _, _, answers, last, fun _ _ _ _ yields => yields⟩
  | delivered => contradiction
  | resolved answers inner number resolves _ _ first second =>
    obtain ⟨noFirst, noSecond⟩ := List.append_eq_nil_iff.mp nothing
    obtain ⟨_, _, _, ends, last, before⟩ := first noFirst
    obtain ⟨_, _, _, endsAfter, lastAfter, behind⟩ := second noSecond
    refine ⟨_, _, _, endsAfter, lastAfter, fun place pending found after yields => ?_⟩
    have further := Yields.finished ends last (behind _ _ _ _ yields)
    exact .resolved answers inner number resolves (before _ _ _ _ further)

/-- A source yields a token or ends behind a sentinel token if what is included for it does, and
then the rest. -/
theorem settles_of_resolved {rest included : σ} {symbol : Nat} {resolver next : ρ}
    {notes : List ε} (answers : Answers ε source token rest) (inner : token.number ≠ eofSymbol)
    (number : token.number = symbol)
    (resolves : Resolver.resolve resolver token = (.ok included, next, notes))
    (first : (∃ found after, Yields ε eofSymbol
      ⟨[.source .stacked included], some (symbol, next)⟩ found after) ∨
        Unrolls ε eofSymbol (some (symbol, next)) included [] left)
    (second : (∃ found after, Yields ε eofSymbol ⟨[.source .stacked rest], left⟩ found after) ∨
      ∃ last, Unrolls ε eofSymbol left rest [] last) :
    (∃ found after, Yields ε eofSymbol
      ⟨[.source .stacked source], some (symbol, resolver)⟩ found after) ∨
        ∃ last, Unrolls ε eofSymbol (some (symbol, resolver)) source [] last := by
  obtain ⟨_, _, yields⟩ | unrolls := first
  · obtain ⟨_, _, -, onto⟩ := yields.onto [] .stacked [.source .stacked rest]
    exact .inl ⟨_, _, .resolved answers inner number resolves onto⟩
  · obtain ⟨_, _, yields⟩ | ⟨last, further⟩ := second
    · obtain ⟨_, _, _, ends, here, leads⟩ := unrolls.exists_last rfl
      have behind := leads _ _ _ _ (.finished ends here yields)
      exact .inl ⟨_, _, .resolved answers inner number resolves behind⟩
    · exact .inr ⟨last, .resolved answers inner number resolves unrolls further⟩

/-- An outlook of good sources yields a token, or ends. -/
theorem Sound.yields_or_ends (sound : Sound ε eofSymbol good fit) (stocked : Stocked good pending)
    (fits : fit sentinel) :
    (∃ token after, Yields ε eofSymbol ⟨pending, sentinel⟩ token after) ∨
      Outlook.Ends ε eofSymbol ⟨pending, sentinel⟩ := by
  induction pending generalizing sentinel with
  | nil => exact .inr .nothing
  | cons first pending ih =>
    cases first with
    | token token => exact .inl ⟨_, _, .token⟩
    | eof eof => exact .inl ⟨_, _, .eof⟩
    | source place source =>
      obtain ⟨holds, others⟩ := stocked_source_iff.mp stocked
      obtain ⟨token, after, yields⟩ | ⟨left, unrolls⟩ := sound.settles holds fits
      · obtain ⟨_, _, -, onto⟩ := yields.onto [] place pending
        exact .inl ⟨_, _, onto⟩
      · obtain ⟨_, _, _, answers, last, leads⟩ := unrolls.exists_last rfl
        cases place with
        | primary => exact .inl ⟨_, _, leads _ _ _ _ (.ended answers last)⟩
        | stacked =>
          obtain ⟨token, after, yields⟩ | ends :=
            ih others (sound.fit_of_unrolls unrolls holds fits)
          · exact .inl ⟨_, _, leads _ _ _ _ (.finished answers last yields)⟩
          · exact .inr (.source unrolls ends)

/-- What ends behind its next token ends. -/
theorem Outlook.Yields.ends (yields : Yields ε eofSymbol outlook token after)
    (ends : after.Ends ε eofSymbol) : outlook.Ends ε eofSymbol := by
  induction yields with
  | token => exact .token ends
  | eof => exact ends
  | delivered answers inner ordinary =>
    cases ends with
    | source unrolls ends => exact .source (.delivered answers inner ordinary unrolls) ends
  | resolved answers inner number resolves _ ih =>
    cases ih ends with
    | source unrolls ends =>
      cases ends with
      | source further ends =>
        exact .source (.resolved answers inner number resolves unrolls further) ends
  | finished answers last _ ih => exact .source (.ended answers last) (ih ends)
  | ended => cases ends

/-! ## Streams -/

/-- An outlook of good sources goes on for ever, or ends. -/
theorem Sound.streams_or_ends (sound : Sound ε eofSymbol good fit)
    (stocked : Stocked good pending) (fits : fit sentinel) :
    (∃ stream, Outlook.Streams ε eofSymbol ⟨pending, sentinel⟩ stream) ∨
      Outlook.Ends ε eofSymbol ⟨pending, sentinel⟩ := by
  by_cases ends : Outlook.Ends ε eofSymbol ⟨pending, sentinel⟩
  · exact .inr ends
  · let goes (outlook : Outlook σ ρ V) : Prop :=
      Stocked good outlook.pending ∧ fit outlook.sentinel ∧ ¬ outlook.Ends ε eofSymbol
    have step (outlook : { outlook // goes outlook }) :
        ∃ (token : Token V) (after : { outlook // goes outlook }),
          Yields ε eofSymbol outlook.1 token after.1 := by
      obtain ⟨outlook, stocked, fits, endless⟩ := outlook
      obtain ⟨token, after, yields⟩ := (sound.yields_or_ends stocked fits).resolve_right endless
      obtain ⟨others, fit⟩ := sound.kept yields stocked fits
      exact ⟨token, ⟨after, others, fit, fun ends => endless (yields.ends ends)⟩, yields⟩
    choose token next yields using step
    let path (index : Nat) : { outlook // goes outlook } :=
      index.rec ⟨⟨pending, sentinel⟩, stocked, fits, ends⟩ fun _ before => next before
    exact .inl ⟨fun index => token (path index), fun index => (path index).1, rfl,
      fun index => yields (path index)⟩

/-- A good source ends, or goes on for ever. -/
theorem Sound.unrolls_or_streams (sound : Sound ε eofSymbol good fit) (holds : good source)
    (fits : fit sentinel) :
    (∃ tokens left, Unrolls ε eofSymbol sentinel source tokens left) ∨
      ∃ stream, Outlook.Streams ε eofSymbol ⟨[.source .stacked source], sentinel⟩ stream := by
  have stocked : Stocked good ([.source .stacked source] : List (Pending σ V)) := by
    simpa using holds
  obtain streams | ends := sound.streams_or_ends stocked fits
  · exact .inr streams
  · cases ends with
    | source unrolls => exact .inl ⟨_, _, unrolls⟩

section
variable (ε) (σ V)

omit [TokenSource σ V ε] in
/-- What the resolver finds for a token does not depend on what it was asked before. -/
def IsSteady (fit : Option (Nat × ρ) → Prop) : Prop :=
  ∀ {symbol : Nat} {first second next : ρ} {token : Token V} {source : σ} {notes : List ε},
    fit (some (symbol, first)) → fit (some (symbol, second)) →
    Resolver.resolve first token = (.ok source, next, notes) →
      ∃ (next : ρ) (notes : List ε), Resolver.resolve second token = (.ok source, next, notes)

end

/-- Two states of a resolver, of the same sentinel tokens. -/
structure Fellows (fit : Option (Nat × ρ) → Prop) (sentinel other : Option (Nat × ρ)) : Prop where
  first : fit sentinel
  second : fit other
  number : sentinel.map Prod.fst = other.map Prod.fst

theorem Sound.fellows_of_unrolls (sound : Sound ε eofSymbol good fit)
    (unrolls : Unrolls ε eofSymbol sentinel source tokens left) (holds : good source)
    (fits : fit sentinel) : Fellows fit left sentinel := by
  refine ⟨sound.fit_of_unrolls unrolls holds fits, fits, ?_⟩
  clear holds fits
  induction unrolls with
  | ended => rfl
  | delivered _ _ _ _ ih => exact ih
  | resolved _ _ _ _ _ _ first second => exact second.trans first

/-- Which state a steady resolver is in makes no difference to the next token. -/
theorem Sound.yields_of_steady (sound : Sound ε eofSymbol good fit) (steady : IsSteady σ V ε fit)
    (yields : Yields ε eofSymbol outlook token after) (stocked : Stocked good outlook.pending)
    {sentinel : Option (Nat × ρ)} (fellows : Fellows fit outlook.sentinel sentinel) :
    ∃ left, Yields ε eofSymbol ⟨outlook.pending, sentinel⟩ token ⟨after.pending, left⟩ ∧
      Fellows fit after.sentinel left := by
  induction yields generalizing sentinel with
  | token => exact ⟨_, .token, fellows⟩
  | eof => exact ⟨_, .eof, fellows⟩
  | delivered answers inner ordinary =>
    refine ⟨_, .delivered answers inner ?_, fellows⟩
    intro entry found
    obtain ⟨known, same, number⟩ := Option.map_eq_some_iff.mp
      (fellows.number.trans (congrArg (Option.map Prod.fst) found))
    rw [← number]
    exact ordinary known same
  | resolved answers inner number resolves _ ih =>
    obtain ⟨holds, others⟩ := stocked_source_iff.mp stocked
    obtain ⟨included, fits⟩ := sound.included holds fellows.first answers number resolves
    cases sentinel with
    | none => cases fellows.number
    | some entry =>
      obtain ⟨symbol, resolver⟩ := entry
      obtain rfl := Option.some.inj fellows.number
      obtain ⟨next, notes, again⟩ := steady fellows.first fellows.second resolves
      have still : Fellows fit (some (_, _)) (some (_, next)) :=
        ⟨fits, (sound.included holds fellows.second answers number again).2, rfl⟩
      obtain ⟨left, yields, still⟩ :=
        ih (by simpa using ⟨included, sound.rest holds answers inner, others⟩) still
      exact ⟨left, .resolved answers inner number again yields, still⟩
  | finished answers last _ ih =>
    obtain ⟨left, yields, still⟩ := ih (stocked_source_iff.mp stocked).2 fellows
    exact ⟨left, .finished answers last yields, still⟩
  | ended answers last => exact ⟨_, .ended answers last, fellows⟩

theorem Sound.streams_of_steady (sound : Sound ε eofSymbol good fit) (steady : IsSteady σ V ε fit)
    {stream : Stream' (Token V)} (streams : Outlook.Streams ε eofSymbol ⟨pending, sentinel⟩ stream)
    (stocked : Stocked good pending) (fellows : Fellows fit sentinel left) :
    Outlook.Streams ε eofSymbol ⟨pending, left⟩ stream := by
  refine Outlook.streams_of_kept (fun outlook stream => ∃ sentinel,
    Outlook.Streams ε eofSymbol ⟨outlook.pending, sentinel⟩ stream ∧
      Stocked good outlook.pending ∧ Fellows fit sentinel outlook.sentinel) ?_
    ⟨sentinel, streams, stocked, fellows⟩
  rintro ⟨pending, left⟩ stream ⟨sentinel, streams, stocked, fellows⟩
  obtain ⟨⟨behind, middle⟩, yields, rest⟩ := streams.uncons
  obtain ⟨others, -⟩ := sound.kept yields stocked fellows.first
  obtain ⟨last, again, still⟩ := sound.yields_of_steady steady yields stocked fellows
  exact ⟨_, again, middle, rest, others, still⟩

end TableDriven.Feed
