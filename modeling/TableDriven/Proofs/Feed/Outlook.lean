import Mathlib.Data.Stream.Init
import TableDriven.Proofs.Feed.Poll

/-! # The stream that a feed stands for

A feed has an outlook: the tokens of its queue, then for each stacked source, innermost first, what
is left of it up to its end of file and the tokens that resume behind it, and at the bottom the
primary source with its end of file, or an end of file for ever.  `Outlook.Yields` reads the next
token off an outlook; a sentinel token is replaced by the source that the resolver finds for it.
`Outlook.Streams` says that an outlook goes on for ever as a stream.

Nothing here pulls: an outlook is read from its front only, however much of it waits in a queue.
What a source comes to if it ends is `Unrolls`, with the resolver that it leaves.
-/

namespace TableDriven

/-- A source answers a call with a token. -/
def TokenSource.Answers (ε : Type) [TokenSource σ V ε] (source : σ) (token : Token V) (rest : σ) :
    Prop :=
  ∃ (fuel : Nat) (notes : List ε), TokenSource.next fuel source = .ok ⟨.ok token, rest, notes⟩

/-- A source answers one token, and goes on in one way. -/
theorem TokenSource.Answers.unique {ε : Type} [TokenSource σ V ε] [LawfulTokenSource σ V ε]
    {source rest other : σ} {token found : Token V} (answers : Answers ε source token rest)
    (second : Answers ε source found other) : token = found ∧ rest = other := by
  obtain ⟨fuel, notes, answered⟩ := answers
  obtain ⟨enough, noted, again⟩ := second
  have same := (LawfulTokenSource.next_mono answered (Nat.le_max_left fuel enough)).symm.trans
    (LawfulTokenSource.next_mono again (Nat.le_max_right fuel enough))
  cases same
  exact ⟨rfl, rfl⟩

namespace Feed

open TokenSource (Answers)

/-- Something that is still to come: a token, what is left of a source, or an end of file for ever.
-/
inductive Pending (σ V : Type) where
  | token (token : Token V)
  | source (place : Place) (source : σ)
  | eof (token : Token Unit)

/-- All that is still to come, and the resolver of sentinel tokens with their number. -/
structure Outlook (σ ρ V : Type) where
  pending : List (Pending σ V)
  sentinel : Option (Nat × ρ)

variable {σ ρ V ε : Type}

def Frame.pending (frame : Frame σ V) : List (Pending σ V) :=
  .source .stacked frame.source :: frame.resume.toList.map .token

/-- What is still to come behind the stacked sources. -/
def bottom (feed : Feed σ ρ V ε) : Pending σ V :=
  match feed.eof, feed.primary with
  | some eof, _ => .eof eof
  | none, some source => .source .primary source
  | none, none => .eof (.bare feed.eofSymbol)

/-- What is still to come behind the tokens that wait. -/
def beyond (feed : Feed σ ρ V ε) : List (Pending σ V) :=
  feed.frames.flatMap Frame.pending ++ [feed.bottom]

def outlook (feed : Feed σ ρ V ε) : Outlook σ ρ V where
  pending := feed.queue.toList.map .token ++ feed.beyond
  sentinel := feed.sentinel

section
variable (ε) [TokenSource σ V ε] [Resolver ρ σ V ε] (eofSymbol : Nat)

/-- The next token of an outlook, and the outlook behind it.  A sentinel token is replaced by a
source.  The end of file of a stacked source is dropped, and that of the primary one delivered and
repeated. -/
inductive Outlook.Yields : Outlook σ ρ V → Token V → Outlook σ ρ V → Prop where
  | token {token : Token V} {pending : List (Pending σ V)} {sentinel : Option (Nat × ρ)} :
      Yields ⟨.token token :: pending, sentinel⟩ token ⟨pending, sentinel⟩
  | eof {eof : Token Unit} {pending : List (Pending σ V)} {sentinel : Option (Nat × ρ)} :
      Yields ⟨.eof eof :: pending, sentinel⟩ (eof.synthetic eofSymbol)
        ⟨.eof eof :: pending, sentinel⟩
  | delivered {place : Place} {source rest : σ} {token : Token V} {pending : List (Pending σ V)}
      {sentinel : Option (Nat × ρ)} (answers : Answers ε source token rest)
      (inner : token.number ≠ eofSymbol) (ordinary : IsOrdinary sentinel token.number) :
      Yields ⟨.source place source :: pending, sentinel⟩ token
        ⟨.source place rest :: pending, sentinel⟩
  | resolved {place : Place} {source rest included : σ} {token found : Token V} {symbol : Nat}
      {resolver next : ρ} {notes : List ε} {pending : List (Pending σ V)} {after : Outlook σ ρ V}
      (answers : Answers ε source token rest) (inner : token.number ≠ eofSymbol)
      (number : token.number = symbol)
      (resolves : Resolver.resolve resolver token = (.ok included, next, notes))
      (yields : Yields
        ⟨.source .stacked included :: .source place rest :: pending, some (symbol, next)⟩ found
        after) :
      Yields ⟨.source place source :: pending, some (symbol, resolver)⟩ found after
  | finished {source rest : σ} {token found : Token V} {pending : List (Pending σ V)}
      {sentinel : Option (Nat × ρ)} {after : Outlook σ ρ V} (answers : Answers ε source token rest)
      (last : token.number = eofSymbol) (yields : Yields ⟨pending, sentinel⟩ found after) :
      Yields ⟨.source .stacked source :: pending, sentinel⟩ found after
  | ended {source rest : σ} {token : Token V} {pending : List (Pending σ V)}
      {sentinel : Option (Nat × ρ)} (answers : Answers ε source token rest)
      (last : token.number = eofSymbol) :
      Yields ⟨.source .primary source :: pending, sentinel⟩ token
        ⟨.eof token.withoutValue :: pending, sentinel⟩

/-- An outlook goes on for ever as `stream`. -/
def Outlook.Streams (outlook : Outlook σ ρ V) (stream : Stream' (Token V)) : Prop :=
  ∃ path : Nat → Outlook σ ρ V, path 0 = outlook ∧
    ∀ index, Yields ε eofSymbol (path index) (stream.get index) (path (index + 1))

/-- What is left of a source up to its end of file, with the sentinels replaced, and the resolver
that it leaves. -/
inductive Unrolls : Option (Nat × ρ) → σ → List (Token V) → Option (Nat × ρ) → Prop where
  | ended {sentinel : Option (Nat × ρ)} {source rest : σ} {token : Token V}
      (answers : Answers ε source token rest) (last : token.number = eofSymbol) :
      Unrolls sentinel source [] sentinel
  | delivered {sentinel after : Option (Nat × ρ)} {source rest : σ} {token : Token V}
      {tokens : List (Token V)} (answers : Answers ε source token rest)
      (inner : token.number ≠ eofSymbol) (ordinary : IsOrdinary sentinel token.number)
      (unrolls : Unrolls sentinel rest tokens after) :
      Unrolls sentinel source (token :: tokens) after
  | resolved {middle after : Option (Nat × ρ)} {source rest included : σ} {token : Token V}
      {symbol : Nat} {resolver next : ρ} {notes : List ε} {first second : List (Token V)}
      (answers : Answers ε source token rest) (inner : token.number ≠ eofSymbol)
      (number : token.number = symbol)
      (resolves : Resolver.resolve resolver token = (.ok included, next, notes))
      (unrolls : Unrolls (some (symbol, next)) included first middle)
      (further : Unrolls middle rest second after) :
      Unrolls (some (symbol, resolver)) source (first ++ second) after

end

/-! ## Streams -/

namespace Outlook

variable [TokenSource σ V ε] [Resolver ρ σ V ε] {eofSymbol : Nat}
  {outlook after : Outlook σ ρ V} {stream : Stream' (Token V)} {token : Token V}
  {pending : List (Pending σ V)} {sentinel : Option (Nat × ρ)}

/-- A relation under which every outlook yields the next token of its stream. -/
theorem streams_of_kept (related : Outlook σ ρ V → Stream' (Token V) → Prop)
    (kept : ∀ outlook stream, related outlook stream →
      ∃ after, Yields ε eofSymbol outlook stream.head after ∧ related after stream.tail)
    (holds : related outlook stream) : Streams ε eofSymbol outlook stream := by
  choose next yields related_next using kept
  let path (index : Nat) : { outlook : Outlook σ ρ V // related outlook (stream.drop index) } :=
    index.rec ⟨outlook, holds⟩ fun _ before => ⟨next _ _ before.2, by
      rw [← Stream'.tail_drop']
      exact related_next _ _ before.2⟩
  refine ⟨fun index => (path index).1, rfl, fun index => ?_⟩
  have step := yields _ _ (path index).2
  rw [Stream'.head_drop] at step
  exact step

theorem Streams.uncons (streams : Streams ε eofSymbol outlook stream) :
    ∃ after, Yields ε eofSymbol outlook stream.head after ∧
      Streams ε eofSymbol after stream.tail := by
  obtain ⟨path, rfl, steps⟩ := streams
  exact ⟨path 1, steps 0, fun index => path (index + 1), rfl, fun index => steps (index + 1)⟩

theorem Streams.cons (yields : Yields ε eofSymbol outlook token after)
    (streams : Streams ε eofSymbol after stream) :
    Streams ε eofSymbol outlook (Stream'.cons token stream) := by
  obtain ⟨path, rfl, steps⟩ := streams
  refine ⟨fun index => index.casesOn outlook path, rfl, fun index => ?_⟩
  cases index with
  | zero => exact yields
  | succ index => exact steps index

theorem streams_token_iff :
    Streams ε eofSymbol ⟨.token token :: pending, sentinel⟩ stream ↔
      stream.head = token ∧ Streams ε eofSymbol ⟨pending, sentinel⟩ stream.tail := by
  constructor
  · intro streams
    obtain ⟨after, yields, rest⟩ := streams.uncons
    generalize stream.head = head at yields ⊢
    cases yields
    exact ⟨rfl, rest⟩
  · rintro ⟨rfl, streams⟩
    rw [← Stream'.eta stream]
    exact streams.cons .token

theorem streams_tokens_iff {tokens : List (Token V)} :
    Streams ε eofSymbol ⟨tokens.map .token ++ pending, sentinel⟩ stream ↔
      ∃ rest, stream = tokens ++ₛ rest ∧ Streams ε eofSymbol ⟨pending, sentinel⟩ rest := by
  induction tokens generalizing stream with
  | nil => simp
  | cons token tokens ih =>
    rw [List.map_cons, List.cons_append, streams_token_iff, ih]
    constructor
    · rintro ⟨rfl, rest, same, streams⟩
      exact ⟨rest, by rw [Stream'.cons_append_stream, ← same, Stream'.eta], streams⟩
    · rintro ⟨rest, rfl, streams⟩
      exact ⟨rfl, rest, rfl, streams⟩

/-- An end of file goes on for ever. -/
theorem streams_eof (eof : Token Unit) :
    Streams ε eofSymbol (⟨.eof eof :: pending, sentinel⟩ : Outlook σ ρ V)
      (Stream'.const (eof.synthetic eofSymbol)) :=
  ⟨fun _ => ⟨.eof eof :: pending, sentinel⟩, rfl, fun _ => .eof⟩

section
variable [LawfulTokenSource σ V ε]

/-- An outlook yields one token, and goes on in one way. -/
theorem Yields.unique {found : Token V} {other : Outlook σ ρ V}
    (yields : Yields ε eofSymbol outlook token after)
    (second : Yields ε eofSymbol outlook found other) : token = found ∧ after = other := by
  induction yields with
  | token | eof =>
    cases second
    exact ⟨rfl, rfl⟩
  | delivered answers inner ordinary =>
    cases second with
    | delivered again =>
      obtain ⟨rfl, rfl⟩ := answers.unique again
      exact ⟨rfl, rfl⟩
    | resolved again _ number =>
      obtain ⟨rfl, rfl⟩ := answers.unique again
      exact absurd number (ordinary _ rfl)
    | finished again last | ended again last =>
      obtain ⟨rfl, rfl⟩ := answers.unique again
      exact absurd last inner
  | resolved answers inner number resolves _ ih =>
    cases second with
    | delivered again _ ordinary =>
      obtain ⟨rfl, rfl⟩ := answers.unique again
      exact absurd number (ordinary _ rfl)
    | resolved again _ _ resolved second =>
      obtain ⟨rfl, rfl⟩ := answers.unique again
      cases resolves.symm.trans resolved
      exact ih second
    | finished again last | ended again last =>
      obtain ⟨rfl, rfl⟩ := answers.unique again
      exact absurd last inner
  | finished answers last _ ih =>
    cases second with
    | delivered again inner | resolved again inner =>
      obtain ⟨rfl, rfl⟩ := answers.unique again
      exact absurd last inner
    | finished _ _ second => exact ih second
  | ended answers last =>
    cases second with
    | delivered again inner | resolved again inner =>
      obtain ⟨rfl, rfl⟩ := answers.unique again
      exact absurd last inner
    | ended again =>
      obtain ⟨rfl, rfl⟩ := answers.unique again
      exact ⟨rfl, rfl⟩

/-- An outlook has one stream at most. -/
theorem Streams.unique {other : Stream' (Token V)} (streams : Streams ε eofSymbol outlook stream)
    (second : Streams ε eofSymbol outlook other) : stream = other := by
  apply Stream'.ext
  intro index
  induction index generalizing outlook stream other with
  | zero =>
    obtain ⟨_, yields, -⟩ := streams.uncons
    obtain ⟨_, again, -⟩ := second.uncons
    exact (yields.unique again).1
  | succ index ih =>
    obtain ⟨after, yields, rest⟩ := streams.uncons
    obtain ⟨last, again, others⟩ := second.uncons
    obtain ⟨-, rfl⟩ := yields.unique again
    exact ih rest others

end

/-- A source that ends comes before what stands behind it, which the resolver that it leaves
expands. -/
theorem streams_of_unrolls {source : σ} {tokens : List (Token V)} {left : Option (Nat × ρ)}
    (unrolls : Unrolls ε eofSymbol sentinel source tokens left)
    (streams : Streams ε eofSymbol ⟨pending, left⟩ stream) :
    Streams ε eofSymbol ⟨.source .stacked source :: pending, sentinel⟩ (tokens ++ₛ stream) := by
  induction unrolls generalizing pending stream with
  | ended answers last =>
    obtain ⟨after, yields, rest⟩ := streams.uncons
    rw [Stream'.nil_append_stream, ← Stream'.eta stream]
    exact rest.cons (.finished answers last yields)
  | delivered answers inner ordinary _ ih =>
    exact (ih streams).cons (.delivered answers inner ordinary)
  | resolved answers inner number resolves _ _ first second =>
    obtain ⟨after, yields, rest⟩ := (first (second streams)).uncons
    rw [Stream'.append_append_stream, ← Stream'.eta (_ ++ₛ _)]
    exact rest.cons (.resolved answers inner number resolves yields)

/-- What is read off a source, and off the sources that it includes, does not depend on what stands
behind it nor on where it stands. -/
theorem Yields.onto {source : σ} (front : List (Pending σ V))
    (yields : Yields ε eofSymbol ⟨front ++ [.source .stacked source], sentinel⟩ token after)
    (place : Place) (behind : List (Pending σ V)) :
    ∃ front' source', after.pending = front' ++ [.source .stacked source'] ∧
      Yields ε eofSymbol ⟨front ++ .source place source :: behind, sentinel⟩ token
        ⟨front' ++ .source place source' :: behind, after.sentinel⟩ := by
  generalize whole : (⟨front ++ [.source .stacked source], sentinel⟩ : Outlook σ ρ V) = outlook
    at yields
  induction yields generalizing front source sentinel with
  | token =>
    cases front with
    | nil => cases whole
    | cons head front =>
      cases whole
      exact ⟨front, source, rfl, .token⟩
  | eof =>
    cases front with
    | nil => cases whole
    | cons head front =>
      cases whole
      exact ⟨_ :: front, source, rfl, .eof⟩
  | delivered answers inner ordinary =>
    cases front with
    | nil =>
      cases whole
      exact ⟨[], _, rfl, .delivered answers inner ordinary⟩
    | cons head front =>
      cases whole
      exact ⟨_ :: front, source, rfl, .delivered answers inner ordinary⟩
  | @resolved _ _ rest included _ _ _ _ _ _ _ _ answers inner number resolves _ ih =>
    cases front with
    | nil =>
      cases whole
      obtain ⟨front', source', left, yields⟩ :=
        ih [.source .stacked included] rfl
      exact ⟨front', source', left, .resolved answers inner number resolves yields⟩
    | cons head front =>
      cases whole
      obtain ⟨front', source', left, yields⟩ :=
        ih (.source .stacked included :: .source _ rest :: front) rfl
      exact ⟨front', source', left, .resolved answers inner number resolves yields⟩
  | finished answers last yields ih =>
    cases front with
    | nil =>
      cases whole
      cases yields
    | cons head front =>
      cases whole
      obtain ⟨front', source', left, yields⟩ := ih front rfl
      exact ⟨front', source', left, .finished answers last yields⟩
  | ended answers last =>
    cases front with
    | nil => cases whole
    | cons head front =>
      cases whole
      exact ⟨_ :: front, source, rfl, .ended answers last⟩

/-- Behind a source that goes on for ever nothing is reached. -/
theorem Streams.onto {source : σ}
    (streams : Streams ε eofSymbol ⟨[.source .stacked source], sentinel⟩ stream) (place : Place)
    (behind : List (Pending σ V)) :
    Streams ε eofSymbol ⟨.source place source :: behind, sentinel⟩ stream := by
  refine streams_of_kept (fun outlook stream => ∃ front source,
    outlook.pending = front ++ .source place source :: behind ∧
      Streams ε eofSymbol ⟨front ++ [.source .stacked source], outlook.sentinel⟩ stream) ?_
    ⟨[], source, rfl, streams⟩
  rintro ⟨_, sentinel⟩ stream ⟨front, source, rfl, streams⟩
  obtain ⟨⟨_, left⟩, yields, rest⟩ := streams.uncons
  obtain ⟨front', source', rfl, onto⟩ := yields.onto front place behind
  exact ⟨_, onto, front', source', rfl, rest⟩

end Outlook

end Feed

end TableDriven
