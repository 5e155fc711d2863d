import TableDriven.Log
import TableDriven.Queue
import TableDriven.Token.Source

/-! # Feeds

A feed stands between token sources and a parser.  Tokens can be pushed back and looked at ahead
of their turn, and other sources can be stacked on the primary one: by a call, or because a
sentinel token came up, which a resolver turns into the source to take its place.  A stacked
source is used up to its end of file, which is dropped.  The end of file of the primary source is
kept and delivered for ever.
-/

namespace TableDriven

/-- A state that turns sentinel tokens into sources and makes notes of type `ε`. -/
class Resolver (ρ σ V ε : Type) where
  resolve : ρ → Token V → Except StreamFault σ × ρ × List ε

/-- Where nothing is a sentinel there is no resolver. -/
instance : Resolver Empty σ V ε := ⟨fun resolver _ => nomatch resolver⟩

namespace Feed

/-- A stacked source and the tokens that were pending when it was stacked, which come after it. -/
structure Frame (σ V : Type) where
  source : σ
  resume : Queue (Token V)
  deriving Inhabited

/-- An item of a feed's journal: a source was stacked on `depth` others while `pending` tokens were
waiting, or ended and left `depth` others, or a source or the resolver made a note. -/
inductive Notice (ε : Type) where
  | included (depth pending : Nat)
  | finished (depth : Nat)
  | noted (note : ε)
  deriving Inhabited

def Notice.entry? : Notice ε → Option Log.Entry
  | .included depth pending =>
    some ⟨.debug, s!"include at depth {depth} ({pending} pending tokens)"⟩
  | .finished depth => some ⟨.debug, s!"include finished, back to depth {depth}"⟩
  | .noted _ => none

end Feed

/-- A feed over sources `σ` with resolvers `ρ`.  The stacked sources, `frames`, stand innermost
first; `eof` is the end of file of the primary source, once it was seen, and `sentinel` the number
of sentinel tokens and their resolver. -/
structure Feed (σ ρ V ε : Type) where
  primary : Option σ
  frames : List (Feed.Frame σ V)
  queue : Queue (Token V)
  eof : Option (Token Unit)
  eofSymbol : Nat
  sentinel : Option (Nat × ρ)
  journal : Array (Feed.Notice ε)
  deriving Inhabited

namespace Feed

/-- A feed from one source. -/
def ofSource (source : σ) (eofSymbol : Nat) : Feed σ ρ V ε where
  primary := some source
  frames := []
  queue := .empty
  eof := none
  eofSymbol := eofSymbol
  sentinel := none
  journal := #[]

variable [TokenSource σ V ε] [Resolver ρ σ V ε] (feed : Feed σ ρ V ε)

def note (notice : Notice ε) : Feed σ ρ V ε := { feed with journal := feed.journal.push notice }

def noteAll (notes : List ε) : Feed σ ρ V ε :=
  { feed with journal := feed.journal.appendList (notes.map .noted) }

def takeJournal : List (Notice ε) × Feed σ ρ V ε :=
  (feed.journal.toList, { feed with journal := #[] })

/-- Lets a resolver replace the tokens numbered `symbol`. -/
def setResolver (symbol : Nat) (resolver : ρ) : Feed σ ρ V ε :=
  { feed with sentinel := some (symbol, resolver) }

def depth : Nat := feed.frames.length

/-- Puts a token in front of all others. -/
def pushBack (token : Token V) : Feed σ ρ V ε := { feed with queue := feed.queue.pushFront token }

def enqueue (token : Token V) : Feed σ ρ V ε := { feed with queue := feed.queue.pushBack token }

/-- Stacks a source: its tokens come before all that are pending. -/
def includeSource (source : σ) : Feed σ ρ V ε :=
  note { feed with frames := ⟨source, feed.queue⟩ :: feed.frames, queue := .empty }
    (.included feed.depth feed.queue.size)

/-- Closes every source that is open, innermost first, and drops the pending tokens. -/
def close : Feed σ ρ V ε :=
  let notes := (feed.frames.map Frame.source ++ feed.primary.toList).flatMap TokenSource.close
  noteAll { feed with frames := [], primary := none, queue := .empty } notes

/-- Closes the innermost stacked source, whose state is `source`; its resume tokens come next. -/
def finishFrame (source : σ) (resume : Queue (Token V)) (outer : List (Frame σ V)) :
    Feed σ ρ V ε :=
  let feed := noteAll { feed with frames := outer, queue := feed.queue.append resume }
    (TokenSource.close source)
  feed.note (.finished outer.length)

/-- Takes a token from a source: a sentinel is replaced by the source that the resolver finds,
any other token waits its turn.  Answers whether there is a new token. -/
def take (token : Token V) : Except StreamFault Bool × Feed σ ρ V ε :=
  match feed.sentinel with
  | none => (.ok true, feed.enqueue token)
  | some (symbol, resolver) =>
    if token.number = symbol then
      let (answer, resolver, notes) := Resolver.resolve resolver token
      let feed := noteAll { feed with sentinel := some (symbol, resolver) } notes
      match answer with
      | .error fault => (.error fault, feed)
      | .ok source => (.ok false, { feed with frames := ⟨source, .empty⟩ :: feed.frames })
    else (.ok true, feed.enqueue token)

/-- Asks the innermost source once.  Answers whether there is a new token. -/
def poll (fuel : Nat) (feed : Feed σ ρ V ε) : Run (Except StreamFault Bool × Feed σ ρ V ε) :=
  match feed.frames, feed.eof, feed.primary with
  | frame :: outer, _, _ => do
    let pull ← TokenSource.next fuel frame.source
    let frames := { frame with source := pull.rest } :: outer
    let feed := noteAll { feed with frames } pull.notes
    match pull.answer with
    | .error fault => return (.error fault, feed)
    | .ok token =>
      if token.number = feed.eofSymbol then
        return (.ok (!frame.resume.isEmpty), feed.finishFrame pull.rest frame.resume outer)
      else return feed.take token
  | [], some eof, _ => return (.ok true, feed.enqueue (eof.synthetic feed.eofSymbol))
  | [], none, some source => do
    let pull ← TokenSource.next fuel source
    let feed := noteAll { feed with primary := some pull.rest } pull.notes
    match pull.answer with
    | .error fault => return (.error fault, feed)
    | .ok token =>
      let eof := if token.number = feed.eofSymbol then some token.withoutValue else none
      return take { feed with eof } token
  | [], none, none => return (.ok true, feed.enqueue (.bare feed.eofSymbol))

/-- Asks the sources until there is a new token. -/
def pull : Nat → Feed σ ρ V ε → Run (Except StreamFault Unit × Feed σ ρ V ε)
  | 0, _ => .error .fuel
  | fuel + 1, feed => do
    match ← poll fuel feed with
    | (.error fault, feed) => return (.error fault, feed)
    | (.ok true, feed) => return (.ok (), feed)
    | (.ok false, feed) => pull fuel feed

/-- Delivers the next token. -/
def next (fuel : Nat) (feed : Feed σ ρ V ε) :
    Run (Except StreamFault (Token V) × Feed σ ρ V ε) := do
  match feed.queue.pop? with
  | some (token, queue) => return (.ok token, { feed with queue })
  | none =>
    match ← pull fuel feed with
    | (.error fault, feed) => return (.error fault, feed)
    | (.ok (), feed) =>
      match feed.queue.pop? with
      | some (token, queue) => return (.ok token, { feed with queue })
      | none => throw .index

/-- The token `distance` places ahead; the next one is 0 places ahead.  Nothing is consumed. -/
def peek : Nat → Feed σ ρ V ε → Nat → Run (Except StreamFault (Token V) × Feed σ ρ V ε)
  | 0, _, _ => .error .fuel
  | fuel + 1, feed, distance =>
    match feed.queue.get? distance with
    | some token => return (.ok token, feed)
    | none => do
      match ← pull fuel feed with
      | (.error fault, feed) => return (.error fault, feed)
      | (.ok (), feed) => peek fuel feed distance

end Feed

end TableDriven
