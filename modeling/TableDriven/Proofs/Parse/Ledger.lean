import TableDriven.Proofs.Feed.Resumes
import TableDriven.Proofs.Parse.Produce

/-! # The books of a parse

Every token that a parse has shifted or deleted is entered in order, as one of the stream's own or
as one that a repair inserted (`Books.ofEvents`).  `Accounts` says that books balance: the own
tokens are the first ones of the stream, the inserted ones and those still pending are all that
repairs have inserted, and behind the pending tokens the feed goes on with the rest of the stream.
A shift, a token that is put back and a repair keep the balance (`Accounts.shifted`,
`Accounts.waits`, `Accounts.repaired`).
-/

namespace TableDriven

open TableDriven.Parser

namespace Parse

variable {σ ρ φ V ε : Type}

/-- What was done to a token. -/
inductive Fate where
  | shifted
  | deleted
  deriving DecidableEq

/-- A token that was dealt with.  It `isOwn` if the stream delivered it and no repair inserted it.
-/
structure Entry (V : Type) where
  fate : Fate
  token : Token V
  isOwn : Bool

namespace Event

/-- The tokens that were dealt with, and what was done to them. -/
def fates : Event V → List (Fate × Token V)
  | .shifted token => [(.shifted, token)]
  | .reduced _ => []
  | .repaired _ _ deleted => deleted.map fun token => (.deleted, token)

/-- The tokens that were inserted: they have no value and stand where the token in error stands. -/
def inserted (table : LrTable) : Event V → List (Token V)
  | .shifted _ | .reduced _ => []
  | .repaired _ ⟨_, .nothing, _⟩ _ => []
  | .repaired token ⟨_, .single symbol, _⟩ _ => [token.synthetic symbol]
  | .repaired token ⟨_, .continuation symbols, _⟩ _ =>
    symbols.map fun _ => token.synthetic table.markerNumber.toNat

/-- What was reported, and the token in error. -/
def report? : Event V → Option (Token V × Report)
  | .shifted _ | .reduced _ => none
  | .repaired token repair deleted => some (token, .ofRepair repair (deleted.map Token.number))

theorem inserted_eq {parse : Parse σ ρ φ V ε} {table : LrTable} (same : parse.table = table)
    (token : Token V) (repair : Repair) (deleted : List (Token V)) :
    inserted table (.repaired token repair deleted) = parse.inserted token repair.insertion := by
  obtain ⟨deletions, insertion, cost⟩ := repair
  subst same
  cases insertion <;> rfl

@[simp] theorem fates_reduced (productions : List Nat) :
    (productions.map (.reduced : Nat → Event V)).flatMap fates = [] := by
  simp [List.flatMap_map, fates]

@[simp] theorem inserted_reduced (table : LrTable) (productions : List Nat) :
    (productions.map (.reduced : Nat → Event V)).flatMap (inserted table) = [] := by
  simp [List.flatMap_map, inserted]

end Event

/-- Enters tokens that were taken: first come those that were pending, then the stream's own. -/
def entered (fate : Fate) (pending taken : List (Token V)) : List (Entry V) :=
  (taken.take pending.length).map (⟨fate, ·, false⟩) ++
    (taken.drop pending.length).map (⟨fate, ·, true⟩)

/-- What was dealt with, and the inserted tokens that are still pending, the next one first. -/
structure Books (V : Type) where
  entries : List (Entry V)
  pending : List (Token V)

namespace Books

/-- The tokens that the stream delivered. -/
def own (books : Books V) : List (Token V) := (books.entries.filter Entry.isOwn).map Entry.token

/-- The tokens that repairs inserted and that were dealt with. -/
def inserted (books : Books V) : List (Token V) :=
  (books.entries.filter fun entry => !entry.isOwn).map Entry.token

/-- Tokens are taken, and others are put in front of what is left. -/
def enter (books : Books V) (fate : Fate) (taken front : List (Token V)) : Books V where
  entries := books.entries ++ entered fate books.pending taken
  pending := front ++ books.pending.drop taken.length

/-- Enters what happened. -/
def keep (table : LrTable) (books : Books V) : Event V → Books V
  | .shifted token => books.enter .shifted [token] []
  | .reduced _ => books
  | .repaired token repair deleted =>
    books.enter .deleted deleted (Event.inserted table (.repaired token repair deleted)).reverse

/-- The books of all that happened. -/
def ofEvents (table : LrTable) (events : List (Event V)) : Books V :=
  events.foldl (keep table) ⟨[], []⟩

variable (table : LrTable) (books : Books V) (fate : Fate) (pending taken front : List (Token V))

theorem filter_isOwn_entered :
    (entered fate pending taken).filter Entry.isOwn =
      (taken.drop pending.length).map (⟨fate, ·, true⟩) := by
  rw [entered, List.filter_append, List.filter_eq_nil_iff.mpr, List.filter_eq_self.mpr,
    List.nil_append] <;> grind

theorem filter_not_isOwn_entered :
    ((entered fate pending taken).filter fun entry => !entry.isOwn) =
      (taken.take pending.length).map (⟨fate, ·, false⟩) := by
  rw [entered, List.filter_append, List.filter_eq_self.mpr, List.filter_eq_nil_iff.mpr,
    List.append_nil] <;> grind

@[simp] theorem own_enter :
    (books.enter fate taken front).own = books.own ++ taken.drop books.pending.length := by
  rw [own, enter, List.filter_append, filter_isOwn_entered, List.map_append, List.map_map]
  exact congrArg _ (List.map_id _)

@[simp] theorem inserted_enter :
    (books.enter fate taken front).inserted =
      books.inserted ++ taken.take books.pending.length := by
  rw [inserted, enter, List.filter_append, filter_not_isOwn_entered, List.map_append,
    List.map_map]
  exact congrArg _ (List.map_id _)

theorem fates_entered :
    (entered fate pending taken).map (fun entry => (entry.fate, entry.token)) =
      taken.map fun token => (fate, token) := by
  rw [entered, List.map_append, List.map_map, List.map_map]
  exact List.map_append.symm.trans (congrArg _ (List.take_append_drop _ _))

theorem mem_entered_iff {entry : Entry V} : entry ∈ entered fate pending taken ↔
    entry.fate = fate ∧ entry.token ∈
      bif entry.isOwn then taken.drop pending.length else taken.take pending.length := by
  obtain ⟨other, token, _ | _⟩ := entry <;>
    simp only [entered, List.mem_append, List.mem_map, Entry.mk.injEq] <;> grind

@[simp] theorem keep_reduced (productions : List Nat) :
    (productions.map (.reduced : Nat → Event V)).foldl (keep table) books = books := by
  induction productions with
  | nil => rfl
  | cons production productions ih => exact ih

theorem ofEvents_append (events more : List (Event V)) :
    ofEvents table (events ++ more) = more.foldl (keep table) (ofEvents table events) :=
  List.foldl_append

end Books

/-! ## The balance -/

variable [TokenSource σ V ε] [Resolver ρ σ V ε] {table : LrTable}
  {whole feed next : Feed σ ρ V ε} {events more : List (Event V)} {books : Books V}
  {parse after : Parse σ ρ φ V ε} {token : Token V}

/-- Books of these events balance: all that was shifted or deleted is entered in order, the own
tokens are the first ones of the stream `whole`, what was inserted is entered or pending, and this
feed delivers what is pending and then the rest of the stream. -/
structure Accounts (table : LrTable) (whole : Feed σ ρ V ε) (events : List (Event V))
    (books : Books V) (feed : Feed σ ρ V ε) : Prop where
  fates : books.entries.map (fun entry => (entry.fate, entry.token)) = events.flatMap Event.fates
  own : ∀ distance token, books.own[distance]? = some token → whole.Shows distance token
  inserted : (books.inserted ++ books.pending).Perm (events.flatMap (Event.inserted table))
  resumes : feed.Resumes books.pending whole books.own.length

theorem accounts_start (feed : Feed σ ρ V ε) : Accounts table feed [] (.ofEvents table []) feed where
  fates := rfl
  own := fun _ _ there => nomatch there
  inserted := .refl _
  resumes := feed.resumes_self

/-- Tokens are taken from the front and entered, and others are put in front. -/
theorem Accounts.enter [LawfulTokenSource σ V ε] {event : Event V} {fate : Fate}
    {taken front : List (Token V)} (accounts : Accounts table whole events books feed)
    (fates : event.fates = taken.map fun token => (fate, token))
    (inserted : front.Perm (event.inserted table))
    (shown : ∀ distance token, taken[distance]? = some token → feed.Shows distance token)
    (stand : ∀ distance token, distance < front.length →
      (next.Shows distance token ↔ front[distance]? = some token))
    (rest : ∀ distance token, next.Shows (front.length + distance) token ↔
      feed.Shows (taken.length + distance) token) :
    Accounts table whole (events ++ [event]) (books.enter fate taken front) next where
  fates := by
    rw [Books.enter, List.map_append, accounts.fates, Books.fates_entered, ← fates,
      List.flatMap_append, List.flatMap_singleton]
  own := by
    intro distance token there
    rw [Books.own_enter] at there
    by_cases old : distance < books.own.length
    · rw [List.getElem?_append_left old] at there
      exact accounts.own distance token there
    · rw [List.getElem?_append_right (by omega)] at there
      have later := accounts.resumes.shows_taken shown there
      rwa [Nat.add_sub_of_le (by omega)] at later
  inserted := by
    rw [Books.inserted_enter, accounts.resumes.take_eq shown, List.flatMap_append,
      List.flatMap_singleton]
    refine (List.perm_append_comm.append_left _).trans ?_
    rw [← List.append_assoc, List.append_assoc _ _ (books.pending.drop taken.length),
      List.take_append_drop]
    exact accounts.inserted.append inserted
  resumes := by
    rw [Books.own_enter, List.length_append, List.length_drop]
    exact accounts.resumes.splice stand rest

theorem Accounts.reduced (accounts : Accounts table whole events books feed)
    (productions : List Nat)
    (same : ∀ distance token, next.Shows distance token ↔ feed.Shows distance token) :
    Accounts table whole (events ++ productions.map .reduced) books next where
  fates := by simpa using accounts.fates
  own := accounts.own
  inserted := by simpa using accounts.inserted
  resumes := accounts.resumes.congr same

theorem Faces.exists_next {symbol : Nat} {action : Action} {decided : Parse σ ρ φ V ε}
    (faces : parse.Faces token symbol action decided) :
    ∃ fuel next, parse.feed.next fuel = .ok (.ok token, next) ∧
      decided.feed = next.takeJournal.2 := by
  cases faces with
  | unwound fetches | named fetches =>
    obtain ⟨⟨told, next⟩, taken, fetches⟩ := bind_eq_ok_iff.mp fetches
    cases fetches
    exact ⟨_, next, taken, rfl⟩

variable [ValueFactory φ V ε]

/-- A turn that shifts takes the token in front. -/
theorem Turns.exists_shifted {symbol : Nat} (turns : parse.Turns more (.shifted symbol, after)) :
    ∃ token, ∃ productions : List Nat, more = .shifted token :: productions.map .reduced ∧
      ∃ fuel next, parse.feed.next fuel = .ok (.ok token, next) ∧
        after.feed = next.takeJournal.2 := by
  cases turns with
  | shifted faces => exact ⟨_, [], rfl, faces.exists_next⟩
  | shiftReduced faces chains =>
    obtain ⟨fuel, next, taken, left⟩ := faces.exists_next
    exact ⟨_, _, rfl, fuel, next, taken, chains.keeps.feed.trans left⟩
  | @reduced _ _ _ _ _ ending _ _ _ _ same => cases ending <;> cases same

/-- A turn that does not shift leaves what lies ahead as it is. -/
theorem Turns.shows_iff [LawfulTokenSource σ V ε] {turn : Turn V}
    (turns : parse.Turns more (turn, after)) (waits : turn = .reduced ∨ turn = .stuck) :
    (∃ productions : List Nat, more = productions.map .reduced) ∧
      ∀ distance token, after.feed.Shows distance token ↔ parse.feed.Shows distance token := by
  cases turns with
  | failed | shifted => simp at waits
  | @shiftReduced _ _ _ _ _ ending _ _ _ _ same =>
    subst same
    cases ending <;> simp [Turn.unless] at waits
  | stuck faces =>
    obtain ⟨fuel, next, taken, left⟩ := faces.exists_next
    refine ⟨⟨[], rfl⟩, fun distance found => ?_⟩
    rw [Parse.pushBack, left]
    exact Feed.shows_pushBack_of_next taken distance found
  | reduced faces chains =>
    obtain ⟨fuel, next, taken, left⟩ := faces.exists_next
    refine ⟨⟨_, rfl⟩, fun distance found => ?_⟩
    rw [chains.keeps.feed, Parse.pushBack, left]
    exact Feed.shows_pushBack_of_next taken distance found

theorem Turns.reports_eq {turn : Turn V} (turns : parse.Turns more (turn, after)) :
    after.reports = parse.reports := by
  have quiet {next : Parse σ ρ φ V ε} (tells : parse.Tells [] next) :
      next.reports = parse.reports := by
    rw [tells.reports_eq, List.append_nil]
  cases turns with
  | failed failed => exact quiet (tells_nextToken failed)
  | shifted faces | stuck faces =>
    have kept := quiet faces.tells
    exact kept
  | shiftReduced faces chains | reduced faces chains =>
    have kept := quiet faces.tells
    exact chains.keeps.reports.trans kept

/-- A turn makes no repair. -/
theorem Turns.report?_eq {turn : Turn V} (turns : parse.Turns more (turn, after)) :
    more.filterMap Event.report? = [] := by
  cases turns with
  | failed | shifted | stuck => rfl
  | shiftReduced | reduced => simp [Event.report?]

section
variable [LawfulTokenSource σ V ε] {searched : Parse σ ρ φ V ε} {fuel : Nat}

omit [ValueFactory φ V ε] in
/-- A look ahead leaves what lies ahead as it is. -/
theorem shows_of_peek {distance : Nat}
    (peeked : parse.peek fuel distance = .ok (.ok token, searched)) :
    parse.feed.Shows distance token ∧
      ∀ other found, searched.feed.Shows other found ↔ parse.feed.Shows other found := by
  obtain ⟨⟨told, next⟩, looked, peeked⟩ := bind_eq_ok_iff.mp peeked
  cases peeked
  exact ⟨⟨fuel, next, looked⟩, fun other found =>
    Feed.shows_takeJournal_iff.trans (Feed.shows_of_peek looked)⟩

omit [ValueFactory φ V ε] in
/-- A search leaves what lies ahead as it is. -/
theorem shows_of_answer {α : Type} {search : Repair.Search α} {result : α}
    (answered : parse.answer fuel search = .ok (.ok result, searched)) (distance : Nat)
    (token : Token V) :
    searched.feed.Shows distance token ↔ parse.feed.Shows distance token := by
  induction search generalizing parse with
  | done other =>
    cases answered
    rfl
  | ask probe further ih =>
    cases probe with
    | broken why => cases answered
    | lost =>
      have noted : (parse.note .lost).answer fuel (further ()) = .ok (.ok result, searched) :=
        answered
      have later := ih () noted
      exact later
    | symbol away =>
      simp only [answer, bind_eq_ok_iff] at answered
      obtain ⟨⟨told, middle⟩, peeked, answered⟩ := answered
      cases told with
      | error fault => cases answered
      | ok found =>
        rw [ih _ answered]
        exact (shows_of_peek peeked).2 distance token

omit [ValueFactory φ V ε] in
theorem shows_of_findRepair {found : Option Repair}
    (searches : parse.findRepair fuel = .ok (.ok found, searched)) (distance : Nat)
    (token : Token V) :
    searched.feed.Shows distance token ↔ parse.feed.Shows distance token := by
  rw [findRepair] at searches
  split at searches
  next =>
    obtain ⟨⟨told, middle⟩, answered, searches⟩ := bind_eq_ok_iff.mp searches
    split at searches
    next same =>
      cases same
      cases searches
      exact shows_of_answer answered distance token
    next =>
      cases searches
      exact shows_of_answer answered distance token
  next =>
    cases searches
    rfl

omit [ValueFactory φ V ε] in
/-- The tokens that a repair deletes are the next ones. -/
theorem shows_of_mem_deleted {repair : Repair} {distance : Nat}
    (found : parse.findRepair fuel = .ok (.ok (some repair), searched))
    (there : (searched.feed.queue.toList.take repair.deletions)[distance]? = some token) :
    parse.feed.Shows distance token := by
  rw [← shows_of_findRepair found]
  apply Feed.shows_of_waits
  rw [Queue.get?_eq]
  rw [List.getElem?_take] at there
  split at there
  next => exact there
  next => cases there

section
variable (accounts : Accounts table whole events books parse.feed)
include accounts

omit [ValueFactory φ V ε] in
/-- A token that is taken from the feed and shifted is entered; the reductions behind it are not. -/
theorem Accounts.shift (taken : parse.feed.next fuel = .ok (.ok token, next))
    (productions : List Nat) :
    (.shifted token :: productions.map .reduced).foldl (Books.keep table) books =
        books.enter .shifted [token] [] ∧
      Accounts table whole (events ++ .shifted token :: productions.map .reduced)
        (books.enter .shifted [token] []) next.takeJournal.2 := by
  obtain ⟨first, rest⟩ := Feed.shows_of_next taken
  have entered : Accounts table whole (events ++ [.shifted token])
      (books.enter .shifted [token] []) next.takeJournal.2 := by
    refine accounts.enter rfl (.refl []) ?_ (fun _ _ near => nomatch near) ?_
    · intro distance found there
      cases distance with
      | zero =>
        cases there
        exact first
      | succ distance => simp at there
    · intro distance found
      rw [Feed.shows_takeJournal_iff, List.length_nil, Nat.zero_add, rest, List.length_singleton,
        Nat.add_comm]
  refine ⟨Books.keep_reduced table _ productions, ?_⟩
  simpa using entered.reduced productions fun _ _ => Iff.rfl

theorem Accounts.shifted {symbol : Nat} (turns : parse.Turns more (.shifted symbol, after)) :
    ∃ token, more.foldl (Books.keep table) books = books.enter .shifted [token] [] ∧
      Accounts table whole (events ++ more) (books.enter .shifted [token] []) after.feed := by
  obtain ⟨token, productions, rfl, fuel, next, taken, left⟩ := turns.exists_shifted
  exact ⟨token, left ▸ accounts.shift taken productions⟩

theorem Accounts.waits {turn : Turn V} (turns : parse.Turns more (turn, after))
    (waits : turn = .reduced ∨ turn = .stuck) :
    more.foldl (Books.keep table) books = books ∧
      Accounts table whole (events ++ more) books after.feed := by
  obtain ⟨⟨productions, rfl⟩, same⟩ := turns.shows_iff waits
  exact ⟨Books.keep_reduced table books productions, accounts.reduced productions same⟩

omit [ValueFactory φ V ε] in
theorem Accounts.repaired {next : Parse σ ρ φ V ε} {repair : Repair} {deleted : List (Token V)}
    (tabled : parse.table = table)
    (found : parse.findRepair fuel = .ok (.ok (some repair), searched))
    (front : searched.feed.queue.toList.head? = some token)
    (dropped : deleted = searched.feed.queue.toList.take repair.deletions)
    (applied : searched.apply fuel repair = .ok (.ok (), next)) :
    [.repaired token repair deleted].foldl (Books.keep table) books =
        books.enter .deleted deleted (parse.inserted token repair.insertion).reverse ∧
      Accounts table whole (events ++ [.repaired token repair deleted])
        (books.enter .deleted deleted (parse.inserted token repair.insertion).reverse)
        next.feed := by
  subst dropped
  obtain ⟨other, repaired, first, made, -, stands⟩ := apply_ok_of_found found
  cases front.symm.trans first
  cases applied.symm.trans made
  obtain ⟨reader, valid⟩ := valid_of_found found
  have enough := Nat.le_of_lt (lt_length_of_valid valid).2
  have count : (searched.feed.queue.toList.take repair.deletions).length = repair.deletions := by
    rw [List.length_take, Nat.min_eq_left enough]
  have same := Event.inserted_eq tabled token repair
    (searched.feed.queue.toList.take repair.deletions)
  obtain ⟨stand, rest⟩ :=
    Feed.shows_of_behind (Feed.behind_queue searched.feed) stands.feed enough
  refine ⟨by rw [← same]; rfl, accounts.enter rfl (same ▸ List.reverse_perm _)
    (fun _ _ => shows_of_mem_deleted found) stand fun distance token => ?_⟩
  rw [count, ← shows_of_findRepair found]
  exact rest distance token

end

end

end Parse

end TableDriven
