import TableDriven.Proofs.Feed.Custody

/-! # What the journal of a feed tells

A feed only ever adds to its journal, so whoever takes its notices and keeps them in order has the
journal of a feed from which none were taken: `preceded` puts them back, and calls go the same way
on both (`next_preceded`, `peek_preceded`).  From the notes of sources and resolvers that tell of
their failures, `faults` reads these off: a call that answers is none of them, and one that fails is
the last (`Hears.next`, `Hears.peek`).  If good sources make only notes of one kind, a feed of them
journals no other (`IsDiscreet.performs`).
-/

namespace TableDriven.Feed

variable {σ ρ V ε : Type} {feed next : Feed σ ρ V ε} {earlier : Array (Notice ε)}

/-- The feed with the notices that were taken from it. -/
def preceded (feed : Feed σ ρ V ε) (earlier : Array (Notice ε)) : Feed σ ρ V ε :=
  { feed with journal := earlier ++ feed.journal }

@[simp] theorem queue_preceded : (feed.preceded earlier).queue = feed.queue := rfl

theorem noteAll_preceded (feed : Feed σ ρ V ε) (notes : List ε) :
    (feed.preceded earlier).noteAll notes = (feed.noteAll notes).preceded earlier := by
  have journal : (earlier ++ feed.journal).appendList (notes.map .noted) =
      earlier ++ feed.journal.appendList (notes.map .noted) := by
    rw [← Array.toList_inj]
    simp [Array.appendList_eq_append]
  simp only [preceded, noteAll, journal]

theorem note_preceded (notice : Notice ε) :
    (feed.preceded earlier).note notice = (feed.note notice).preceded earlier := by
  simp [preceded, note]

/-- Notices that are taken later come behind those that were taken earlier. -/
theorem takeJournal_preceded :
    feed.takeJournal.2.preceded (earlier ++ feed.journal) = feed.preceded earlier := by
  simp [takeJournal, preceded]

theorem replied_preceded (rest : σ) (notes : List ε) :
    (feed.preceded earlier).replied rest notes = (feed.replied rest notes).preceded earlier := by
  have same : (feed.preceded earlier).frames = feed.frames := rfl
  unfold replied
  rw [same]
  cases feed.frames with
  | cons frame outer =>
    exact noteAll_preceded { feed with frames := { frame with source := rest } :: outer } notes
  | nil => exact noteAll_preceded { feed with primary := some rest, frames := [] } notes

section
variable [TokenSource σ V ε]

theorem close_preceded : (feed.preceded earlier).close = feed.close.preceded earlier :=
  noteAll_preceded { feed with frames := [], primary := none, queue := .empty } _

theorem finishFrame_preceded (source : σ) (resume : Queue (Token V)) (outer : List (Frame σ V)) :
    (feed.preceded earlier).finishFrame source resume outer =
      (feed.finishFrame source resume outer).preceded earlier := by
  let left : Feed σ ρ V ε := { feed with frames := outer, queue := feed.queue.append resume }
  have closed : (left.preceded earlier).noteAll (TokenSource.close source) =
      (left.noteAll (TokenSource.close source)).preceded earlier := noteAll_preceded left _
  exact (congrArg (·.note (.finished outer.length)) closed).trans (note_preceded _)

end

section
variable [Resolver ρ σ V ε] {token : Token V} {fuel : Nat}

theorem Took.preceded {answer : Except StreamFault Bool} (took : feed.Took token answer next) :
    (feed.preceded earlier).Took token answer (next.preceded earlier) := by
  cases took with
  | waits ordinary => exact .waits ordinary
  | included sentinel number resolves =>
    rw [including, ← noteAll_preceded]
    exact .included sentinel number resolves
  | refused sentinel number resolves =>
    rw [← noteAll_preceded]
    exact .refused sentinel number resolves

variable [TokenSource σ V ε]

theorem Polled.preceded {answer : Except StreamFault Bool} (polled : feed.Polled fuel answer next) :
    (feed.preceded earlier).Polled fuel answer (next.preceded earlier) := by
  have asks {place : Place} {source : σ} (asks : feed.Asks place source) :
      (feed.preceded earlier).Asks place source := by
    cases asks with
    | stacked frames => exact .stacked frames
    | primary frames eof primary => exact .primary frames eof primary
  cases polled with
  | past isOver =>
    refine .past ?_
    cases isOver with
    | seen frames seen => exact .seen frames seen
    | closed frames eof primary => exact .closed frames eof primary
  | failed asking asked =>
    rw [← replied_preceded]
    exact .failed (asks asking) asked
  | inner asking asked inner took =>
    refine .inner (asks asking) asked inner ?_
    rw [replied_preceded]
    exact took.preceded
  | finished frames asked last =>
    rw [← finishFrame_preceded, ← replied_preceded]
    exact .finished frames asked last
  | ended frames eof primary asked last took =>
    refine .ended frames eof primary asked last ?_
    rw [replied_preceded]
    exact took.preceded

theorem pull_preceded {answer : Except StreamFault Unit}
    (pulled : feed.pull fuel = .ok (answer, next)) :
    (feed.preceded earlier).pull fuel = .ok (answer, next.preceded earlier) := by
  induction fuel generalizing feed with
  | zero => contradiction
  | succ fuel ih =>
    obtain ⟨⟨told, middle⟩, polled, pulled⟩ := bind_eq_ok_iff.mp pulled
    refine bind_eq_ok_iff.mpr ⟨_, (polled_of_poll polled).preceded.poll_eq, ?_⟩
    cases told with
    | error fault =>
      cases pulled
      rfl
    | ok filled =>
      cases filled with
      | true =>
        cases pulled
        rfl
      | false => exact ih pulled

theorem next_preceded {answer : Except StreamFault (Token V)}
    (taken : feed.next fuel = .ok (answer, next)) :
    (feed.preceded earlier).next fuel = .ok (answer, next.preceded earlier) := by
  unfold Feed.next at taken ⊢
  rw [queue_preceded]
  split at taken
  next =>
    cases taken
    rfl
  next =>
    obtain ⟨⟨told, middle⟩, pulled, taken⟩ := bind_eq_ok_iff.mp taken
    refine bind_eq_ok_iff.mpr ⟨_, pull_preceded pulled, ?_⟩
    cases told with
    | error fault =>
      cases taken
      rfl
    | ok done =>
      dsimp only at taken ⊢
      rw [queue_preceded]
      split at taken <;> cases taken
      rfl

theorem peek_preceded {distance : Nat} {answer : Except StreamFault (Token V)}
    (peeked : feed.peek fuel distance = .ok (answer, next)) :
    (feed.preceded earlier).peek fuel distance = .ok (answer, next.preceded earlier) := by
  induction fuel generalizing feed with
  | zero => contradiction
  | succ fuel ih =>
    unfold Feed.peek at peeked ⊢
    rw [queue_preceded]
    split at peeked
    next =>
      cases peeked
      rfl
    next =>
      obtain ⟨⟨told, middle⟩, pulled, peeked⟩ := bind_eq_ok_iff.mp peeked
      refine bind_eq_ok_iff.mpr ⟨_, pull_preceded pulled, ?_⟩
      cases told with
      | error fault =>
        cases peeked
        rfl
      | ok done => exact ih peeked

theorem Performs.append {middle after : Feed σ ρ V ε} {first second : List (Operation σ V)}
    (front : feed.Performs first middle) (back : middle.Performs second after) :
    feed.Performs (first ++ second) after := by
  induction front with
  | done => exact back
  | call performed _ ih => exact .call performed (ih back)

end

/-! ## Failures that were noted -/

/-- The failure that an answer is, if it is one. -/
def fault? {α : Type} : Except StreamFault α → Option StreamFault
  | .ok _ => none
  | .error fault => some fault

/-- Reads the failures off the notes of sources and resolvers: of each failure what `heard` says,
and nothing else. -/
structure Hears (σ ρ V : Type) {ε : Type} [TokenSource σ V ε] [Resolver ρ σ V ε]
    (read : ε → Option StreamFault) (heard : StreamFault → Option StreamFault) : Prop where
  next : ∀ {fuel : Nat} {source : σ} {pull : Pull σ V ε},
    TokenSource.next fuel source = .ok pull →
      pull.notes.filterMap read = ((fault? pull.answer).bind heard).toList
  close : ∀ source : σ, (TokenSource.close source : List ε).filterMap read = []
  resolve : ∀ {resolver rest : ρ} {token : Token V} {answer : Except StreamFault σ}
    {notes : List ε}, Resolver.resolve resolver token = (answer, rest, notes) →
      notes.filterMap read = ((fault? answer).bind heard).toList

def Notice.fault? (read : ε → Option StreamFault) : Notice ε → Option StreamFault
  | .noted note => read note
  | .included _ _ | .finished _ => none

/-- The failures that were noted, the first one first. -/
def faults (read : ε → Option StreamFault) (feed : Feed σ ρ V ε) : List StreamFault :=
  feed.journal.toList.filterMap (Notice.fault? read)

variable {read : ε → Option StreamFault}

@[simp] theorem faults_noteAll (feed : Feed σ ρ V ε) (notes : List ε) :
    (feed.noteAll notes).faults read = feed.faults read ++ notes.filterMap read := by
  simp [faults, noteAll, Array.appendList_eq_append, List.filterMap_map, Function.comp_def,
    Notice.fault?]

theorem faults_replied (rest : σ) (notes : List ε) :
    (feed.replied rest notes).faults read = feed.faults read ++ notes.filterMap read := by
  unfold replied
  split <;> exact faults_noteAll _ notes

section
variable {heard : StreamFault → Option StreamFault} {fuel : Nat} {token : Token V}
  [TokenSource σ V ε] [Resolver ρ σ V ε] (hears : Hears σ ρ V read heard)
include hears

theorem Hears.finishFrame (source : σ) (resume : Queue (Token V)) (outer : List (Frame σ V)) :
    (feed.finishFrame source resume outer).faults read = feed.faults read := by
  let left : Feed σ ρ V ε := { feed with frames := outer, queue := feed.queue.append resume }
  have closed : (left.noteAll (TokenSource.close source)).faults read = feed.faults read := by
    rw [faults_noteAll, hears.close, List.append_nil]
    rfl
  have noted (feed : Feed σ ρ V ε) (left : Nat) :
      (feed.note (.finished left)).faults read = feed.faults read := by
    simp [faults, note, Notice.fault?]
  exact (noted _ _).trans closed

theorem Hears.took {answer : Except StreamFault Bool} (took : feed.Took token answer next) :
    next.faults read = feed.faults read ++ ((fault? answer).bind heard).toList := by
  cases took with
  | waits => exact (List.append_nil _).symm
  | included sentinel number resolves =>
    rw [including, faults_noteAll, hears.resolve resolves]
    rfl
  | refused sentinel number resolves =>
    rw [faults_noteAll, hears.resolve resolves]
    rfl

theorem Hears.polled {answer : Except StreamFault Bool} (polled : feed.Polled fuel answer next) :
    next.faults read = feed.faults read ++ ((fault? answer).bind heard).toList := by
  have silent {source rest : σ} {token : Token V} {notes : List ε}
      (asked : TokenSource.next fuel source = .ok ⟨.ok token, rest, notes⟩) :
      (feed.replied rest notes).faults read = feed.faults read := by
    rw [faults_replied, hears.next asked]
    exact List.append_nil _
  cases polled with
  | past => exact (List.append_nil _).symm
  | failed asks asked =>
    rw [faults_replied, hears.next asked]
    rfl
  | inner asks asked inner took => rw [hears.took took, silent asked]
  | finished frames asked last =>
    rw [hears.finishFrame, silent asked]
    exact (List.append_nil _).symm
  | ended frames eof primary asked last took =>
    rw [hears.took took]
    exact congrArg (· ++ _) (silent asked)

theorem Hears.pull {answer : Except StreamFault Unit}
    (pulled : feed.pull fuel = .ok (answer, next)) :
    next.faults read = feed.faults read ++ ((fault? answer).bind heard).toList := by
  induction fuel generalizing feed with
  | zero => contradiction
  | succ fuel ih =>
    obtain ⟨⟨told, middle⟩, polled, pulled⟩ := bind_eq_ok_iff.mp pulled
    have heard := hears.polled (polled_of_poll polled)
    cases told with
    | error fault =>
      cases pulled
      exact heard
    | ok filled =>
      rw [fault?, Option.bind_none, Option.toList_none, List.append_nil] at heard
      cases filled with
      | true =>
        cases pulled
        exact heard.trans (List.append_nil _).symm
      | false => rw [ih pulled, heard]

/-- A call for the next token meets no failure, or one that it answers. -/
theorem Hears.taken {answer : Except StreamFault (Token V)}
    (taken : feed.next fuel = .ok (answer, next)) :
    next.faults read = feed.faults read ++ ((fault? answer).bind heard).toList := by
  unfold Feed.next at taken
  split at taken
  next =>
    cases taken
    exact (List.append_nil _).symm
  next =>
    obtain ⟨⟨told, middle⟩, pulled, taken⟩ := bind_eq_ok_iff.mp taken
    have heard := hears.pull pulled
    cases told with
    | error fault =>
      cases taken
      exact heard
    | ok done =>
      dsimp only at taken
      split at taken <;> cases taken
      exact heard

/-- A look ahead meets no failure, or one that it answers. -/
theorem Hears.peeked {distance : Nat} {answer : Except StreamFault (Token V)}
    (peeked : feed.peek fuel distance = .ok (answer, next)) :
    next.faults read = feed.faults read ++ ((fault? answer).bind heard).toList := by
  induction fuel generalizing feed with
  | zero => contradiction
  | succ fuel ih =>
    unfold Feed.peek at peeked
    split at peeked
    next =>
      cases peeked
      exact (List.append_nil _).symm
    next =>
      obtain ⟨⟨told, middle⟩, pulled, peeked⟩ := bind_eq_ok_iff.mp peeked
      have heard := hears.pull pulled
      cases told with
      | error fault =>
        cases peeked
        exact heard
      | ok done =>
        rw [fault?, Option.bind_none, Option.toList_none, List.append_nil] at heard
        rw [ih peeked, heard]

theorem Hears.closed : feed.close.faults read = feed.faults read := by
  have silent (sources : List σ) :
      (sources.flatMap (TokenSource.close : σ → List ε)).filterMap read = [] := by
    rw [List.filterMap_flatMap]
    simp [hears.close]
  rw [Feed.close, faults_noteAll, silent]
  exact List.append_nil _

end

/-- Nothing is read off where no note tells of a failure. -/
theorem hears_nothing [TokenSource σ V ε] [Resolver ρ σ V ε] :
    Hears σ ρ V (fun _ : ε => none) (fun _ => none) where
  next := by simp
  close := by simp
  resolve := by simp

/-- Good sources stay good and make fine notes only, and a resolver finds such sources and makes
such notes itself. -/
structure Discreet (ρ V : Type) {σ ε : Type} [TokenSource σ V ε] [Resolver ρ σ V ε]
    (good : σ → Prop) (fine : ε → Prop) : Prop where
  next : ∀ {fuel : Nat} {source : σ} {pull : Pull σ V ε}, good source →
    TokenSource.next fuel source = .ok pull → good pull.rest ∧ ∀ note ∈ pull.notes, fine note
  close : ∀ {source : σ}, good source → ∀ note ∈ TokenSource.close source, fine note
  resolve : ∀ {resolver rest : ρ} {token : Token V} {answer : Except StreamFault σ}
    {notes : List ε}, Resolver.resolve resolver token = (answer, rest, notes) →
      (∀ source, answer = .ok source → good source) ∧ ∀ note ∈ notes, fine note

/-- All sources of the feed are good, and all notes in its journal are fine. -/
structure IsDiscreet (good : σ → Prop) (fine : ε → Prop) (feed : Feed σ ρ V ε) : Prop where
  stacked : ∀ frame ∈ feed.frames, good frame.source
  primary : ∀ source ∈ feed.primary, good source
  notes : ∀ note, .noted note ∈ feed.journal.toList → fine note

section
variable {good : σ → Prop} {fine : ε → Prop}

theorem IsDiscreet.asked {place : Place} {source : σ} (holds : feed.IsDiscreet good fine)
    (asks : feed.Asks place source) : good source := by
  cases asks with
  | stacked frames => exact holds.stacked _ (by simp [frames])
  | primary _ _ primary => exact holds.primary source primary

theorem IsDiscreet.noteAll {notes : List ε} (holds : feed.IsDiscreet good fine)
    (fits : ∀ note ∈ notes, fine note) : (feed.noteAll notes).IsDiscreet good fine where
  stacked := holds.stacked
  primary := holds.primary
  notes note noted := by
    have among : .noted note ∈ feed.journal.toList ∨ note ∈ notes := by
      simpa [Feed.noteAll, Array.appendList_eq_append] using noted
    exact among.elim (holds.notes note) (fits note)

theorem IsDiscreet.replied {rest : σ} {notes : List ε} (holds : feed.IsDiscreet good fine)
    (still : good rest) (fits : ∀ note ∈ notes, fine note) :
    (feed.replied rest notes).IsDiscreet good fine := by
  unfold Feed.replied
  split
  next frame outer frames =>
    refine noteAll ⟨fun other member => ?_, holds.primary, holds.notes⟩ fits
    obtain rfl | outside := List.mem_cons.mp member
    · exact still
    · exact holds.stacked other (by simp [frames, outside])
  next frames =>
    refine noteAll ⟨holds.stacked, ?_, holds.notes⟩ fits
    rintro _ ⟨⟩
    exact still

theorem IsDiscreet.includeSource {source : σ} (holds : feed.IsDiscreet good fine)
    (stacked : good source) : (feed.includeSource source).IsDiscreet good fine where
  stacked frame member := by
    obtain rfl | outside := List.mem_cons.mp member
    · exact stacked
    · exact holds.stacked frame outside
  primary := holds.primary
  notes := by simpa [Feed.includeSource, note] using holds.notes

variable [TokenSource σ V ε] [Resolver ρ σ V ε] {fuel : Nat} {token : Token V}
  {answer : Except StreamFault Bool} (discreet : Discreet ρ V good fine)
include discreet

theorem IsDiscreet.took (holds : feed.IsDiscreet good fine) (took : feed.Took token answer next) :
    next.IsDiscreet good fine := by
  cases took with
  | waits => exact ⟨holds.stacked, holds.primary, holds.notes⟩
  | included sentinel number resolves =>
    obtain ⟨found, fits⟩ := discreet.resolve resolves
    refine noteAll ⟨fun frame member => ?_, holds.primary, holds.notes⟩ fits
    obtain rfl | outside := List.mem_cons.mp member
    · exact found _ rfl
    · exact holds.stacked frame outside
  | refused sentinel number resolves =>
    exact noteAll ⟨holds.stacked, holds.primary, holds.notes⟩ (discreet.resolve resolves).2

theorem IsDiscreet.finishFrame {source : σ} {resume : Queue (Token V)} {outer : List (Frame σ V)}
    (holds : feed.IsDiscreet good fine) (still : good source)
    (others : ∀ frame ∈ outer, good frame.source) :
    (feed.finishFrame source resume outer).IsDiscreet good fine := by
  let left : Feed σ ρ V ε := { feed with frames := outer, queue := feed.queue.append resume }
  have closed : (left.noteAll (TokenSource.close source)).IsDiscreet good fine :=
    noteAll ⟨others, holds.primary, holds.notes⟩ (discreet.close still)
  exact ⟨closed.stacked, closed.primary, by simpa [Feed.finishFrame, note] using closed.notes⟩

theorem Discreet.isKept : IsKept (IsDiscreet (ρ := ρ) (V := V) good fine) where
  poll := by
    intro feed next fuel answer holds polled
    cases polled_of_poll polled with
    | past => exact ⟨holds.stacked, holds.primary, holds.notes⟩
    | failed asks asked =>
      obtain ⟨still, fits⟩ := discreet.next (holds.asked asks) asked
      exact holds.replied still fits
    | inner asks asked inner took =>
      obtain ⟨still, fits⟩ := discreet.next (holds.asked asks) asked
      exact (holds.replied still fits).took discreet took
    | @finished frame outer rest token notes frames asked last =>
      obtain ⟨still, fits⟩ := discreet.next (holds.asked (.stacked frames)) asked
      refine (holds.replied still fits).finishFrame discreet still fun other member => ?_
      exact holds.stacked other (by simp [frames, member])
    | @ended source rest token notes _ _ frames eof primary asked last took =>
      obtain ⟨still, fits⟩ := discreet.next (holds.primary _ primary) asked
      have replied := holds.replied still fits
      have exhausted : ((feed.replied rest notes).exhausted token).IsDiscreet good fine :=
        ⟨replied.stacked, replied.primary, replied.notes⟩
      exact exhausted.took discreet took
  queue queue holds := ⟨holds.stacked, holds.primary, holds.notes⟩

theorem IsDiscreet.close (holds : feed.IsDiscreet good fine) :
    feed.close.IsDiscreet good fine := by
  refine noteAll ⟨by simp, by simp, holds.notes⟩ fun note member => ?_
  obtain ⟨source, held, told⟩ := List.mem_flatMap.mp member
  refine discreet.close ?_ note told
  obtain stacked | primary := List.mem_append.mp held
  · obtain ⟨frame, member, rfl⟩ := List.mem_map.mp stacked
    exact holds.stacked frame member
  · exact holds.primary source (by simpa using primary)

/-- Whatever is called, the notes stay fine as long as only good sources are stacked. -/
theorem IsDiscreet.performs {calls : List (Operation σ V)} (holds : feed.IsDiscreet good fine)
    (stacked : ∀ source, .stack source ∈ calls → good source)
    (performs : feed.Performs calls next) : next.IsDiscreet good fine := by
  induction performs with
  | done => exact holds
  | @call feed middle after fuel operation operations answer performed _ ih =>
    refine ih ?_ fun source member => stacked source (.tail _ member)
    refine discreet.isKept.perform holds ?_ (fun _ => holds.close discreet) performed
    rintro source rfl
    exact holds.includeSource (stacked source (.head _))

end

end TableDriven.Feed
