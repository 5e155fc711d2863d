import TableDriven.Proofs.Feed.Poll
import TableDriven.Proofs.Feed.Tracked

/-! # The custody of sources

A feed owns the sources that it was handed: it closes each of them once, asks none that it closed,
and asks none again that answered its end of file.  That holds however calls of the feed follow each
other, in the middle of a call and after a close as well, and whatever fails.

`Custody` is the invariant, about marks and deeds only: a source that was handed over is held, and
was not closed, or is not held, and was.  A held source may be asked unless its end of file was
seen, which makes a difference for the primary source, since a stacked one is closed at once.
-/

namespace TableDriven.Feed

/-- What may be done after a deed: nothing to a source that was closed, and a source that answered
its end of file is not asked. -/
def Deed.Allows (eofSymbol : Nat) : Deed → Deed → Prop
  | .closed origin, later => later.origin ≠ origin
  | .asked origin number?, .asked other _ => number? = some eofSymbol → other ≠ origin
  | .asked _ _, .closed _ => True

/-- Every deed allows those after it. -/
def Orderly (eofSymbol : Nat) (deeds : List Deed) : Prop := deeds.Pairwise (Deed.Allows eofSymbol)

section
variable {eofSymbol : Nat} {deeds : List Deed} {origin : Origin}

theorem orderly_append_singleton_iff {deed : Deed} :
    Orderly eofSymbol (deeds ++ [deed]) ↔
      Orderly eofSymbol deeds ∧ ∀ earlier ∈ deeds, earlier.Allows eofSymbol deed := by
  simp [Orderly, List.pairwise_append]

theorem Orderly.count_closed_le (orderly : Orderly eofSymbol deeds) (origin : Origin) :
    deeds.count (.closed origin) ≤ 1 := by
  induction deeds with
  | nil => simp
  | cons first deeds ih =>
    obtain ⟨allows, orderly⟩ := List.pairwise_cons.mp orderly
    rw [List.count_cons]
    split
    next same =>
      obtain rfl := eq_of_beq same
      have none : deeds.count (.closed origin) = 0 :=
        List.count_eq_zero.mpr fun again => allows _ again rfl
      omega
    next => exact ih orderly

theorem Orderly.count_closed_eq (orderly : Orderly eofSymbol deeds)
    (closed : .closed origin ∈ deeds) : deeds.count (.closed origin) = 1 :=
  Nat.le_antisymm (orderly.count_closed_le origin) (List.count_pos_iff.mpr closed)

/-- What is known of the sources that were handed over, those that are held, those of them that may
be asked, and the deeds. -/
structure Custody (eofSymbol : Nat) (handed : Origin → Prop) (held askable : List Origin)
    (deeds : List Deed) : Prop where
  orderly : Orderly eofSymbol deeds
  distinct : held.Nodup
  held_of_askable : ∀ origin ∈ askable, origin ∈ held
  unclosed : ∀ origin ∈ held, .closed origin ∉ deeds
  unended : ∀ origin ∈ askable, .asked origin (some eofSymbol) ∉ deeds
  handed_of_held : ∀ origin ∈ held, handed origin
  handed_of_deed : ∀ deed ∈ deeds, handed deed.origin
  accounted : ∀ origin, handed origin → origin ∈ held ∨ .closed origin ∈ deeds

namespace Custody

variable {handed : Origin → Prop} {held askable fewer : List Origin}

/-- A source is asked.  If it answers its end of file it may not be asked again. -/
theorem asked (custody : Custody eofSymbol handed held askable deeds) (inside : origin ∈ askable)
    (number? : Option Nat) (subset : ∀ other ∈ fewer, other ∈ askable)
    (ends : number? = some eofSymbol → origin ∉ fewer) :
    Custody eofSymbol handed held fewer (deeds ++ [.asked origin number?]) where
  orderly := by
    refine orderly_append_singleton_iff.mpr ⟨custody.orderly, fun earlier done => ?_⟩
    cases earlier with
    | closed other =>
      rintro rfl
      exact custody.unclosed _ (custody.held_of_askable _ inside) done
    | asked other number? =>
      rintro rfl rfl
      exact custody.unended _ inside done
  distinct := custody.distinct
  held_of_askable := fun other fewer => custody.held_of_askable other (subset other fewer)
  unclosed := by simpa using custody.unclosed
  unended := by
    intro other there
    simp only [List.mem_append, List.mem_singleton, not_or, Deed.asked.injEq, not_and]
    refine ⟨custody.unended other (subset other there), ?_⟩
    rintro rfl last
    exact ends last.symm there
  handed_of_held := custody.handed_of_held
  handed_of_deed := by
    intro deed done
    obtain done | rfl := by simpa using done
    · exact custody.handed_of_deed deed done
    · exact custody.handed_of_held _ (custody.held_of_askable _ inside)
  accounted := by
    intro other was
    obtain held | closed := custody.accounted other was
    · exact .inl held
    · exact .inr (by simp [closed])

/-- A source that is held is closed, and given up. -/
theorem closed (custody : Custody eofSymbol handed (origin :: held) askable deeds)
    (subset : ∀ other ∈ fewer, other ∈ askable ∧ other ∈ held) :
    Custody eofSymbol handed held fewer (deeds ++ [.closed origin]) where
  orderly := by
    refine orderly_append_singleton_iff.mpr ⟨custody.orderly, fun earlier done => ?_⟩
    cases earlier with
    | closed other =>
      rintro rfl
      exact custody.unclosed _ (by simp [Deed.origin]) done
    | asked other number? => trivial
  distinct := (List.nodup_cons.mp custody.distinct).2
  held_of_askable := fun other fewer => (subset other fewer).2
  unclosed := by
    intro other inside
    simp only [List.mem_append, List.mem_singleton, not_or, Deed.closed.injEq]
    refine ⟨custody.unclosed other (by simp [inside]), ?_⟩
    rintro rfl
    exact (List.nodup_cons.mp custody.distinct).1 inside
  unended := fun other inside => by simpa using custody.unended other (subset other inside).1
  handed_of_held := fun other inside => custody.handed_of_held other (by simp [inside])
  handed_of_deed := by
    intro deed done
    obtain done | rfl := by simpa using done
    · exact custody.handed_of_deed deed done
    · exact custody.handed_of_held _ (by simp [Deed.origin])
  accounted := by
    intro other was
    obtain held | closed := custody.accounted other was
    · obtain rfl | held := List.mem_cons.mp held
      · exact .inr (by simp)
      · exact .inl held
    · exact .inr (by simp [closed])

/-- All sources that are held are closed. -/
theorem closed_all (custody : Custody eofSymbol handed held askable deeds) :
    Custody eofSymbol handed [] [] (deeds ++ held.map .closed) := by
  induction held generalizing deeds askable with
  | nil =>
    obtain ⟨orderly, distinct, -, unclosed, -, held, done, accounted⟩ := custody
    simpa using
      (⟨orderly, distinct, by simp, unclosed, by simp, held, done, accounted⟩ :
        Custody eofSymbol handed [] [] deeds)
  | cons origin held ih =>
    have rest := ih (custody.closed (List.forall_mem_nil _))
    simpa using rest

/-- A source is handed over. -/
theorem taken (custody : Custody eofSymbol handed held askable deeds) (fresh : ¬ handed origin)
    {more : Origin → Prop} (grown : ∀ other, more other ↔ handed other ∨ other = origin) :
    Custody eofSymbol more (origin :: held) (origin :: askable) deeds where
  orderly := custody.orderly
  distinct :=
    List.nodup_cons.mpr ⟨fun inside => fresh (custody.handed_of_held _ inside), custody.distinct⟩
  held_of_askable := by
    intro other inside
    obtain rfl | inside := List.mem_cons.mp inside
    · simp
    · simp [custody.held_of_askable other inside]
  unclosed := by
    intro other inside done
    obtain rfl | inside := List.mem_cons.mp inside
    · exact fresh (custody.handed_of_deed _ done)
    · exact custody.unclosed other inside done
  unended := by
    intro other inside done
    obtain rfl | inside := List.mem_cons.mp inside
    · exact fresh (custody.handed_of_deed _ done)
    · exact custody.unended other inside done
  handed_of_held := by
    intro other inside
    obtain rfl | inside := List.mem_cons.mp inside
    · exact (grown _).mpr (.inr rfl)
    · exact (grown _).mpr (.inl (custody.handed_of_held other inside))
  handed_of_deed := fun deed done => (grown _).mpr (.inl (custody.handed_of_deed deed done))
  accounted := by
    intro other was
    obtain was | rfl := (grown _).mp was
    · obtain held | closed := custody.accounted other was
      · exact .inl (by simp [held])
      · exact .inr closed
    · exact .inl (by simp)

end Custody

end

/-! ## The sources of a feed -/

variable {σ ρ V ε : Type} {origin : Origin}

/-- The sources that were handed over by these calls and by a resolver that found so many. -/
inductive Handed (calls : List (Operation σ V)) (found : Nat) : Origin → Prop where
  | primary : Handed calls found .primary
  | stacked {call : Nat} {source : σ} (there : calls[call]? = some (.stack source)) :
      Handed calls found (.stacked call)
  | resolved {count : Nat} (before : count < found) : Handed calls found (.resolved count)

theorem handed_succ_iff {calls : List (Operation σ V)} {found : Nat} :
    Handed calls (found + 1) origin ↔ Handed calls found origin ∨ origin = .resolved found := by
  constructor
  · intro handed
    cases handed with
    | primary => exact .inl .primary
    | stacked there => exact .inl (.stacked there)
    | @resolved count before =>
      by_cases last : count = found
      · exact .inr (congrArg _ last)
      · exact .inl (.resolved (by omega))
  · rintro (handed | rfl)
    · cases handed with
      | primary => exact .primary
      | stacked there => exact .stacked there
      | resolved before => exact .resolved (by omega)
    · exact .resolved (by omega)

theorem not_handed_resolved {calls : List (Operation σ V)} {found : Nat} :
    ¬ Handed calls found (.resolved found) := by
  intro handed
  cases handed with
  | resolved before => exact Nat.lt_irrefl _ before

theorem not_handed_stacked {calls : List (Operation σ V)} {found : Nat} :
    ¬ Handed calls found (.stacked calls.length) := by
  intro handed
  cases handed with
  | stacked there => simp at there

theorem handed_append_iff {calls : List (Operation σ V)} {operation : Operation σ V} {found : Nat} :
    Handed (calls ++ [operation]) found origin ↔ Handed calls found origin ∨
      operation.source?.isSome ∧ origin = .stacked calls.length := by
  constructor
  · intro handed
    cases handed with
    | primary => exact .inl .primary
    | @stacked call source there =>
      by_cases before : call < calls.length
      · rw [List.getElem?_append_left before] at there
        exact .inl (.stacked there)
      · obtain ⟨last, -⟩ := List.getElem?_eq_some_iff.mp there
        obtain rfl : call = calls.length := by
          simp at last
          omega
        obtain rfl : operation = .stack source := by simpa using there
        exact .inr ⟨rfl, rfl⟩
    | resolved before => exact .inl (.resolved before)
  · rintro (handed | ⟨hands, rfl⟩)
    · cases handed with
      | primary => exact .primary
      | stacked there =>
        obtain ⟨before, -⟩ := List.getElem?_eq_some_iff.mp there
        exact .stacked ((List.getElem?_append_left before).trans there)
      | resolved before => exact .resolved before
    · cases operation with
      | stack source =>
        have there : (calls ++ [.stack source])[calls.length]? = some (.stack source) := by simp
        exact .stacked there
      | next | peek | pushBack | close => cases hands

section
variable (feed : Feed (Tracked σ) (Tracker ρ) V (Deed ⊕ ε))

/-- The sources that were not closed. -/
def held : List Origin :=
  feed.frames.map (·.source.origin) ++ feed.primary.toList.map Tracked.origin

/-- The sources that were not closed and whose end of file was not seen. -/
def askable : List Origin :=
  feed.frames.map (·.source.origin) ++
    if feed.eof.isSome then [] else feed.primary.toList.map Tracked.origin

def Notice.deed? : Notice (Deed ⊕ ε) → Option Deed
  | .noted (.inl deed) => some deed
  | .noted (.inr _) | .included _ _ | .finished _ => none

/-- What was done to the sources, in order. -/
def deeds : List Deed := feed.journal.toList.filterMap Notice.deed?

/-- How many sources the resolver found. -/
def found : Nat := feed.sentinel.elim 0 (·.2.count)

/-- The feed has the custody of the sources that were handed over. -/
structure HasCustody (eofSymbol : Nat) (calls : List (Operation σ V)) : Prop where
  number : feed.eofSymbol = eofSymbol
  custody : Custody eofSymbol (Handed calls feed.found) feed.held feed.askable feed.deeds

theorem askable_sublist_held : feed.askable.Sublist feed.held := by
  apply (List.Sublist.refl _).append
  split
  next => exact List.nil_sublist _
  next => exact .refl _

@[simp] theorem deeds_noteAll (notes : List (Deed ⊕ ε)) :
    (feed.noteAll notes).deeds = feed.deeds ++ notes.filterMap Sum.getLeft? := by
  have noted (note : Deed ⊕ ε) : (Notice.deed? ∘ Notice.noted) note = note.getLeft? := by
    cases note <;> rfl
  have same : (notes.map Notice.noted).filterMap Notice.deed? = notes.filterMap Sum.getLeft? := by
    rw [List.filterMap_map, funext noted]
  simp only [deeds, noteAll, Array.appendList_eq_append, Array.toList_appendList,
    List.filterMap_append, same]

end

variable {feed next : Feed (Tracked σ) (Tracker ρ) V (Deed ⊕ ε)} {eofSymbol : Nat}
  {calls : List (Operation σ V)}
  {place : Place} {source rest : Tracked σ} {notes : List (Deed ⊕ ε)}

/-- A feed asks only sources that may be asked. -/
theorem Asks.mem_askable (asks : feed.Asks place source) : source.origin ∈ feed.askable := by
  cases asks with
  | stacked frames => simp [askable, frames]
  | primary frames eof primary => simp [askable, frames, eof, primary]

section
variable (asks : feed.Asks place source) (same : rest.origin = source.origin)
include asks same

theorem held_replied (notes : List (Deed ⊕ ε)) : (feed.replied rest notes).held = feed.held := by
  cases asks with
  | stacked frames => simp [held, replied, frames, noteAll, same]
  | primary frames eof primary => simp [held, replied, frames, primary, noteAll, same]

theorem askable_replied (notes : List (Deed ⊕ ε)) :
    (feed.replied rest notes).askable = feed.askable := by
  cases asks with
  | stacked frames => simp [askable, replied, frames, noteAll, same]
  | primary frames eof primary => simp [askable, replied, frames, eof, primary, noteAll, same]

end

theorem deeds_replied (rest : Tracked σ) (notes : List (Deed ⊕ ε)) :
    (feed.replied rest notes).deeds = feed.deeds ++ notes.filterMap Sum.getLeft? := by
  unfold replied
  split <;> exact deeds_noteAll _ notes

theorem found_replied (rest : Tracked σ) (notes : List (Deed ⊕ ε)) :
    (feed.replied rest notes).found = feed.found := by
  unfold replied
  split <;> rfl

variable [TokenSource σ V ε] [Resolver ρ σ V ε] {fuel : Nat} {token : Token V}

/-- A tracked source notes the token that it answers, and keeps its mark. -/
theorem deed_of_next {told : Except StreamFault (Token V)}
    (asked : TokenSource.next fuel source = .ok ⟨told, rest, notes⟩) :
    rest.origin = source.origin ∧
      notes.filterMap Sum.getLeft? = [.asked source.origin (told.toOption.map Token.number)] := by
  obtain ⟨pull, -, answered⟩ := bind_eq_ok_iff.mp asked
  cases answered
  refine ⟨rfl, ?_⟩
  simp [List.filterMap_map]

theorem deed_of_close (source : Tracked σ) :
    (TokenSource.close source : List (Deed ⊕ ε)).filterMap Sum.getLeft? =
      [.closed source.origin] := by
  simp [TokenSource.close, List.filterMap_map]

omit [TokenSource σ V ε] in
theorem deed_of_resolve {tracker last : Tracker ρ} {answer : Except StreamFault (Tracked σ)}
    (resolves : Resolver.resolve tracker token = (answer, last, notes)) :
    notes.filterMap Sum.getLeft? = [] ∧
      match answer with
      | .ok found => found.origin = .resolved tracker.count ∧ last.count = tracker.count + 1
      | .error _ => last.count = tracker.count := by
  simp only [Resolver.resolve] at resolves
  rcases found : (Resolver.resolve tracker.resolver token : Except StreamFault σ × ρ × List ε) with
    ⟨fault | source, resolver, told⟩
  · rw [found] at resolves
    cases resolves
    simp [List.filterMap_map]
  · rw [found] at resolves
    cases resolves
    simp [List.filterMap_map]

omit [TokenSource σ V ε] in
/-- A token that comes from a source: what the resolver finds for it is handed over. -/
theorem HasCustody.took {answer : Except StreamFault Bool}
    (custody : feed.HasCustody eofSymbol calls)
    (took : feed.Took token answer next) : next.HasCustody eofSymbol calls := by
  cases took with
  | waits => exact ⟨custody.number, custody.custody⟩
  | @included symbol tracker last source notes sentinel number resolves =>
    obtain ⟨none, origin, count⟩ := deed_of_resolve resolves
    have before : feed.found = tracker.count := by simp [found, sentinel]
    have taken :=
      custody.custody.taken (before ▸ not_handed_resolved) (fun _ => handed_succ_iff)
    rw [before, ← count, ← origin] at taken
    refine ⟨custody.number, ?_⟩
    simp only [including, deeds_noteAll, none, List.append_nil]
    exact taken
  | @refused symbol tracker last fault notes sentinel number resolves =>
    obtain ⟨none, count⟩ := deed_of_resolve resolves
    have before : feed.found = last.count := by simp [found, sentinel, count]
    obtain ⟨number, custody⟩ := custody
    refine ⟨number, ?_⟩
    simp only [deeds_noteAll, none, List.append_nil]
    rw [before] at custody
    exact custody

omit [Resolver ρ σ V ε] in
/-- A source is asked and does not answer its end of file. -/
theorem HasCustody.replied {told : Except StreamFault (Token V)}
    (custody : feed.HasCustody eofSymbol calls)
    (asks : feed.Asks place source)
    (asked : TokenSource.next fuel source = .ok ⟨told, rest, notes⟩)
    (inner : told.toOption.map Token.number ≠ some feed.eofSymbol) :
    (feed.replied rest notes).HasCustody eofSymbol calls := by
  obtain ⟨same, deed⟩ := deed_of_next asked
  refine ⟨(eofSymbol_replied rest notes).trans custody.number, ?_⟩
  rw [held_replied asks same, askable_replied asks same, deeds_replied, found_replied, deed]
  exact custody.custody.asked asks.mem_askable _ (fun _ inside => inside)
    (fun last => absurd last (custody.number ▸ inner))

omit [Resolver ρ σ V ε] in
theorem deeds_finishFrame (source : Tracked σ) (resume : Queue (Token V))
    (outer : List (Frame (Tracked σ) V)) :
    (feed.finishFrame source resume outer).deeds = feed.deeds ++ [.closed source.origin] := by
  have closes : feed.deeds ++ [.closed source.origin] =
      (feed.noteAll (TokenSource.close source)).deeds := by
    rw [deeds_noteAll, deed_of_close]
  rw [closes]
  simp [deeds, finishFrame, note, noteAll, Notice.deed?]

omit [Resolver ρ σ V ε] in
/-- A stacked source is closed that is not asked again anyway. -/
theorem hasCustody_finishFrame {frame : Frame (Tracked σ) V} {outer : List (Frame (Tracked σ) V)}
    (frames : feed.frames = frame :: outer) (number : feed.eofSymbol = eofSymbol)
    (custody : Custody eofSymbol (Handed calls feed.found) feed.held feed.askable.tail feed.deeds)
    (resume : Queue (Token V)) :
    (feed.finishFrame frame.source resume outer).HasCustody eofSymbol calls := by
  let next := feed.finishFrame frame.source resume outer
  have held : feed.held = frame.source.origin :: next.held := by
    simp [next, Feed.held, frames, finishFrame, note, noteAll]
  have askable : feed.askable.tail = next.askable := by
    simp [next, Feed.askable, frames, finishFrame, note, noteAll]
  rw [held, askable] at custody
  refine ⟨number, ?_⟩
  rw [deeds_finishFrame]
  exact custody.closed fun other inside => ⟨inside, next.askable_sublist_held.subset inside⟩

/-- A poll keeps the custody. -/
theorem HasCustody.polled {answer : Except StreamFault Bool}
    (custody : feed.HasCustody eofSymbol calls)
    (polled : feed.Polled fuel answer next) : next.HasCustody eofSymbol calls := by
  cases polled with
  | past => exact ⟨custody.number, custody.custody⟩
  | failed asks asked => exact custody.replied asks asked (by simp [Except.toOption])
  | inner asks asked inner took =>
    exact (custody.replied asks asked (by simpa [Except.toOption] using inner)).took took
  | @finished frame outer rest token notes frames asked last =>
    obtain ⟨same, deed⟩ := deed_of_next asked
    have asks : feed.Asks .stacked frame.source := .stacked frames
    have after : (feed.replied rest notes).frames = ⟨rest, frame.resume⟩ :: outer := by
      simp [Feed.replied, frames, noteAll]
    have first : feed.askable = frame.source.origin :: feed.askable.tail := by
      simp [Feed.askable, frames]
    have distinct := first ▸ custody.custody.distinct.sublist feed.askable_sublist_held
    refine hasCustody_finishFrame after
      ((eofSymbol_replied rest notes).trans custody.number) ?_ frame.resume
    rw [held_replied asks same, askable_replied asks same, deeds_replied, found_replied, deed]
    exact custody.custody.asked asks.mem_askable _ (fun _ inside => List.mem_of_mem_tail inside)
      fun _ => (List.nodup_cons.mp distinct).1
  | @ended source rest token notes _ _ frames eof primary asked last took =>
    obtain ⟨same, deed⟩ := deed_of_next asked
    have asks : feed.Asks .primary source := .primary frames eof primary
    have after : ((feed.replied rest notes).exhausted token).askable = [] := by
      simp [Feed.askable, Feed.replied, frames, noteAll, exhausted]
    have exhausted : ((feed.replied rest notes).exhausted token).HasCustody eofSymbol calls := by
      refine ⟨(eofSymbol_replied rest notes).trans custody.number, ?_⟩
      rw [after]
      show Custody eofSymbol (Handed calls (feed.replied rest notes).found)
        (feed.replied rest notes).held [] (feed.replied rest notes).deeds
      rw [held_replied asks same, deeds_replied, found_replied, deed]
      exact custody.custody.asked asks.mem_askable _ (by simp) (by simp)
    exact exhausted.took took

/-! ## Calls -/

theorem isKept_hasCustody (calls : List (Operation σ V)) :
    IsKept fun feed : Feed (Tracked σ) (Tracker ρ) V (Deed ⊕ ε) =>
      feed.HasCustody eofSymbol calls where
  poll := fun custody polled => custody.polled (polled_of_poll polled)
  queue := fun _ custody => ⟨custody.number, custody.custody⟩

omit [Resolver ρ σ V ε] in
/-- A close closes all sources that are held. -/
theorem deeds_close : feed.close.deeds = feed.deeds ++ feed.held.map .closed := by
  have closes : ((feed.frames.map Frame.source ++ feed.primary.toList).flatMap
      (TokenSource.close : Tracked σ → List (Deed ⊕ ε))).filterMap Sum.getLeft? =
        feed.held.map .closed := by
    rw [List.filterMap_flatMap]
    simp only [deed_of_close, held, ← List.map_eq_flatMap, List.map_append, List.map_map]
    rfl
  rw [← closes]
  exact deeds_noteAll _ _

omit [Resolver ρ σ V ε] in
theorem HasCustody.closed (custody : feed.HasCustody eofSymbol calls) :
    feed.close.HasCustody eofSymbol calls := by
  have askable : feed.close.askable = [] := by simp [Feed.close, Feed.askable, noteAll]
  refine ⟨custody.number, ?_⟩
  rw [deeds_close, askable]
  exact custody.custody.closed_all

omit [TokenSource σ V ε] [Resolver ρ σ V ε] in
theorem deeds_includeSource (source : Tracked σ) :
    (feed.includeSource source).deeds = feed.deeds := by
  simp [deeds, includeSource, note, Notice.deed?]

omit [TokenSource σ V ε] [Resolver ρ σ V ε] in
/-- A source that a call hands over is held. -/
theorem HasCustody.stacked (custody : feed.HasCustody eofSymbol calls) (source : σ) :
    (feed.includeSource ⟨.stacked calls.length, source⟩).HasCustody eofSymbol
      (calls ++ [.stack source]) := by
  refine ⟨custody.number, ?_⟩
  rw [deeds_includeSource]
  refine custody.custody.taken not_handed_stacked fun other => ?_
  rw [handed_append_iff]
  simp [Operation.source?]
  rfl

omit [TokenSource σ V ε] [Resolver ρ σ V ε] in
/-- Calls that hand nothing over make no difference. -/
theorem HasCustody.also {operation : Operation σ V} (custody : feed.HasCustody eofSymbol calls)
    (none : operation.source? = none) : feed.HasCustody eofSymbol (calls ++ [operation]) := by
  have same : Handed (calls ++ [operation]) feed.found = Handed calls feed.found := by
    funext origin
    simp [handed_append_iff, none]
  exact ⟨custody.number, same ▸ custody.custody⟩

/-- A call keeps the custody. -/
theorem HasCustody.performed {operation : Operation σ V}
    {answer : Except StreamFault (Option (Token V))} (custody : feed.HasCustody eofSymbol calls)
    (performed : feed.perform fuel (operation.track calls.length) = .ok (answer, next)) :
    next.HasCustody eofSymbol (calls ++ [operation]) := by
  cases operation with
  | stack source =>
    cases performed
    exact custody.stacked source
  | next | peek | pushBack | close =>
    have kept := (isKept_hasCustody calls).perform custody (fun same => by cases same)
      (fun _ => custody.closed) performed
    exact kept.also rfl

theorem HasCustody.performs {operations : List (Operation σ V)}
    (custody : feed.HasCustody eofSymbol calls)
    (performs : feed.Performs (track calls.length operations) next) :
    next.HasCustody eofSymbol (calls ++ operations) := by
  induction operations generalizing feed calls with
  | nil =>
    cases performs
    simpa using custody
  | cons operation operations ih =>
    cases performs with
    | call performed rest =>
      have further := ih (custody.performed performed) (by simpa using rest)
      simpa using further

theorem HasCustody.polls (custody : feed.HasCustody eofSymbol calls) (polls : feed.Polls next) :
    next.HasCustody eofSymbol calls := by
  induction polls with
  | done => exact custody
  | poll polled _ ih => exact ih (custody.polled (polled_of_poll polled))

omit [TokenSource σ V ε] [Resolver ρ σ V ε] in
theorem hasCustody_startTracked (source : σ) (eofSymbol : Nat) (sentinel : Option (Nat × ρ)) :
    HasCustody (startTracked source eofSymbol sentinel : Feed (Tracked σ) (Tracker ρ) V (Deed ⊕ ε))
      eofSymbol ([] : List (Operation σ V)) where
  number := rfl
  custody.orderly := .nil
  custody.distinct := by simp [held, startTracked, start, ofSource]
  custody.held_of_askable := fun _ inside => (askable_sublist_held _).subset inside
  custody.unclosed := by simp [Feed.deeds, startTracked, start, ofSource]
  custody.unended := by simp [Feed.deeds, startTracked, start, ofSource]
  custody.handed_of_held := by
    intro origin inside
    obtain rfl : origin = .primary := by simpa [held, startTracked, start, ofSource] using inside
    exact .primary
  custody.handed_of_deed := by simp [Feed.deeds, startTracked, start, ofSource]
  custody.accounted := by
    intro origin handed
    cases handed with
    | primary => exact .inl (by simp [held, startTracked, start, ofSource])
    | stacked there => simp at there
    | resolved before =>
      have none : (startTracked source eofSymbol sentinel :
          Feed (Tracked σ) (Tracker ρ) V (Deed ⊕ ε)).found = 0 := by
        cases sentinel <;> rfl
      omega

omit [TokenSource σ V ε] in
theorem deeds_prefix_of_took {answer : Except StreamFault Bool}
    (took : feed.Took token answer next) : feed.deeds <+: next.deeds := by
  cases took with
  | waits => exact List.prefix_refl _
  | included | refused =>
    simp only [including, deeds_noteAll]
    exact List.prefix_append _ _

/-- What was done stays done. -/
theorem deeds_prefix_of_polled {answer : Except StreamFault Bool}
    (polled : feed.Polled fuel answer next) : feed.deeds <+: next.deeds := by
  have replied (rest : Tracked σ) (notes : List (Deed ⊕ ε)) :
      feed.deeds <+: (feed.replied rest notes).deeds := by
    rw [deeds_replied]
    exact List.prefix_append _ _
  cases polled with
  | past => exact List.prefix_refl _
  | failed => exact replied _ _
  | inner asks asked inner took => exact (replied _ _).trans (deeds_prefix_of_took took)
  | @finished _ _ rest _ notes frames asked last =>
    refine (replied rest notes).trans ?_
    rw [deeds_finishFrame]
    exact List.prefix_append _ _
  | @ended _ rest token notes _ _ frames eof primary asked last took =>
    have exhausted := deeds_prefix_of_took took
    exact (replied rest notes).trans exhausted

theorem isKept_deeds (past : List Deed) :
    IsKept fun feed : Feed (Tracked σ) (Tracker ρ) V (Deed ⊕ ε) => past <+: feed.deeds where
  poll := fun before polled => before.trans (deeds_prefix_of_polled (polled_of_poll polled))
  queue := fun _ before => before

theorem deeds_prefix_of_performs {operations : List (Operation (Tracked σ) V)}
    (performs : feed.Performs operations next) : feed.deeds <+: next.deeds := by
  induction performs with
  | done => exact List.prefix_refl _
  | @call feed _ _ _ operation _ _ performed _ ih =>
    refine List.IsPrefix.trans ?_ ih
    refine (isKept_deeds feed.deeds).perform (List.prefix_refl _) (fun {source} _ => ?_)
      (fun _ => ?_) performed
    · exact (deeds_includeSource _).symm ▸ List.prefix_refl _
    · rw [deeds_close]
      exact List.prefix_append _ _

theorem deeds_prefix_of_polls (polls : feed.Polls next) : feed.deeds <+: next.deeds := by
  induction polls with
  | done => exact List.prefix_refl _
  | poll polled _ ih => exact (deeds_prefix_of_polled (polled_of_poll polled)).trans ih

/-- What was handed over before a close is closed. -/
theorem HasCustody.closed_of_handed {operations : List (Operation σ V)}
    (custody : feed.HasCustody eofSymbol calls) (close : operations.head? = some .close)
    (performs : feed.Performs (track calls.length operations) next)
    (handed : Handed calls feed.found origin) : .closed origin ∈ next.deeds := by
  cases operations with
  | nil => cases close
  | cons operation operations =>
    cases close
    cases performs with
    | call performed rest =>
      cases performed
      apply (deeds_prefix_of_performs rest).subset
      obtain held | closed := custody.closed.custody.accounted origin handed
      · simp [Feed.held, Feed.close, noteAll] at held
      · exact closed

/-- Whatever calls are made, with another under way or not, no source is closed twice, asked once it
is closed, or asked again once it answered its end of file; and a close leaves none open that was
handed over before it. -/
theorem sources_closed_once {source : σ} {eofSymbol : Nat} {sentinel : Option (Nat × ρ)}
    (before later : List (Operation σ V)) {middle last after : Feed σ ρ V ε}
    (first : (start source eofSymbol sentinel).Performs before middle)
    (second : middle.Performs later last) (polls : last.Polls after) :
    ∃ trackedMiddle trackedLast tracked : Feed (Tracked σ) (Tracker ρ) V (Deed ⊕ ε),
      (startTracked source eofSymbol sentinel).Performs (track 0 before) trackedMiddle ∧
      trackedMiddle.Performs (track before.length later) trackedLast ∧
      trackedLast.Polls tracked ∧ tracked.Mirrors after ∧
      Orderly eofSymbol tracked.deeds ∧ (∀ origin, tracked.deeds.count (.closed origin) ≤ 1) ∧
      (later.head? = some .close → ∀ origin, Handed before trackedMiddle.found origin →
        tracked.deeds.count (.closed origin) = 1) := by
  obtain ⟨trackedMiddle, performed, mirrored⟩ :=
    (mirrors_start source eofSymbol sentinel).performs first 0
  obtain ⟨trackedLast, further, mirrored⟩ := mirrored.performs second before.length
  obtain ⟨tracked, polled, mirrored⟩ := mirrored.polls polls
  have custody := (hasCustody_startTracked source eofSymbol sentinel).performs performed
  have orderly := ((custody.performs further).polls polled).custody.orderly
  refine ⟨trackedMiddle, trackedLast, tracked, performed, further, polled, mirrored, orderly,
    orderly.count_closed_le, fun close origin handed => orderly.count_closed_eq ?_⟩
  exact (deeds_prefix_of_polls polled).subset (custody.closed_of_handed close further handed)

/-- Makes calls one after the other, each with the same fuel. -/
def performAll (fuel : Nat) (feed : Feed σ ρ V ε) : List (Operation σ V) → Run (Feed σ ρ V ε)
  | [] => .ok feed
  | operation :: operations => do
    let (_, feed) ← feed.perform fuel operation
    feed.performAll fuel operations

theorem performs_of_performAll {feed after : Feed σ ρ V ε} {operations : List (Operation σ V)}
    (fuel : Nat) (performed : feed.performAll fuel operations = .ok after) :
    feed.Performs operations after := by
  induction operations generalizing feed with
  | nil =>
    cases performed
    exact .done
  | cons operation operations ih =>
    obtain ⟨⟨answer, middle⟩, first, rest⟩ := bind_eq_ok_iff.mp performed
    exact .call first (ih rest)

/-- A source by what it answers to one call after the other, and then its end of file. -/
structure Scripted where
  answers : List (Except StreamFault (Token Unit))

instance : TokenSource Scripted Unit Unit where
  next _ scripted :=
    match scripted.answers with
    | [] => .ok ⟨.ok (.bare 0), scripted, []⟩
    | answer :: rest => .ok ⟨answer, ⟨rest⟩, []⟩
  close _ := []

/-- A resolver by what it answers to one sentinel after the other. -/
instance : Resolver (List (Except StreamFault Scripted)) Scripted Unit Unit where
  resolve
    | [], _ => (.error (.rejected "no source"), [], [])
    | answer :: rest, _ => (answer, rest, [])

/-- A primary source that fails, a resolver that fails, a source that a call stacks and one that the
resolver finds while looking ahead, a close, and calls after it. -/
theorem sources_closed_once_of_scripted :
    ∃ tracked : Feed (Tracked Scripted) (Tracker (List (Except StreamFault Scripted))) Unit
        (Deed ⊕ Unit),
      Orderly 0 tracked.deeds ∧ tracked.deeds.count (.closed .primary) = 1 ∧
        tracked.deeds.count (.closed (.stacked 2)) = 1 := by
  let fault : StreamFault := .rejected "gone"
  let primary : Scripted := ⟨[.error fault, .ok (.bare 1), .ok (.bare 1), .ok (.bare 2)]⟩
  let resolver : List (Except StreamFault Scripted) := [.error fault, .ok ⟨[.error fault]⟩]
  let feed : Feed Scripted (List (Except StreamFault Scripted)) Unit Unit :=
    start primary 0 (some (1, resolver))
  have first : feed.Performs [.next, .next, .stack ⟨[.ok (.bare 3)]⟩, .peek 2] _ :=
    performs_of_performAll 9 rfl
  obtain ⟨_, _, tracked, -, -, -, -, orderly, -, closed⟩ :=
    sources_closed_once _ [.close, .next] first (performs_of_performAll 9 rfl) .done
  exact ⟨tracked, orderly, closed rfl _ .primary, closed rfl _ (.stacked rfl)⟩

end TableDriven.Feed
