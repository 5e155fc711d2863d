import TableDriven.Proofs.Scanner.Longest
import TableDriven.Proofs.Scanner.Position

/-! # Scanning tiles the input

The texts that a scanner consumes are the input, piece by piece: none is empty, nothing is left out
and nothing is consumed twice, and every event stands where the units before it end.  `Tiles` says
so of the events, `Tiled` adds what the scanner is left with; rounds, calls and series of calls are
put together by `Tiled.append`.  Positions are words, which wrap; where they do not, events are
`Placed` by the rule for lines and columns without bounds.
-/

namespace TableDriven.Scanner

namespace Event

def token? : Event U V → Option (Token V)
  | .delivered _ token | .ended token _ => some token
  | .offered .. | .discarded .. | .unmatched .. => none

/-- The tokens that are delivered, the last one among them. -/
def tokens (events : List (Event U V)) : List (Token V) := events.filterMap token?

@[simp] theorem tokens_append (first second : List (Event U V)) :
    tokens (first ++ second) = tokens first ++ tokens second :=
  List.filterMap_append

theorem tokens_singleton (event : Event U V) : tokens [event] = event.token?.toList := by
  cases last : event.token? <;> simp [tokens, last]

/-- Whether a piece of input is consumed. -/
def IsPiece : Event U V → Prop
  | .delivered .. | .discarded .. | .unmatched .. => True
  | .offered .. | .ended .. => False

def IsEnd : Event U V → Prop
  | .ended .. => True
  | .offered .. | .delivered .. | .discarded .. | .unmatched .. => False

end Event

/-- The pieces of the events are the beginning of `input`, all of it if it came to an end, and
every event stands behind what was consumed before it. -/
structure Tiles [ScanUnit U] (tab : UInt32) (position : Position) (input : Content U)
    (events : List (Event U V)) : Prop where
  begins : Event.texts events = input.take (Event.texts events).length
  whole : ∀ event ∈ events, event.IsEnd → input = .ofList (Event.texts events)
  pieces : ∀ event ∈ events, event.IsPiece → event.text ≠ []
  stands : ∀ before event behind, events = before ++ event :: behind →
    event.position = (Event.texts before).foldl (Position.after tab) position

/-- Every event stands at the place behind what was consumed before it, as long as the places up to
there fit into words. -/
def Placed [ScanUnit U] (tab : Nat) (events : List (Event U V)) : Prop :=
  ∀ before event behind, events = before ++ event :: behind →
    (∀ front, front <+: Event.texts before → (front.foldl (Place.after tab) .origin).Fits) →
    event.position.place = (Event.texts before).foldl (Place.after tab) .origin

namespace Tiles

variable [ScanUnit U] {tab : UInt32} {position : Position} {input : Content U}
  {first second : List (Event U V)}

theorem append (left : Tiles tab position input first)
    (right : Tiles tab ((Event.texts first).foldl (Position.after tab) position)
      (input.drop (Event.texts first).length) second) :
    Tiles tab position input (first ++ second) where
  begins := by
    rw [Event.texts_append, List.length_append, Content.take_add _ _ (by rw [← left.begins]),
      ← left.begins, ← right.begins]
  whole event member ends := by
    rw [Event.texts_append]
    obtain early | late := List.mem_append.mp member
    · have spent := left.whole event early ends
      have nothing := right.begins
      rw [spent, Content.drop_ofList, List.drop_length, Content.take_ofList, List.take_nil]
        at nothing
      rw [nothing, List.append_nil]
      exact spent
    · exact Content.eq_ofList_append left.begins.symm (right.whole event late ends)
  pieces event member := by
    obtain early | late := List.mem_append.mp member
    · exact left.pieces event early
    · exact right.pieces event late
  stands before event behind split := by
    obtain ⟨more, rfl, rest⟩ | ⟨more, rfl, rest⟩ := List.append_eq_append_iff.mp split
    · rw [Event.texts_append, List.foldl_append]
      exact right.stands more event behind rest
    · cases more with
      | nil =>
        rw [right.stands [] event behind rest.symm, List.append_nil]
        rfl
      | cons other more =>
        cases rest
        exact left.stands before event more rfl

/-- Offers consume nothing. -/
theorem of_offers {events : List (Event U V)} (offers : ∀ event ∈ events, ∃ candidate isAsked,
      event = .offered candidate isAsked ∧ candidate.position = position) :
    Tiles tab position input events := by
  have nothing (some : List (Event U V)) (among : ∀ event ∈ some, event ∈ events) :
      Event.texts some = [] := by
    refine List.flatMap_eq_nil_iff.mpr fun event member => ?_
    obtain ⟨candidate, isAsked, rfl, -⟩ := offers event (among event member)
    rfl
  have all := nothing events fun _ member => member
  refine ⟨by rw [all]; rfl, fun event member ends => ?_, fun event member piece => ?_,
    fun before event behind split => ?_⟩
  · obtain ⟨candidate, isAsked, rfl, -⟩ := offers event member
    exact ends.elim
  · obtain ⟨candidate, isAsked, rfl, -⟩ := offers event member
    exact piece.elim
  · obtain ⟨candidate, isAsked, rfl, here⟩ := offers event (by simp [split])
    rw [nothing before fun other member => by simp [split, member]]
    exact here

theorem single {event : Event U V} (begins : event.text = input.take event.text.length)
    (stands : event.position = position) (whole : event.IsEnd → input = .ofList event.text)
    (some : event.IsPiece → event.text ≠ []) : Tiles tab position input [event] where
  begins := by simpa using begins
  whole := by simpa using whole
  pieces := by simpa using some
  stands before other behind split := by
    cases before with
    | nil =>
      cases split
      exact stands
    | cons first rest => simp at split

theorem placed {events : List (Event U V)} (tiles : Tiles tab .origin input events)
    (wide : 0 < tab.toNat) : Placed tab.toNat events := by
  intro before event behind split fits
  rw [tiles.stands before event behind split]
  exact Position.place_foldl wide (Nat.le_refl 1) fits

end Tiles

/-! ## What scanning leaves behind -/

variable [ScanUnit U] [UnitSource σ U ε] {scanner middle after : Scanner σ φ U ε}
  {input : Content U} {events more : List (Event U V)} {tokens others : List (Token V)}

/-- A scanner has consumed what `events` tell and delivered `tokens`. -/
structure Tiled (input : Content U) (before : Scanner σ φ U ε) (tokens : List (Token V))
    (events : List (Event U V)) (after : Scanner σ φ U ε) : Prop where
  has : after.Has (input.drop (Event.texts events).length)
  ready : after.Ready
  tabWidth : after.tabWidth = before.tabWidth
  position : after.position =
    (Event.texts events).foldl (Position.after (max before.tabWidth 1)) before.position
  tiles : Tiles (max before.tabWidth 1) before.position input events
  reports : after.reports = before.reports ++ Event.reports events
  tokens : Event.tokens events = tokens

theorem Tiled.refl (has : scanner.Has input) (ready : scanner.Ready) :
    Tiled input scanner ([] : List (Token V)) [] scanner where
  has := has
  ready := ready
  tabWidth := rfl
  position := rfl
  tiles := ⟨rfl, by simp, by simp, by simp⟩
  reports := (List.append_nil _).symm
  tokens := rfl

theorem Tiled.append (first : Tiled input scanner tokens events middle)
    (second : Tiled (input.drop (Event.texts events).length) middle others more after) :
    Tiled input scanner (tokens ++ others) (events ++ more) after where
  has := by
    rw [Event.texts_append, List.length_append, ← Content.drop_drop]
    exact second.has
  ready := second.ready
  tabWidth := second.tabWidth.trans first.tabWidth
  position := by
    rw [Event.texts_append, List.foldl_append, ← first.position, ← first.tabWidth]
    exact second.position
  tiles := first.tiles.append (by
    rw [← first.position, ← first.tabWidth]
    exact second.tiles)
  reports := by rw [second.reports, first.reports, Event.reports_append, List.append_assoc]
  tokens := by rw [Event.tokens_append, first.tokens, second.tokens]

variable [TokenFactory φ U V ε] {piece : Piece U V} {token : Token V}

section
variable (bearing : Bearing φ) {text : List U} {choice : Option (Choice V)}

theorem Bearing.text_event (full : text.length = consumed choice) :
    (bearing.event (bearing.piece text choice)).text = text := by
  cases choice with
  | none =>
    obtain ⟨unit, rfl⟩ := List.length_eq_one_iff.mp full
    rfl
  | some choice => cases choice <;> rfl

theorem Bearing.position_event :
    (bearing.event (bearing.piece text choice)).position = bearing.position := by
  cases choice with
  | none => rfl
  | some choice => cases choice <;> rfl

theorem Bearing.not_isEnd_event :
    ¬ (bearing.event (bearing.piece text choice)).IsEnd := by
  cases choice with
  | none => exact id
  | some choice => cases choice <;> exact id

omit [ScanUnit U] in
theorem Bearing.token?_event (piece : Piece U V) :
    (bearing.event piece).token? = piece.token? := by
  cases piece <;> rfl

end

theorem Resolved.tiled (resolved : Resolved input scanner events piece after)
    (ready : scanner.Ready) : Tiled input scanner piece.token?.toList events after := by
  have still := (resolved.goesOn ready).1
  cases resolved with
  | ended nothing has bearing reports =>
    have spent : input = .ofList ([] : List U) := Stream'.Seq.ext fun index => by
      simpa using Stream'.Seq.le_stable input (Nat.zero_le index) nothing
    exact {
      has := has
      ready := still
      tabWidth := congrArg Bearing.tabWidth bearing
      position := congrArg Bearing.position bearing
      tiles := .single rfl rfl (fun _ => spent) fun piece => piece.elim
      reports := by rw [reports, Event.reports_singleton]
      tokens := rfl }
  | @piece looked ruled after trail tried choice _ reaches looks _ tries bearing some full
      settled =>
    have position : ruled.position = scanner.position := congrArg Bearing.position bearing
    have tabWidth : ruled.tabWidth = scanner.tabWidth := congrArg Bearing.tabWidth bearing
    have text := ruled.bearing.text_event full
    have texts : Event.texts (tried ++ [ruled.bearing.event
        (ruled.bearing.piece (input.take (consumed choice)) choice)]) =
          input.take (consumed choice) := by
      rw [Event.texts_append, tries.texts_eq, List.nil_append, Event.texts_singleton, text]
    have here (event : Event U V) (member : event ∈ tried) : ∃ candidate isAsked,
        event = .offered candidate isAsked ∧ candidate.position = scanner.position := by
      obtain ⟨candidate, isAsked, same, position⟩ := tries.offered_of_mem member
      exact ⟨candidate, isAsked, same, position.trans (congrArg Bearing.position looks.bearing)⟩
    have last : Tiles (max scanner.tabWidth 1) scanner.position input
        [ruled.bearing.event (ruled.bearing.piece (input.take (consumed choice)) choice)] := by
      refine .single (by rw [text, full]) (ruled.bearing.position_event.trans position)
        (fun ends => (ruled.bearing.not_isEnd_event ends).elim) fun _ => ?_
      rw [text]
      exact List.ne_nil_of_length_pos (by omega)
    have noToken : Event.tokens tried = [] := by
      refine List.filterMap_eq_nil_iff.mpr fun event member => ?_
      obtain ⟨candidate, isAsked, rfl, -⟩ := here event member
      rfl
    exact {
      has := by rw [texts, full]; exact settled.has
      ready := still
      tabWidth := (congrArg Bearing.tabWidth settled.bearing).trans tabWidth
      position := by
        rw [texts, ← position, ← tabWidth]
        exact congrArg Bearing.position settled.bearing
      tiles := (Tiles.of_offers here).append (by rw [tries.texts_eq]; exact last)
      reports := by
        rw [settled.reports, Event.reports_append, tries.reports_eq, Event.reports_singleton,
          tries.frame.2, looks.reports, List.nil_append]
      tokens := by
        rw [Event.tokens_append, noToken, Event.tokens_singleton, Bearing.token?_event]
        rfl }

variable [LawfulUnitSource σ U ε]

theorem Pulls.tiled (pulls : scanner.Pulls events token after) (has : scanner.Has input)
    (ready : scanner.Ready) : Tiled input scanner [token] events after := by
  induction pulls generalizing input with
  | last scans ends =>
    have tiled := (scans.resolved has ready).tiled ready
    rwa [ends] at tiled
  | further scans silent _ ih =>
    have tiled := (scans.resolved has ready).tiled ready
    rw [silent] at tiled
    exact tiled.append (ih tiled.has tiled.ready)

theorem Calls.tiled (calls : scanner.Calls tokens events after) (has : scanner.Has input)
    (ready : scanner.Ready) : Tiled input scanner tokens events after := by
  induction calls generalizing input with
  | done => exact .refl has ready
  | call _ pulls _ ih =>
    have tiled := pulls.tiled has ready
    exact tiled.append (ih tiled.has tiled.ready)

end TableDriven.Scanner
