import TableDriven.Proofs.Input.Lines

/-! # Input to the last unit

What a series of calls says about a source: that it hands out its input in order and to the end,
and refuses a buffer only for want of room (`UnitSource.Honest`).  A source is honest if each call
deals out what is left as `Deals` says, with the size that was last asked for still in force; this
holds of bytes, texts and lines (`sources_exact`).
-/

namespace TableDriven

namespace UnitSource

variable {σ U : Type} {ε : Type} [UnitSource σ U ε]

/-- A call of a source and what came of it. -/
structure FillCall (U : Type) where
  room : Nat
  answer : Except IoFault Fill
  written : List U

/-- The units that a call read, if it did. -/
def FillCall.read? (call : FillCall U) : Option (List U) :=
  match call.answer with
  | .ok (.read count) => some (call.written.take count)
  | _ => none

/-- The units that calls read, read by read. -/
def reads (calls : List (FillCall U)) : List (List U) := calls.filterMap FillCall.read?

def delivered (calls : List (FillCall U)) : List U := (reads calls).flatten

variable (ε) in
/-- Buffers of any size are offered to the source one after the other. -/
inductive Fills : σ → List (FillCall U) → σ → Prop where
  | done (source : σ) : Fills source [] source
  | step {source last : σ} {fuel room : Nat} {delivery : Delivery σ U ε}
      {calls : List (FillCall U)} (filled : fill fuel source room = .ok delivery)
      (onwards : Fills delivery.rest calls last) :
      Fills source (⟨room, delivery.answer, delivery.written⟩ :: calls) last

/-- What may come of a call that does not fail. -/
inductive FillCall.IsSound (call : FillCall U) : Prop where
  | read {count : Nat} (told : call.answer = .ok (.read count)) (positive : 1 ≤ count)
      (fits : count ≤ call.room) (whole : call.written.length = count)
  | ended (told : call.answer = .ok .eof) (nothing : call.written = [])
  | refused {wanted : Nat} (told : call.answer = .ok (.tooSmall wanted))
      (small : call.room < wanted) (nothing : call.written = [])

/-- Calls of a source that hands out `input`; `knows` says that the source can tell whether there is
more to come before it offers it.  The units that were read are those at the front of the input; the
end is told to a buffer that offers room once everything was read, and for ever; and the next buffer
of the size that was asked for is not refused. -/
structure Honest (knows : Prop) (input : Content U) (calls : List (FillCall U)) : Prop where
  inOrder : input.take (delivered calls).length = delivered calls
  sound : ∀ call ∈ calls, call.IsSound
  ended : ∀ front call back, calls = front ++ call :: back → call.answer = .ok .eof →
    0 < call.room → input = .ofList (delivered front) ∧
      ∀ later ∈ back, 0 < later.room → later.answer = .ok .eof
  refused : ∀ front call between next back wanted,
    calls = front ++ call :: (between ++ next :: back) → call.answer = .ok (.tooSmall wanted) →
    (∀ call ∈ between, call.room < wanted) → wanted ≤ next.room →
      (∃ count, next.answer = .ok (.read count)) ∨
        next.answer = .ok .eof ∧ input = .ofList (delivered front) ∧ ¬knows

variable (ε) in
/-- Whatever buffers it is offered, the source hands out `input`; once it is closed, nothing. -/
structure HandsOut (knows : Prop) (source : σ) (input : Content U) : Prop where
  honest : ∀ calls last, Fills ε source calls last → Honest knows input calls
  closed : ∀ calls middle later last, Fills ε source calls middle →
    Fills ε (close (ε := ε) middle).1 later last → ∀ call ∈ later, call.answer = .ok .eof

/-- What a source that has `input` left may answer to a buffer of `room` units; `due` is the size
that it last asked for, if it did. -/
inductive Deals (knows : Prop) (stands : σ → Content U → Option Nat → Prop) (input : Content U)
    (due : Option Nat) (room : Nat) : Delivery σ U ε → Prop where
  | read {units : List U} {rest : σ} {notes : List ε} (nonempty : units ≠ [])
      (fits : units.length ≤ room) (enough : ∀ asked, due = some asked → asked ≤ room)
      (next : input.take units.length = units)
      (goesOn : stands rest (input.drop units.length) none) :
      Deals knows stands input due room ⟨.ok (.read units.length), units, rest, notes⟩
  | ended {rest : σ} {notes : List ε} (nothing : 0 < room → input.get? 0 = none)
      (enough : ∀ asked, due = some asked → asked ≤ room ∧ ¬knows)
      (goesOn : stands rest input none) :
      Deals knows stands input due room ⟨.ok .eof, [], rest, notes⟩
  | refused {wanted : Nat} {rest : σ} {notes : List ε} (small : room < wanted)
      (more : room = 0 ∨ input.get? 0 ≠ none) (again : ∀ asked, due = some asked → asked = wanted)
      (goesOn : stands rest input (some wanted)) :
      Deals knows stands input due room ⟨.ok (.tooSmall wanted), [], rest, notes⟩

variable (ε) in
/-- A relation between sources, what they have left and what they asked for, that every call
keeps. -/
structure IsDealing (knows : Prop) (stands : σ → Content U → Option Nat → Prop) : Prop where
  fill_deals : ∀ {source : σ} {input : Content U} {due : Option Nat} {fuel room : Nat}
    {delivery : Delivery σ U ε}, stands source input due → fill fuel source room = .ok delivery →
      Deals knows stands input due room delivery

@[simp] theorem reads_append (front back : List (FillCall U)) :
    reads (front ++ back) = reads front ++ reads back := List.filterMap_append

@[simp] theorem delivered_append (front back : List (FillCall U)) :
    delivered (front ++ back) = delivered front ++ delivered back := by
  rw [delivered, reads_append, List.flatten_append]
  rfl

theorem delivered_cons (call : FillCall U) (calls : List (FillCall U)) :
    delivered (call :: calls) = delivered [call] ++ delivered calls :=
  delivered_append [call] calls

theorem Fills.split {source last : σ} {front back : List (FillCall U)}
    (fills : Fills ε source (front ++ back) last) :
    ∃ middle, Fills ε source front middle ∧ Fills ε middle back last := by
  induction front generalizing source with
  | nil => exact ⟨source, .done source, fills⟩
  | cons call front ih =>
    cases fills with
    | step filled onwards =>
      obtain ⟨middle, first, second⟩ := ih onwards
      exact ⟨middle, .step filled first, second⟩

section
variable {knows : Prop} {stands : σ → Content U → Option Nat → Prop} {source last : σ}
  {input : Content U} {due : Option Nat} {calls front back : List (FillCall U)}
  {call : FillCall U}

omit [UnitSource σ U ε] in
/-- What a call reads is next, and it leaves the rest. -/
theorem Deals.moves {room : Nat} {delivery : Delivery σ U ε}
    (deals : Deals knows stands input due room delivery) :
    ∃ units later, delivered [⟨room, delivery.answer, delivery.written⟩] = units ∧
      input.take units.length = units ∧ stands delivery.rest (input.drop units.length) later := by
  cases deals with
  | @read units rest notes nonempty fits enough next goesOn =>
    refine ⟨units, none, ?_, next, goesOn⟩
    change [units.take units.length].flatten = units
    rw [List.take_length, List.flatten_singleton]
  | ended nothing enough goesOn => exact ⟨[], _, rfl, Stream'.Seq.take_zero, goesOn⟩
  | refused small more again goesOn => exact ⟨[], _, rfl, Stream'.Seq.take_zero, goesOn⟩

theorem Fills.moves (dealing : IsDealing ε knows stands) (related : stands source input due)
    (fills : Fills ε source calls last) :
    input.take (delivered calls).length = delivered calls ∧
      ∃ later, stands last (input.drop (delivered calls).length) later := by
  induction fills generalizing input due with
  | done source => exact ⟨Stream'.Seq.take_zero, due, related⟩
  | step filled onwards ih =>
    obtain ⟨units, later, same, next, related⟩ := (dealing.fill_deals related filled).moves
    obtain ⟨follows, later, related⟩ := ih related
    rw [delivered_cons, same, List.length_append, ← Content.drop_drop]
    refine ⟨?_, later, related⟩
    rw [Content.take_add _ _ (congrArg List.length next), next, follows]

/-- Before each call of a series the source stands behind what the calls before it read. -/
theorem Fills.deals (dealing : IsDealing ε knows stands) (related : stands source input due)
    (fills : Fills ε source (front ++ call :: back) last) :
    ∃ (later : Option Nat) (delivery : Delivery σ U ε),
      call = ⟨call.room, delivery.answer, delivery.written⟩ ∧
      Deals knows stands (input.drop (delivered front).length) later call.room delivery ∧
      Fills ε delivery.rest back last := by
  obtain ⟨middle, first, second⟩ := fills.split
  obtain ⟨-, later, related⟩ := first.moves dealing related
  cases second with
  | @step _ _ fuel room delivery _ filled onwards =>
    exact ⟨later, delivery, rfl, dealing.fill_deals related filled, onwards⟩

/-- Behind its end a source tells the end to every buffer that offers room. -/
theorem Fills.ended (dealing : IsDealing ε knows stands) (related : stands source input due)
    (nothing : input.get? 0 = none) (fills : Fills ε source calls last) :
    ∀ later ∈ calls, 0 < later.room → later.answer = .ok .eof := by
  intro later member free
  obtain ⟨front, back, rfl⟩ := List.append_of_mem member
  obtain ⟨due, delivery, same, deals, -⟩ := fills.deals dealing related
  have none : (input.drop (delivered front).length).get? 0 = none := by
    rw [Stream'.Seq.drop_get?]
    exact Stream'.Seq.le_stable input (Nat.zero_le _) nothing
  rw [same]
  cases deals with
  | ended => rfl
  | refused small more =>
    exact absurd none (more.resolve_left (Nat.pos_iff_ne_zero.mp free))
  | @read units rest notes nonempty fits enough next goesOn =>
    have first := Stream'.Seq.getElem?_take 0 units.length (input.drop (delivered front).length)
    rw [if_pos (List.length_pos_iff.mpr nonempty), next, none, List.getElem?_eq_none_iff] at first
    exact absurd (List.eq_nil_of_length_eq_zero (Nat.le_zero.mp first)) nonempty

/-- As long as no buffer has the size that was asked for, the source asks for that size. -/
theorem Fills.asked {wanted : Nat} {next : FillCall U} (dealing : IsDealing ε knows stands)
    (related : stands source input (some wanted)) (positive : 0 < wanted)
    (fills : Fills ε source (front ++ next :: back) last)
    (small : ∀ call ∈ front, call.room < wanted) (enough : wanted ≤ next.room) :
    (∃ count, next.answer = .ok (.read count)) ∨
      next.answer = .ok .eof ∧ input.get? 0 = none ∧ ¬knows := by
  induction front generalizing source with
  | nil =>
    cases fills with
    | step filled onwards =>
      cases dealing.fill_deals related filled with
      | @read units => exact .inl ⟨units.length, rfl⟩
      | ended nothing unknown =>
        exact .inr ⟨rfl, nothing (Nat.lt_of_lt_of_le positive enough), (unknown _ rfl).2⟩
      | refused small more again =>
        obtain rfl := again _ rfl
        exact absurd enough (Nat.not_le_of_lt small)
  | cons call front ih =>
    obtain ⟨less, others⟩ := List.forall_mem_cons.mp small
    cases fills with
    | step filled onwards =>
      cases dealing.fill_deals related filled with
      | read nonempty fits enough => exact absurd (enough _ rfl) (Nat.not_le_of_lt less)
      | ended nothing enough => exact absurd (enough _ rfl).1 (Nat.not_le_of_lt less)
      | refused _ more again goesOn => exact ih (again _ rfl ▸ goesOn) onwards others

omit [UnitSource σ U ε] in
theorem Deals.isSound {room : Nat} {delivery : Delivery σ U ε}
    (deals : Deals knows stands input due room delivery) :
    FillCall.IsSound ⟨room, delivery.answer, delivery.written⟩ := by
  cases deals with
  | read nonempty fits => exact .read rfl (List.length_pos_iff.mpr nonempty) fits rfl
  | ended => exact .ended rfl rfl
  | refused small => exact .refused rfl small rfl

/-- If nothing is left behind some calls, they have read the whole input. -/
theorem Fills.whole (dealing : IsDealing ε knows stands) (related : stands source input due)
    (fills : Fills ε source (front ++ back) last)
    (nothing : (input.drop (delivered front).length).get? 0 = none) :
    input = .ofList (delivered front) := by
  obtain ⟨middle, first, -⟩ := fills.split
  have empty : input.drop (delivered front).length = Stream'.Seq.ofList [] := by
    rw [Stream'.Seq.ofList_nil]
    apply Stream'.Seq.ext
    intro index
    rw [Stream'.Seq.get?_nil]
    exact Stream'.Seq.le_stable _ (Nat.zero_le index) nothing
  have same := Content.eq_ofList_append (first.moves dealing related).1 empty
  rwa [List.append_nil] at same

/-- The end is told when the whole input was read, and from then on. -/
theorem Fills.told_end (dealing : IsDealing ε knows stands) (related : stands source input due)
    (fills : Fills ε source (front ++ call :: back) last) (told : call.answer = .ok .eof)
    (free : 0 < call.room) : input = .ofList (delivered front) ∧
      ∀ later ∈ back, 0 < later.room → later.answer = .ok .eof := by
  obtain ⟨due, delivery, same, deals, onwards⟩ := fills.deals dealing related
  rw [same] at told
  cases deals with
  | read => cases told
  | refused => cases told
  | ended nothing enough goesOn =>
    exact ⟨fills.whole dealing related (nothing free),
      onwards.ended dealing goesOn (nothing free)⟩

/-- A buffer of the size that was asked for is not refused. -/
theorem Fills.told_size {between : List (FillCall U)} {next : FillCall U} {wanted : Nat}
    (dealing : IsDealing ε knows stands) (related : stands source input due)
    (fills : Fills ε source (front ++ call :: (between ++ next :: back)) last)
    (told : call.answer = .ok (.tooSmall wanted))
    (small : ∀ other ∈ between, other.room < wanted) (enough : wanted ≤ next.room) :
    (∃ count, next.answer = .ok (.read count)) ∨
      next.answer = .ok .eof ∧ input = .ofList (delivered front) ∧ ¬knows := by
  obtain ⟨due, delivery, same, deals, onwards⟩ := fills.deals dealing related
  rw [same] at told
  cases deals with
  | read => cases told
  | ended => cases told
  | refused less more again goesOn =>
    cases told
    obtain read | ⟨ended, nothing, unknown⟩ :=
      onwards.asked dealing goesOn (Nat.zero_lt_of_lt less) small enough
    · exact .inl read
    · exact .inr ⟨ended, fills.whole dealing related nothing, unknown⟩

variable (due) in
/-- A source that deals out its input call by call hands it out to any series of calls. -/
theorem Fills.honest (dealing : IsDealing ε knows stands) (related : stands source input due)
    (fills : Fills ε source calls last) : Honest knows input calls := by
  constructor
  · exact (fills.moves dealing related).1
  · intro call member
    obtain ⟨front, back, rfl⟩ := List.append_of_mem member
    obtain ⟨due, delivery, same, deals, -⟩ := fills.deals dealing related
    rw [same]
    exact deals.isSound
  · rintro front call back rfl told free
    exact fills.told_end dealing related told free
  · rintro front call between next back wanted rfl told small enough
    exact fills.told_size dealing related told small enough

end

/-! ## Answers -/

variable (ε) in
/-- Whatever the source was offered, it answers every further buffer. -/
def Answers (source : σ) : Prop :=
  ∀ calls last, Fills ε source calls last → ∀ room,
    ∃ (fuel : Nat) (delivery : Delivery σ U ε), fill fuel last room = .ok delivery

/-- A property with which a source answers every call, and which it then still has. -/
theorem answers_of_kept [LawfulUnitSource σ U ε] (property : σ → Prop) {source : σ}
    (kept : ∀ source room, property source → ∃ (fuel : Nat) (delivery : Delivery σ U ε),
      fill fuel source room = .ok delivery ∧ property delivery.rest)
    (has : property source) : Answers ε source := by
  intro calls last fills room
  induction fills with
  | done source =>
    obtain ⟨fuel, delivery, filled, -⟩ := kept source room has
    exact ⟨fuel, delivery, filled⟩
  | @step source last fuel offered delivery calls filled onwards ih =>
    obtain ⟨enough, other, again, has⟩ := kept source offered has
    have first := LawfulUnitSource.fill_mono filled (Nat.le_max_left fuel enough)
    have second := LawfulUnitSource.fill_mono again (Nat.le_max_right fuel enough)
    obtain rfl := Except.ok.inj (first.symm.trans second)
    exact ih has

/-- A source that tells the end whatever it is offered, and stays as it is. -/
theorem Fills.shut {source last : σ} {later : List (FillCall U)}
    (shut : ∀ fuel room, fill fuel source room =
      .ok (.silent (.ok .eof) source : Delivery σ U ε))
    (fills : Fills ε source later last) : ∀ call ∈ later, call.answer = .ok .eof := by
  induction fills with
  | done => nofun
  | step filled onwards ih =>
    cases (shut _ _).symm.trans filled
    exact List.forall_mem_cons.mpr ⟨rfl, ih shut⟩

end UnitSource

open UnitSource

namespace ByteSource

variable {ρ : Type} [Reader ρ] {ε : Type}

/-- A source of bytes asks for one byte at most, and cannot tell whether there is one. -/
theorem isDealing : IsDealing ε False fun (source : ByteSource ρ) input due =>
    ∃ reader, source = ⟨some reader⟩ ∧ Reader.Offers reader input ∧
      ∀ asked, due = some asked → asked = 1 := by
  constructor
  rintro source input due fuel room delivery ⟨reader, rfl, offers, one⟩ filled
  obtain rfl | free := Nat.eq_zero_or_pos room
  · cases filled
    exact .refused Nat.one_pos (.inl rfl) one
      ⟨reader, rfl, offers, fun _ same => (Option.some.inj same).symm⟩
  have enough (asked : Nat) (same : due = some asked) : asked ≤ room := by
    rw [one asked same]
    exact free
  change ByteSource.fill fuel _ room = _ at filled
  simp only [ByteSource.fill, if_neg (Nat.pos_iff_ne_zero.mp free)] at filled
  obtain ⟨answer, insisted, filled⟩ := bind_eq_ok_iff.mp filled
  obtain ⟨chunk, rest, rfl, fits, begins, ends, goesOn⟩ := offers.insist free insisted
  cases chunk with
  | nil =>
    cases filled
    exact .ended (fun _ => ends rfl) (fun asked same => ⟨enough asked same, id⟩)
      ⟨rest, rfl, goesOn, fun _ unasked => by cases unasked⟩
  | cons byte chunk =>
    cases filled
    exact .read (List.cons_ne_nil byte chunk) fits enough begins
      ⟨rest, rfl, goesOn, fun _ unasked => by cases unasked⟩

theorem handsOut {reader : ρ} {input : Content UInt8} (offers : Reader.Offers reader input) :
    HandsOut ε False (⟨some reader⟩ : ByteSource ρ) input where
  honest _ _ fills := fills.honest none isDealing ⟨reader, rfl, offers, nofun⟩
  closed _ _ _ _ _ fills := fills.shut fun _ _ => rfl

theorem answers {reader : ρ} {input : Content UInt8} (offers : Reader.Offers reader input)
    (responds : Reader.Responds reader) : Answers ε (⟨some reader⟩ : ByteSource ρ) := by
  refine answers_of_kept (fun source => ∃ reader input, source = ⟨some reader⟩ ∧
    Reader.Offers reader input ∧ Reader.Responds reader) ?_ ⟨reader, input, rfl, offers, responds⟩
  rintro _ room ⟨reader, input, rfl, offers, responds⟩
  obtain rfl | free := Nat.eq_zero_or_pos room
  · exact ⟨0, _, rfl, reader, input, rfl, offers, responds⟩
  obtain ⟨fuel, answer, rest, insisted, responds⟩ := responds.insist free
  obtain ⟨chunk, rest, same, -, -, -, goesOn⟩ := offers.insist free insisted
  cases same
  have filled : UnitSource.fill fuel (⟨some reader⟩ : ByteSource ρ) room = _ :=
    (if_neg (Nat.pos_iff_ne_zero.mp free) : fill (ε := ε) fuel ⟨some reader⟩ room = _)
  rw [insisted, ok_bind] at filled
  cases chunk with
  | nil => exact ⟨fuel, _, filled, rest, _, rfl, goesOn, responds⟩
  | cons byte chunk => exact ⟨fuel, _, filled, rest, _, rfl, goesOn, responds⟩

end ByteSource

namespace TextSource

variable {ε : Type}

instance : LawfulUnitSource TextSource Char ε where
  fill_mono filled _ := filled

theorem fill_cons {char : Char} {text : List Char} {room : Nat} (free : 0 < room) :
    (fill ⟨char :: text⟩ room : Delivery TextSource Char ε) =
      .exactly ((char :: text).take room) ⟨(char :: text).drop room⟩ :=
  if_neg (Nat.pos_iff_ne_zero.mp free)

/-- A text asks for one character at most, and only if it has one. -/
theorem isDealing : IsDealing ε True fun (source : TextSource) input due =>
    input = .ofList source.rest ∧ ∀ asked, due = some asked → asked = 1 ∧ source.rest ≠ [] := by
  constructor
  rintro ⟨text⟩ input due fuel room delivery ⟨rfl, one⟩ filled
  change Except.ok (TextSource.fill _ room) = _ at filled
  cases text with
  | nil =>
    cases filled
    exact .ended (fun _ => rfl) (fun asked same => absurd rfl (one asked same).2) ⟨rfl, nofun⟩
  | cons char text =>
    obtain rfl | free := Nat.eq_zero_or_pos room
    · cases filled
      refine .refused Nat.one_pos (.inl rfl) (fun asked same => (one asked same).1)
        ⟨rfl, fun asked same => ⟨(Option.some.inj same).symm, List.cons_ne_nil char text⟩⟩
    · rw [fill_cons free] at filled
      cases filled
      refine .read ?_ ?_ ?_ ?_ ⟨?_, nofun⟩
      · rw [Ne, List.take_eq_nil_iff]
        exact not_or.mpr ⟨Nat.pos_iff_ne_zero.mp free, List.cons_ne_nil char text⟩
      · exact List.length_take_le _ _
      · intro asked same
        rw [(one asked same).1]
        exact free
      · rw [Content.take_ofList, List.length_take, ← List.take_eq_take_min]
      · rw [Content.drop_ofList, List.length_take, ← List.drop_eq_drop_min]

theorem handsOut (text : String) :
    HandsOut ε True (TextSource.ofString text) (.ofList text.toList) where
  honest _ _ fills := fills.honest none isDealing ⟨rfl, nofun⟩
  closed _ _ _ _ _ fills := fills.shut fun _ _ => rfl

theorem answers (source : TextSource) : Answers ε source := fun _ last _ room =>
  ⟨0, last.fill room, rfl⟩

end TextSource

/-! ## Lines -/

namespace LineSource

variable {ρ : Type} [Reader ρ] {ε : Type}

/-- The source has these lines left, the first of which may be read already. -/
def Holds (source : LineSource ρ) (lines : List (List Char)) : Prop :=
  ∃ reader bytes text, source.reader = some reader ∧ Reader.Offers reader (.ofList bytes) ∧
    source.held ++ bytes = text.flatMap String.utf8EncodeChar ∧
    lines = (if source.line = [] then [] else [source.line]) ++ linesOf text

/-- What a source that has these lines left does with a buffer of `room` units. -/
inductive Passes (lines : List (List Char)) (room : Nat) :
    Delivery (LineSource ρ) Char ε → Prop where
  | read {line : List Char} {more : List (List Char)} {rest : LineSource ρ}
      (first : lines = line :: more) (nonempty : line ≠ []) (fits : line.length ≤ room)
      (taken : rest.line = []) (holds : rest.Holds more) : Passes lines room (.exactly line rest)
  | ended {rest : LineSource ρ} (nothing : lines = []) (nothing : rest.line = [])
      (holds : rest.Holds []) : Passes lines room (.silent (.ok .eof) rest)
  | refused {rest : LineSource ρ} (nonempty : rest.line ≠ []) (small : room < rest.line.length)
      (holds : rest.Holds lines) :
      Passes lines room (.silent (.ok (.tooSmall rest.line.length)) rest)

theorem Holds.first {source : LineSource ρ} {lines : List (List Char)} (holds : source.Holds lines)
    (nonempty : source.line ≠ []) :
    ∃ more, lines = source.line :: more ∧ { source with line := [] }.Holds more := by
  obtain ⟨reader, bytes, text, open', offers, spells, rfl⟩ := holds
  rw [if_neg nonempty]
  exact ⟨linesOf text, rfl, reader, bytes, text, open', offers, spells, rfl⟩

theorem Holds.hand_passes {source : LineSource ρ} {lines : List (List Char)}
    (holds : source.Holds lines) (nonempty : source.line ≠ []) (room : Nat) :
    Passes lines room (source.hand room : Delivery (LineSource ρ) Char ε) := by
  obtain ⟨more, first, rest⟩ := holds.first nonempty
  rw [hand]
  split
  next small => exact .refused nonempty small holds
  next fits => exact .read first nonempty (Nat.le_of_not_lt fits) rfl rest

/-- What a source goes on with once a line is read. -/
def passOn (room : Nat) :
    Except IoFault (List UInt8 × List UInt8) × ρ → Run (Delivery (LineSource ρ) Char ε)
  | (.error cause, reader) => return .silent (.error cause) ⟨some reader, [], []⟩
  | (.ok ([], held), reader) => return .silent (.ok .eof) ⟨some reader, held, []⟩
  | (.ok (bytes, held), reader) =>
    match Text.Utf8.decode bytes with
    | .ok line => return hand ⟨some reader, held, line.toList⟩ room
    | .error _ => return .silent (.error .invalidText) ⟨some reader, held, []⟩

theorem fill_eq (reader : ρ) (held : List UInt8) (fuel room : Nat) :
    fill fuel ⟨some reader, held, []⟩ room =
      readLine fuel reader [] held >>= passOn (ε := ε) room := rfl

omit [Reader ρ] in
/-- A line that was read is what its bytes spell. -/
theorem passOn_of_spelled {reader : ρ} {held line : List UInt8} {text : List Char} {room : Nat}
    (nonempty : line ≠ []) (spells : text.flatMap String.utf8EncodeChar = line) :
    passOn (ε := ε) room (.ok (line, held), reader) =
      .ok (hand ⟨some reader, held, text⟩ room) := by
  cases line with
  | nil => exact absurd rfl nonempty
  | cons byte line =>
    rw [passOn, ← spells, ← encode_ofList, Text.Utf8.decode_encode]
    · simp only [String.toList_ofList]
      rfl
    · rintro ⟨⟩

theorem Holds.fill_passes {source : LineSource ρ} {lines : List (List Char)}
    (holds : source.Holds lines) {fuel room : Nat} {delivery : Delivery (LineSource ρ) Char ε}
    (filled : source.fill fuel room = .ok delivery) : Passes lines room delivery := by
  obtain ⟨reader, held, line⟩ := source
  cases line with
  | cons char line =>
    cases filled
    exact holds.hand_passes (List.cons_ne_nil char line) room
  | nil =>
    obtain ⟨reader, bytes, text, rfl, offers, spells, rfl⟩ := holds
    rw [if_pos rfl, List.nil_append]
    rw [fill_eq] at filled
    obtain ⟨answered, read, filled⟩ := bind_eq_ok_iff.mp filled
    obtain ⟨line, behind, rest, later, rfl, offers, split⟩ :=
      readLine_ok List.not_mem_nil offers read
    change held ++ bytes = _ at spells
    rw [List.reverse_nil, List.nil_append, spells] at split
    obtain ⟨body, unbroken, rfl, split⟩ | ⟨unbroken, rfl, rfl, rfl⟩ := split
    · obtain ⟨front, back, rfl, whole, rfl, follows⟩ := exists_line unbroken split
      have spelled : (front ++ ['\n']).flatMap String.utf8EncodeChar =
          front.flatMap String.utf8EncodeChar ++ [0x0A] := List.flatMap_append
      rw [passOn_of_spelled (by simp) spelled] at filled
      cases filled
      have nonempty : front ++ ['\n'] ≠ [] := by simp
      refine Holds.hand_passes ?_ nonempty room
      refine ⟨rest, later, back, rfl, offers, follows.symm, ?_⟩
      rw [linesOf_append whole, if_neg nonempty]
      rfl
    · cases text with
      | nil =>
        cases filled
        exact .ended rfl rfl ⟨rest, [], [], rfl, offers, rfl, rfl⟩
      | cons char text =>
        have whole : '\n' ∉ char :: text := fun member =>
          unbroken (newline_mem_flatMap.mpr member)
        have nonempty : (char :: text).flatMap String.utf8EncodeChar ≠ [] := by
          rw [List.flatMap_cons]
          exact List.append_ne_nil_of_left_ne_nil (String.utf8EncodeChar_ne_nil) _
        rw [passOn_of_spelled nonempty rfl] at filled
        cases filled
        refine Holds.hand_passes ?_ (List.cons_ne_nil char text) room
        refine ⟨rest, [], [], rfl, offers, rfl, ?_⟩
        rw [linesOf_unbroken whole (List.cons_ne_nil char text),
          if_neg (List.cons_ne_nil char text)]
        rfl

/-- A source of lines asks for the length of the line that it has read. -/
theorem isDealing : IsDealing ε True fun (source : LineSource ρ) input due =>
    ∃ lines, source.Holds lines ∧ input = .ofList lines.flatten ∧
      ∀ asked, due = some asked → source.line ≠ [] ∧ asked = source.line.length := by
  constructor
  rintro source input due fuel room delivery ⟨lines, holds, rfl, read⟩ filled
  -- The line that was asked for is the first.
  have known {asked : Nat} (same : due = some asked) :
      ∃ more, lines = source.line :: more ∧ asked = source.line.length := by
    obtain ⟨nonempty, rfl⟩ := read asked same
    obtain ⟨more, first, -⟩ := holds.first nonempty
    exact ⟨more, first, rfl⟩
  cases holds.fill_passes filled with
  | @read line more rest first nonempty fits taken goesOn =>
    subst first
    refine .read nonempty fits (fun asked same => ?_) ?_ ⟨more, goesOn, ?_, nofun⟩
    · obtain ⟨more, first, rfl⟩ := known same
      rwa [← (List.cons.inj first).1]
    · rw [Content.take_ofList, List.flatten_cons, List.take_left]
    · rw [Content.drop_ofList, List.flatten_cons, List.drop_left]
  | ended nothing taken goesOn =>
    subst nothing
    refine .ended (fun _ => rfl) (fun asked same => ?_) ⟨[], goesOn, rfl, nofun⟩
    obtain ⟨more, first, -⟩ := known same
    cases first
  | @refused rest nonempty small goesOn =>
    obtain ⟨more, first, -⟩ := goesOn.first nonempty
    refine .refused small (.inr ?_) (fun asked same => ?_) ⟨lines, goesOn, rfl, ?_⟩
    · rw [first, List.flatten_cons, Stream'.Seq.ofList_get?]
      obtain ⟨char, line, shape⟩ := List.exists_cons_of_ne_nil nonempty
      rw [shape]
      nofun
    · obtain ⟨others, begins, rfl⟩ := known same
      rw [(List.cons.inj (first.symm.trans begins)).1]
    · intro asked same
      exact ⟨nonempty, (Option.some.inj same).symm⟩

/-- What is read of lines is whole lines. -/
theorem reads_prefix {source last : LineSource ρ} {lines : List (List Char)}
    {calls : List (FillCall Char)} (holds : source.Holds lines)
    (fills : Fills ε source calls last) :
    reads calls <+: lines := by
  induction fills generalizing lines with
  | done => exact List.nil_prefix
  | step filled onwards ih =>
    cases holds.fill_passes filled with
    | @read line more rest first nonempty fits taken goesOn =>
      subst first
      change line.take line.length :: reads _ <+: line :: more
      rw [List.take_length]
      exact (List.cons_prefix_cons).mpr ⟨rfl, ih goesOn⟩
    | ended nothing taken goesOn => exact nothing ▸ ih goesOn
    | refused nonempty small goesOn => exact ih goesOn

theorem holds_ofReader {reader : ρ} {text : String}
    (offers : Reader.Offers reader (.ofList (Text.Utf8.encode text))) :
    (ofReader reader).Holds (linesOf text.toList) := by
  refine ⟨reader, Text.Utf8.encode text, text.toList, rfl, offers, ?_, rfl⟩
  rw [← encode_ofList, String.ofList_toList]
  rfl

theorem handsOut {reader : ρ} {text : String}
    (offers : Reader.Offers reader (.ofList (Text.Utf8.encode text))) :
    HandsOut ε True (ofReader reader) (.ofList text.toList) where
  honest _ _ fills := fills.honest none isDealing
    ⟨linesOf text.toList, holds_ofReader offers, by rw [flatten_linesOf], nofun⟩
  closed _ _ _ _ _ fills := fills.shut fun _ _ => rfl

/-- A source of lines answers as long as its reader does. -/
theorem answers {reader : ρ} {bytes : List UInt8} (offers : Reader.Offers reader (.ofList bytes))
    (responds : Reader.Responds reader) : Answers ε (ofReader reader) := by
  refine answers_of_kept (fun source => ∃ reader bytes,
    source.reader = some reader ∧ Reader.Offers reader (.ofList bytes) ∧
      Reader.Responds reader) ?_ ⟨reader, bytes, rfl, offers, responds⟩
  rintro ⟨_, held, line⟩ room ⟨reader, bytes, rfl, offers, responds⟩
  cases line with
  | cons char line =>
    refine ⟨0, hand ⟨some reader, held, char :: line⟩ room, rfl, reader, bytes, ?_, offers,
      responds⟩
    rw [hand]
    split <;> rfl
  | nil =>
    obtain ⟨fuel, answered, told, responds⟩ := exists_readLine responds offers
    obtain ⟨line, behind, rest, later, rfl, offers, -⟩ := readLine_ok List.not_mem_nil offers told
    have filled : fill (ε := ε) fuel ⟨some reader, held, []⟩ room =
        passOn room (.ok (line, behind), rest) := by rw [fill_eq, told, ok_bind]
    cases line with
    | nil => exact ⟨fuel, _, filled, rest, later, rfl, offers, responds⟩
    | cons byte line =>
      rw [passOn] at filled
      · split at filled
        next =>
          refine ⟨fuel, _, filled, rest, later, ?_, offers, responds⟩
          rw [hand]
          split <;> rfl
        next => exact ⟨fuel, _, filled, rest, later, rfl, offers, responds⟩
      · rintro ⟨⟩

end LineSource

/-- A source of bytes over a reader that fails at most by interruptions, a text, and the lines of a
reader of valid UTF-8 hand out their input to the last unit, whatever buffers they are offered, and
every read of lines is a line.  They answer every call if their reader is not interrupted for
ever. -/
theorem sources_exact (ε : Type) :
    (∀ {ρ : Type} [Reader ρ] (reader : ρ) (input : Content UInt8), Reader.Offers reader input →
      HandsOut ε False (⟨some reader⟩ : ByteSource ρ) input ∧
        (Reader.Responds reader → Answers ε (⟨some reader⟩ : ByteSource ρ))) ∧
    (∀ text : String, HandsOut ε True (TextSource.ofString text) (.ofList text.toList) ∧
      Answers ε (TextSource.ofString text)) ∧
    ∀ {ρ : Type} [Reader ρ] (reader : ρ) (text : String),
      Reader.Offers reader (.ofList (Text.Utf8.encode text)) →
        HandsOut ε True (LineSource.ofReader reader) (.ofList text.toList) ∧
        (∀ calls last, Fills ε (LineSource.ofReader reader) calls last →
          reads calls <+: LineSource.linesOf text.toList) ∧
        (Reader.Responds reader → Answers ε (LineSource.ofReader reader)) := by
  refine ⟨fun reader input offers => ⟨ByteSource.handsOut offers, ByteSource.answers offers⟩,
    fun text => ⟨TextSource.handsOut text, TextSource.answers _⟩, fun reader text offers => ?_⟩
  exact ⟨LineSource.handsOut offers,
    fun _ _ fills => LineSource.reads_prefix (LineSource.holds_ofReader offers) fills,
    LineSource.answers offers⟩

/-- Two lines, the second without a line break, read three bytes at a time with interruptions. -/
def interrupted (calls : Nat) (bytes : List UInt8) : Memory where
  bytes := bytes
  chunk := some 3
  interrupt := some 2
  calls := calls

/-- The calls for two lines, the second without a line break. -/
def twoLines : List (FillCall Char) :=
  [⟨1, .ok (.tooSmall 3), []⟩, ⟨0, .ok (.tooSmall 3), []⟩, ⟨4, .ok (.read 3), ['é', '€', '\n']⟩,
    ⟨2, .ok (.read 2), ['a', 'b']⟩, ⟨0, .ok .eof, []⟩]

theorem sources_exact_twoLines :
    ∃ last, Fills Unit (LineSource.ofReader (interrupted 0 (Text.Utf8.encode "é€\nab")))
        twoLines last ∧
      reads twoLines <+: LineSource.linesOf "é€\nab".toList ∧
      Honest True (.ofList "é€\nab".toList) twoLines := by
  have offers : Reader.Offers (interrupted 0 (Text.Utf8.encode "é€\nab"))
      (.ofList (Text.Utf8.encode "é€\nab")) := Memory.offers rfl nofun
  obtain ⟨hands, lines, -⟩ := (sources_exact Unit).2.2 _ "é€\nab" offers
  have step {source rest last : LineSource Memory} {room : Nat} {answer : Except IoFault Fill}
      {written : List Char} {notes : List Unit} {calls : List (FillCall Char)}
      (filled : UnitSource.fill 9 source room = .ok ⟨answer, written, rest, notes⟩)
      (onwards : Fills Unit rest calls last) :
      Fills Unit source (⟨room, answer, written⟩ :: calls) last := .step filled onwards
  have fills : Fills Unit (LineSource.ofReader (interrupted 0 (Text.Utf8.encode "é€\nab")))
      twoLines ⟨some (interrupted 9 []), [], []⟩ :=
    step rfl (step rfl (step rfl (step rfl (step rfl (.done _)))))
  exact ⟨_, fills, lines _ _ fills, hands.honest _ _ fills⟩

end TableDriven
