import TableDriven.Proofs.Input.Delivers
import TableDriven.Proofs.Scanner.Fuel
import TableDriven.Proofs.Scanner.Window

/-! # Reading ahead

`Scanner.Has` says that a scanner has `input` in front of it: the first units in its window, the
others still with a source that delivers them.  Reading more input keeps that and leaves alone all
that the scanner decides by, its `Bearing` (`fillMore_ok`, `fillMore_sound`).  Only the answer is
new, and it depends on the input alone.
-/

namespace TableDriven.Scanner

/-- What a scanner decides by, apart from the input. -/
structure Bearing (φ : Type) where
  lexicon : Lexicon
  eofSymbol : Nat
  tabWidth : UInt32
  factories : Array (Option φ)
  file : Option String
  isEofReported : Bool
  condition : Nat
  position : Position

def bearing (scanner : Scanner σ φ U ε) : Bearing φ where
  lexicon := scanner.lexicon
  eofSymbol := scanner.eofSymbol
  tabWidth := scanner.tabWidth
  factories := scanner.factories
  file := scanner.file
  isEofReported := scanner.isEofReported
  condition := scanner.condition
  position := scanner.position

/-- A notice for a scanner's client. -/
inductive Report (U : Type) where
  | eof (position : Position)
  | unmatched (unit : U) (position : Position)
  deriving DecidableEq

def Notice.report? : Notice U ε → Option (Report U)
  | .eof position => some (.eof position)
  | .unmatched unit position => some (.unmatched unit position)
  | .failed _ | .delivered .. | .grown .. | .unknownToken .. | .noted _ => none

/-- The notices for the client so far. -/
def reports (scanner : Scanner σ φ U ε) : List (Report U) :=
  scanner.journal.toList.filterMap Notice.report?

section
variable (scanner : Scanner σ φ U ε)

theorem reports_note (notice : Notice U ε) :
    (scanner.note notice).reports = scanner.reports ++ notice.report?.toList := by
  cases said : notice.report? <;> simp [reports, note, said]

@[simp] theorem reports_noteAll (notes : List ε) :
    (scanner.noteAll notes).reports = scanner.reports := by
  simp [reports, noteAll, List.filterMap_append, Notice.report?, Array.appendList_eq_append]

variable [ScanUnit U] (extra : Nat)

theorem window_makeRoom : (scanner.makeRoom extra).window = (scanner.window.makeRoom extra).1 := by
  simp only [makeRoom]
  split <;> rfl

theorem length_makeRoom : (scanner.makeRoom extra).window.length = scanner.window.length := by
  rw [window_makeRoom, Window.length_makeRoom]

@[simp] theorem source_makeRoom : (scanner.makeRoom extra).source = scanner.source := by
  simp only [makeRoom]
  split <;> rfl

@[simp] theorem isExhausted_makeRoom :
    (scanner.makeRoom extra).isExhausted = scanner.isExhausted := by
  simp only [makeRoom]
  split <;> rfl

@[simp] theorem bearing_makeRoom : (scanner.makeRoom extra).bearing = scanner.bearing := by
  simp only [makeRoom]
  split <;> rfl

@[simp] theorem reports_makeRoom : (scanner.makeRoom extra).reports = scanner.reports := by
  simp only [makeRoom]
  split
  next => rfl
  next => rw [reports_note]; exact List.append_nil _

end

/-- The scanner after a call of its source, before it looks at the answer. -/
def received (scanner : Scanner σ φ U ε) (delivery : Delivery σ U ε) : Scanner σ φ U ε :=
  noteAll { scanner with
    source := some delivery.rest
    window := scanner.window.write delivery.written } delivery.notes

@[simp] theorem reports_received (scanner : Scanner σ φ U ε) (delivery : Delivery σ U ε) :
    (scanner.received delivery).reports = scanner.reports :=
  reports_noteAll _ _

/-! ## What lies ahead -/

variable {scanner : Scanner σ φ U ε} {input : Content U}

/-- The window holds the first units of `input`. -/
structure Holds (scanner : Scanner σ φ U ε) (input : Content U) : Prop where
  sound : scanner.window.Sound
  window : scanner.window.units = input.take scanner.window.length

theorem Holds.length_take (holds : scanner.Holds input) :
    (input.take scanner.window.length).length = scanner.window.length := by
  rw [← holds.window, holds.sound.length_units]

theorem Holds.received (holds : scanner.Holds input) (delivery : Delivery σ U ε) :
    (scanner.received delivery).Holds input :=
  ⟨holds.sound.write _, (Window.units_write holds.sound _).trans holds.window⟩

section
variable (holds : scanner.Holds input)
include holds

theorem Holds.length_take_of_le {count : Nat} (within : count ≤ scanner.window.length) :
    (input.take count).length = count := by
  rw [← Content.take_take within, List.length_take, holds.length_take, Nat.min_eq_left within]

/-- The window holds units of the input only. -/
theorem Holds.getElem?_units {index : Nat} (inside : index < scanner.window.length) :
    scanner.window.units[index]? = input.get? index := by
  rw [holds.window, Stream'.Seq.getElem?_take, if_pos inside]

theorem Holds.isSome_get? {index : Nat} (inside : index < scanner.window.length) :
    (input.get? index).isSome := by
  have there : index < scanner.window.units.length := holds.sound.length_units ▸ inside
  rw [← holds.getElem?_units inside, List.getElem?_eq_getElem there, Option.isSome_some]

theorem Holds.front_eq {count : Nat} (within : count ≤ scanner.window.length) :
    scanner.window.front count = input.take count := by
  rw [Window.front_eq within, holds.window, Content.take_take within]

theorem Holds.drop {other : Scanner σ φ U ε} {count : Nat} (within : count ≤ scanner.window.length)
    (rest : other.window = scanner.window.drop count) : other.Holds (input.drop count) ∧
      other.window.length + count = scanner.window.length := by
  have length : (scanner.window.drop count).length + count = scanner.window.length := by
    simp only [Window.length, Window.drop] at *
    omega
  refine ⟨⟨rest ▸ holds.sound.drop within, ?_⟩, rest ▸ length⟩
  rw [rest, Window.units_drop, holds.window, ← length, Nat.add_comm, Content.take_add count]
  · rw [List.drop_left' (holds.length_take_of_le within)]
  · exact holds.length_take_of_le within

/-- What a call of the source adds to the window. -/
theorem Holds.read {delivery : Delivery σ U ε} {count : Nat} (fits : count ≤ scanner.window.free)
    (enough : count ≤ delivery.written.length)
    (written : delivery.written.take count = (input.drop scanner.window.length).take count) :
    Holds { scanner.received delivery with
        window := (scanner.received delivery).window.extend count } input ∧
      ((scanner.received delivery).window.extend count).length =
        scanner.window.length + count := by
  have last : ((scanner.received delivery).window.extend count).length =
      scanner.window.length + count := by
    have := holds.sound.ordered
    simp only [Scanner.received, noteAll, Window.length, Window.extend, Window.write] at *
    omega
  refine ⟨⟨(holds.sound.write delivery.written).extend (by simpa using fits), ?_⟩, last⟩
  rw [last, Content.take_add _ _ holds.length_take, ← written, ← holds.window]
  exact Window.units_extend_write holds.sound fits enough

end

variable [UnitSource σ U ε]

/-- The scanner has `input` in front of it, and its source delivers what is not in the window. -/
structure Has (scanner : Scanner σ φ U ε) (input : Content U) : Prop
    extends scanner.Holds input where
  ended : scanner.isExhausted = true → input.get? scanner.window.length = none
  goesOn : scanner.isExhausted = false → ∃ source, scanner.source = some source ∧
    UnitSource.Delivers ε source (input.drop scanner.window.length)

namespace Has

/-- What lies ahead is a matter of the window and the source. -/
theorem congr {other : Scanner σ φ U ε} (has : scanner.Has input)
    (window : other.window = scanner.window) (source : other.source = scanner.source)
    (isExhausted : other.isExhausted = scanner.isExhausted) : other.Has input :=
  ⟨⟨window ▸ has.sound, window ▸ has.window⟩, by rw [window, isExhausted]; exact has.ended,
    by rw [window, isExhausted, source]; exact has.goesOn⟩

end Has

/-- Between two states of a scanner it has read input and done nothing else. -/
structure LooksAhead (input : Content U) (before after : Scanner σ φ U ε) : Prop where
  has : after.Has input
  keeps : before.window.length ≤ after.window.length
  bearing : after.bearing = before.bearing
  reports : after.reports = before.reports

theorem LooksAhead.refl (has : scanner.Has input) : LooksAhead input scanner scanner :=
  ⟨has, Nat.le_refl _, rfl, rfl⟩

theorem LooksAhead.trans {middle after : Scanner σ φ U ε} (first : LooksAhead input scanner middle)
    (second : LooksAhead input middle after) : LooksAhead input scanner after :=
  ⟨second.has, first.keeps.trans second.keeps, second.bearing.trans first.bearing,
    second.reports.trans first.reports⟩

/-- What reading more input comes to. -/
structure Filled (input : Content U) (before : Scanner σ φ U ε) (more : Bool)
    (after : Scanner σ φ U ε) : Prop extends LooksAhead input before after where
  told : more = (input.get? before.window.length).isSome
  grows : more = true → before.window.length < after.window.length

theorem Filled.from {before after : Scanner σ φ U ε} {more : Bool}
    (filled : Filled input before more after)
    (length : before.window.length = scanner.window.length)
    (bearing : before.bearing = scanner.bearing) (reports : before.reports = scanner.reports) :
    Filled input scanner more after where
  has := filled.has
  keeps := length ▸ filled.keeps
  bearing := filled.bearing.trans bearing
  reports := filled.reports.trans reports
  told := length ▸ filled.told
  grows := length ▸ filled.grows

section
variable {delivery : Delivery σ U ε}

theorem filled_read {count : Nat} (holds : scanner.Holds input)
    (goesOn : scanner.isExhausted = false) (some : 0 < count) (fits : count ≤ scanner.window.free)
    (enough : count ≤ delivery.written.length)
    (written : delivery.written.take count = (input.drop scanner.window.length).take count)
    (delivers : UnitSource.Delivers ε delivery.rest
      ((input.drop scanner.window.length).drop count)) :
    Filled input scanner true { scanner.received delivery with
      window := (scanner.received delivery).window.extend count } := by
  obtain ⟨more, last⟩ := holds.read fits enough written
  refine { has := ?_, keeps := ?_, bearing := rfl, reports := ?_, told := ?_, grows := ?_ }
  · refine ⟨more, fun exhausted => ?_, fun _ => ⟨delivery.rest, rfl, ?_⟩⟩
    · cases goesOn.symm.trans exhausted
    · change UnitSource.Delivers ε delivery.rest
        (input.drop ((scanner.received delivery).window.extend count).length)
      rw [last, ← Content.drop_drop]
      exact delivers
  · change _ ≤ ((scanner.received delivery).window.extend count).length
    omega
  · exact reports_received _ _
  · have inside : scanner.window.length < ((scanner.received delivery).window.extend count).length :=
      last ▸ Nat.lt_add_of_pos_right some
    exact (more.isSome_get? inside).symm
  · intro _
    change _ < ((scanner.received delivery).window.extend count).length
    omega

variable (delivery) in
theorem filled_ended (holds : scanner.Holds input)
    (ends : input.get? scanner.window.length = none) :
    Filled input scanner false { scanner.received delivery with isExhausted := true } where
  has := ⟨⟨(holds.received delivery).sound, (holds.received delivery).window⟩, fun _ => ends,
    fun goesOn => by cases goesOn⟩
  keeps := Nat.le_refl _
  bearing := rfl
  reports := reports_received _ _
  told := by simp [ends]
  grows more := by cases more

end

variable [ScanUnit U]

/-- A scanner forgets what it did before it opens a source. -/
theorem bearing_openSource (scanner : Scanner σ φ U ε) (source : σ)
    (file : Option String) : (scanner.openSource source file).bearing =
      { scanner.bearing with
        file
        isEofReported := false
        condition := 0
        position := .origin } := by
  simp only [openSource, close, bearing]
  split <;> rfl

/-- A source that was just opened lies ahead, whatever the scanner did before. -/
theorem has_openSource {source : σ} (scanner : Scanner σ φ U ε) (file : Option String)
    (delivers : UnitSource.Delivers ε source input) :
    (scanner.openSource source file).Has input where
  sound := Window.sound_reset _ _
  window := Window.units_reset _ _
  ended closed := by cases closed
  goesOn _ := ⟨source, rfl, delivers⟩

section
variable (holds : scanner.Holds input) (extra : Nat)
include holds

omit [UnitSource σ U ε] in
theorem Holds.makeRoom : (scanner.makeRoom extra).Holds input := by
  refine ⟨window_makeRoom scanner extra ▸ holds.sound.makeRoom, ?_⟩
  rw [length_makeRoom, window_makeRoom, Window.units_makeRoom holds.sound]
  exact holds.window

omit [UnitSource σ U ε] in
theorem Holds.free_makeRoom : extra ≤ (scanner.makeRoom extra).window.free ∧
    0 < (scanner.makeRoom extra).window.free := by
  rw [window_makeRoom]
  exact Window.free_makeRoom holds.sound

end

theorem Has.makeRoom (has : scanner.Has input) (extra : Nat) :
    (scanner.makeRoom extra).Has input :=
  ⟨has.toHolds.makeRoom extra, by simpa [length_makeRoom] using has.ended,
    by simpa [length_makeRoom] using has.goesOn⟩

theorem Has.consume (has : scanner.Has input) {count : Nat}
    (within : count ≤ scanner.window.length) :
    (scanner.consume count).2.Has (input.drop count) := by
  have rest : (scanner.consume count).2.window = scanner.window.drop count := rfl
  obtain ⟨holds, length⟩ := has.drop within rest
  refine ⟨holds, fun ended => ?_, fun goesOn => ?_⟩
  · rw [Stream'.Seq.drop_get?, Nat.add_comm, length]
    exact has.ended ended
  · obtain ⟨source, opened, delivers⟩ := has.goesOn goesOn
    refine ⟨source, opened, ?_⟩
    rw [Content.drop_drop, Nat.add_comm, length]
    exact delivers

/-! ## Reading more -/

theorem Holds.fillMore_makeRoom (holds : scanner.Holds input)
    (goesOn : scanner.isExhausted = false) (full : scanner.window.free = 0) (fuel : Nat) :
    (scanner.makeRoom 1).fillMore fuel = scanner.fillMore fuel := by
  have free : (scanner.makeRoom 1).window.free ≠ 0 := by
    have := (holds.free_makeRoom 1).2
    omega
  cases fuel with
  | zero => rfl
  | succ fuel => simp [fillMore, goesOn, full, free]

section
variable {source : σ} {delivery : Delivery σ U ε} {fuel : Nat}

theorem fillMore_eq (goesOn : scanner.isExhausted = false) (free : 0 < scanner.window.free)
    (opened : scanner.source = some source)
    (filled : UnitSource.fill fuel source scanner.window.free = .ok delivery) :
    scanner.fillMore (fuel + 1) =
      match delivery.answer with
      | .ok (.read count) =>
        if 0 < count then
          .ok (.ok true, { scanner.received delivery with
            window := (scanner.received delivery).window.extend (min count scanner.window.free) })
        else .ok (.ok false, { scanner.received delivery with isExhausted := true })
      | .ok .eof => .ok (.ok false, { scanner.received delivery with isExhausted := true })
      | .ok (.tooSmall wanted) =>
        if scanner.window.free < wanted then
          ((scanner.received delivery).makeRoom wanted).fillMore fuel
        else .ok (.error (.refused wanted scanner.window.free),
          (scanner.received delivery).fail (.refused wanted scanner.window.free))
      | .error cause => .ok (.error cause, (scanner.received delivery).fail cause) := by
  rw [fillMore, if_neg (by simp [goesOn])]
  simp only [if_neg (Nat.ne_of_gt free), opened, filled, ok_bind]
  rfl

end

variable [LawfulUnitSource σ U ε]

/-- A source that refuses a call is called again for a larger buffer. -/
theorem fillMore_of_refused {source : σ} {delivery : Delivery σ U ε} {fuel enough wanted : Nat}
    {result : Except IoFault Bool × Scanner σ φ U ε} (goesOn : scanner.isExhausted = false)
    (free : 0 < scanner.window.free) (opened : scanner.source = some source)
    (filled : UnitSource.fill fuel source scanner.window.free = .ok delivery)
    (told : delivery.answer = .ok (.tooSmall wanted)) (small : scanner.window.free < wanted)
    (again : ((scanner.received delivery).makeRoom wanted).fillMore enough = .ok result) :
    scanner.fillMore (max fuel enough + 1) = .ok result := by
  rw [fillMore_eq goesOn free opened
    (LawfulUnitSource.fill_mono filled (Nat.le_max_left _ _)), told]
  simp only [if_pos small]
  exact fillMore_mono again (Nat.le_max_right _ _)

/-- A call of the source, and the calls for larger buffers if it is refused. -/
theorem fillMore_of_supplies {room : Nat} {rest : Content U} {delivery : Delivery σ U ε}
    (supplies : UnitSource.Supplies ε (UnitSource.Delivers ε) rest room delivery) {source : σ}
    {fuel : Nat} (holds : scanner.Holds input) (goesOn : scanner.isExhausted = false)
    (free : 0 < scanner.window.free) (size : scanner.window.free = room)
    (behind : input.drop scanner.window.length = rest) (opened : scanner.source = some source)
    (filled : UnitSource.fill fuel source scanner.window.free = .ok delivery) :
    ∃ enough more after, scanner.fillMore enough = .ok (.ok more, after) ∧
      Filled input scanner more after := by
  induction supplies generalizing scanner source fuel with
  | @read room count delivery told some fits enough written delivers =>
    subst size behind
    refine ⟨fuel + 1, true, _, ?_, filled_read holds goesOn some fits enough written delivers⟩
    rw [fillMore_eq goesOn free opened filled, told]
    simp only [if_pos some, Nat.min_eq_left fits]
  | @ended room delivery told nothing =>
    subst behind
    have ends : input.get? scanner.window.length = none := by
      simpa [Stream'.Seq.drop_get?] using nothing
    refine ⟨fuel + 1, false, _, ?_, filled_ended delivery holds ends⟩
    rw [fillMore_eq goesOn free opened filled]
    obtain told | told := told <;> simp [told]
  | @refused room wanted delivery fuels next told small again _ ih =>
    subst size
    -- The next call has the room that this one asked for.
    have received := holds.received delivery
    have roomy := received.free_makeRoom wanted
    have length : ((scanner.received delivery).makeRoom wanted).window.length =
        scanner.window.length := length_makeRoom _ wanted
    obtain ⟨enough, more, after, answered, done⟩ := ih _ roomy.1
      (received.makeRoom wanted) (by rw [isExhausted_makeRoom]; exact goesOn) roomy.2 rfl
      (by rw [length, behind]) (by rw [source_makeRoom]; rfl) (again _ roomy.1)
    refine ⟨max fuel enough + 1, more, after, ?_, done.from length ?_ ?_⟩
    · exact fillMore_of_refused goesOn free opened filled told small answered
    · rw [bearing_makeRoom]
      rfl
    · rw [reports_makeRoom, reports_received]

theorem fillMore_ok_of_free (has : scanner.Has input) (goesOn : scanner.isExhausted = false)
    (free : 0 < scanner.window.free) :
    ∃ fuel more after, scanner.fillMore fuel = .ok (.ok more, after) ∧
      Filled input scanner more after := by
  obtain ⟨source, opened, delivers⟩ := has.goesOn goesOn
  obtain ⟨fuel, delivery, filled, supplies⟩ := delivers.fill_ok free
  exact fillMore_of_supplies supplies has.toHolds goesOn free rfl rfl opened filled

/-- Reading more input ends and tells whether there is more. -/
theorem fillMore_ok (has : scanner.Has input) :
    ∃ fuel more after, scanner.fillMore fuel = .ok (.ok more, after) ∧
      Filled input scanner more after := by
  cases goesOn : scanner.isExhausted with
  | true =>
    have ends := has.ended goesOn
    exact ⟨1, false, scanner, by simp [fillMore, goesOn], .refl has, by simp [ends],
      fun more => Bool.noConfusion more⟩
  | false =>
    by_cases full : scanner.window.free = 0
    · have free := (has.free_makeRoom 1).2
      obtain ⟨fuel, more, after, filled, done⟩ :=
        fillMore_ok_of_free (has.makeRoom 1) (by simpa using goesOn) free
      exact ⟨fuel, more, after, has.fillMore_makeRoom goesOn full fuel ▸ filled,
        done.from (length_makeRoom _ 1) (bearing_makeRoom _ 1) (reports_makeRoom _ 1)⟩
    · exact fillMore_ok_of_free has goesOn (Nat.pos_of_ne_zero full)

/-- Whatever reading more input answers is that. -/
theorem fillMore_sound (has : scanner.Has input) {fuel : Nat}
    {result : Except IoFault Bool × Scanner σ φ U ε}
    (read : scanner.fillMore fuel = .ok result) :
    ∃ more after, result = (.ok more, after) ∧ Filled input scanner more after := by
  obtain ⟨enough, more, after, filled, done⟩ := fillMore_ok has
  have same := (fillMore_mono read (Nat.le_max_left fuel enough)).symm.trans
    (fillMore_mono filled (Nat.le_max_right fuel enough))
  exact ⟨more, after, Except.ok.inj same, done⟩

section
variable {short : Prop} [Decidable short] {length : Nat}

omit [LawfulUnitSource σ U ε] in
theorem fillIf_bind {fuel : Nat}
    {next : Except IoFault Bool × Scanner σ φ U ε → Run α} :
    (if short then scanner.fillMore fuel >>= next else pure (.ok true, scanner) >>= next) =
      (if short then scanner.fillMore fuel else pure (.ok true, scanner)) >>= next := by
  split <;> rfl

theorem fillIf_mono {fuel enough : Nat} {result : Except IoFault Bool × Scanner σ φ U ε}
    (read : (if short then scanner.fillMore fuel else pure (.ok true, scanner)) = .ok result)
    (more : fuel ≤ enough) :
    (if short then scanner.fillMore enough else pure (.ok true, scanner)) = .ok result := by
  by_cases need : short
  · rw [if_pos need] at read ⊢
    exact fillMore_mono read more
  · rw [if_neg need] at read ⊢
    exact read

/-- A window that is filled only if all of it was looked at. -/
theorem fillIf_ok (has : scanner.Has input) (within : length ≤ scanner.window.length)
    (need : short ↔ length = scanner.window.length) :
    ∃ fuel more after,
      (if short then scanner.fillMore fuel else pure (.ok true, scanner)) = .ok (.ok more, after) ∧
      LooksAhead input scanner after ∧ more = (input.get? length).isSome ∧
      (more = true → length < after.window.length) := by
  by_cases all : length = scanner.window.length
  · obtain ⟨fuel, more, after, filled, done⟩ := fillMore_ok has
    exact ⟨fuel, more, after, by rw [if_pos (need.mpr all), filled], done.toLooksAhead,
      all ▸ done.told, all ▸ done.grows⟩
  · have inside : length < scanner.window.length := by omega
    exact ⟨0, true, scanner, by rw [if_neg (mt need.mp all)]; rfl, .refl has,
      (has.isSome_get? inside).symm, fun _ => inside⟩

theorem fillIf_sound (has : scanner.Has input) (within : length ≤ scanner.window.length)
    (need : short ↔ length = scanner.window.length) {fuel : Nat}
    {result : Except IoFault Bool × Scanner σ φ U ε}
    (read : (if short then scanner.fillMore fuel else pure (.ok true, scanner)) = .ok result) :
    ∃ more after, result = (.ok more, after) ∧
      LooksAhead input scanner after ∧ more = (input.get? length).isSome ∧
      (more = true → length < after.window.length) := by
  by_cases all : length = scanner.window.length
  · rw [if_pos (need.mpr all)] at read
    obtain ⟨more, after, same, done⟩ := fillMore_sound has read
    exact ⟨more, after, same, done.toLooksAhead, all ▸ done.told, all ▸ done.grows⟩
  · have inside : length < scanner.window.length := by omega
    rw [if_neg (mt need.mp all)] at read
    exact ⟨true, scanner, (Except.ok.inj read).symm, .refl has, (has.isSome_get? inside).symm,
      fun _ => inside⟩

end

end TableDriven.Scanner
