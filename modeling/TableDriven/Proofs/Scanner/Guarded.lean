import TableDriven.Proofs.Alike
import TableDriven.Proofs.Scanner.Choose

/-! # Scanning with guards

The scanner's program once more, with everything that has to be in range asked for first.  The
buffer is read by index wherever a unit is looked at, the reverse run included, and the recognition
codes of a run stand in an array with one entry for each length.  A guard that does not hold breaks
the program down.

Here are the guards themselves, and that those of reading and of the forward run hold on a checked
table: both programs then go the same way (`fillMore_agrees`, `forward_agrees`).  Nothing is asked
of the source, which may claim what it did not write.
-/

namespace TableDriven

namespace Run

/-- Breaks down unless something holds. -/
def require (holds : Prop) [Decidable holds] : Run Unit := if holds then .ok () else .error .index

theorem require_bind {holds : Prop} [Decidable holds] (does : holds) (next : Unit → Run α) :
    (require holds >>= next) = next () := by
  simp [require, does]

end Run

/-- Why a source of units can break down, and the lack of fuel. -/
def UnitSource.Breaks (σ U ε : Type) [UnitSource σ U ε] (why : Breakdown) : Prop :=
  why = .fuel ∨
    ∃ fuel source room, (UnitSource.fill fuel source room : Run (Delivery σ U ε)) = .error why

/-- The window lies within the buffer, and the start condition is one of the table. -/
structure Scanner.Intact (scanner : Scanner σ φ U ε) : Prop where
  sound : scanner.window.Sound
  inForce : scanner.condition < scanner.lexicon.conditions

instance (scanner : Scanner σ φ U ε) : Decidable scanner.Intact :=
  decidable_of_iff (scanner.window.start ≤ scanner.window.stop ∧
      scanner.window.stop ≤ scanner.window.size ∧ scanner.condition < scanner.lexicon.conditions)
    ⟨fun all => ⟨⟨all.1, all.2.1⟩, all.2.2⟩,
      fun intact => ⟨intact.sound.ordered, intact.sound.within, intact.inForce⟩⟩

theorem Scanner.Intact.of_bearing {scanner other : Scanner σ φ U ε} (intact : scanner.Intact)
    (sound : other.window.Sound) (bearing : other.bearing = scanner.bearing) : other.Intact := by
  obtain ⟨lexicon, -, -, -, -, -, condition, -⟩ := Bearing.mk.inj bearing
  exact ⟨sound, by rw [lexicon, condition]; exact intact.inForce⟩

namespace Scanner.Guarded

open Run (require require_bind Agree)

/-! ## The program -/

section
variable [ScanUnit U] [UnitSource σ U ε] [TokenFactory φ U V ε]

def makeRoom (extra : Nat) (scanner : Scanner σ φ U ε) : Run (Scanner σ φ U ε) := do
  require scanner.Intact
  let after := scanner.makeRoom extra
  require (after.Intact ∧ extra ≤ after.window.free)
  return after

/-- Makes room in a buffer that is full. -/
def makeRoomIfFull (scanner : Scanner σ φ U ε) : Run (Scanner σ φ U ε) :=
  if scanner.window.free = 0 then makeRoom 1 scanner else pure scanner

def fillMore : Nat → Scanner σ φ U ε → Run (Except IoFault Bool × Scanner σ φ U ε)
  | 0, _ => .error .fuel
  | fuel + 1, scanner => do
    require scanner.Intact
    if scanner.isExhausted then return (.ok false, scanner)
    else
      let scanner ← makeRoomIfFull scanner
      match scanner.source with
      | none => return (.ok false, { scanner with isExhausted := true })
      | some source =>
        let free := scanner.window.free
        let delivery ← UnitSource.fill fuel source free
        let scanner := scanner.received delivery
        match delivery.answer with
        | .ok (.read count) =>
          if 0 < count then
            return (.ok true, { scanner with window := scanner.window.extend (min count free) })
          else return (.ok false, { scanner with isExhausted := true })
        | .ok .eof => return (.ok false, { scanner with isExhausted := true })
        | .ok (.tooSmall wanted) =>
          if free < wanted then do
            let scanner ← makeRoom wanted scanner
            fillMore fuel scanner
          else
            let cause := .refused wanted free
            return (.error cause, scanner.fail cause)
        | .error cause => return (.error cause, scanner.fail cause)

/-- Reads more input if all of the window was looked at. -/
def fillIfShort (fuel length : Nat) (scanner : Scanner σ φ U ε) :
    Run (Except IoFault Bool × Scanner σ φ U ε) :=
  if length = scanner.window.length then fillMore fuel scanner else pure (.ok true, scanner)

/-- The unit at an offset, which must lie in the window. -/
def unitAt (window : Window U) (offset : Nat) : Run U := do
  require (offset < window.length)
  window.unitAt offset

/-- Goes on with a run that is in `state` behind `length` units, with the recognition codes of all
lengths up to there. -/
def forwardFrom : Nat → Scanner σ φ U ε → Nat → Nat → Array Nat →
    Run (Except IoFault (Nat × Array Nat) × Scanner σ φ U ε)
  | 0, _, _, _, _ => .error .fuel
  | fuel + 1, scanner, state, length, recognition => do
    require (scanner.Intact ∧ recognition.size = length + 1)
    let (more, scanner) ← fillIfShort fuel length scanner
    match more with
    | .error cause => return (.error cause, scanner)
    | .ok false => return (.ok (length, recognition), scanner)
    | .ok true =>
      let unit ← unitAt scanner.window length
      match ← scanner.lexicon.advance? state unit with
      | none => return (.ok (length, recognition), scanner)
      | some state =>
        let code ← scanner.lexicon.forward.code state
        forwardFrom fuel scanner state (length + 1) (recognition.push code)

def forward (fuel : Nat) (scanner : Scanner σ φ U ε) :
    Run (Except IoFault (Nat × Array Nat) × Scanner σ φ U ε) := do
  let state ← scanner.lexicon.forward.initial scanner.condition
  let code ← scanner.lexicon.forward.code state
  forwardFrom fuel scanner state 0 #[code]

/-- Walks back from `length` with the reverse automaton, which is in `state` there. -/
def splitFrom (scanner : Scanner σ φ U ε) (recognition : Array Nat) (context : Nat) :
    Nat → Nat → Run (Option Nat)
  | 0, _ => return none
  | length + 1, state => do
    let code ← Run.lookup recognition (length + 1)
    if ← scanner.lexicon.isSplit context code state then return some (length + 1)
    else if length = 0 then return none
    else
      let unit ← unitAt scanner.window length
      match ← scanner.lexicon.retreat? state unit with
      | none => return none
      | some state => splitFrom scanner recognition context length state

def matchLength (scanner : Scanner σ φ U ε) (recognition : Array Nat) (length token : Nat) :
    Run (Option Nat) := do
  match ← scanner.lexicon.context? token with
  | none => return some length
  | some context =>
    let state ← scanner.lexicon.reverse.initial scanner.condition
    splitFrom scanner recognition context length state

/-- Asks the factory of a token about the first units of the window. -/
def consult (scanner : Scanner σ φ U ε) (token length : Nat) :
    Run (Option (Choice V) × Scanner σ φ U ε) := do
  require (scanner.Intact ∧ length ≤ scanner.window.length)
  let (choice, scanner) ← scanner.consult token length
  require scanner.Intact
  return (choice, scanner)

def offer (recognition : Array Nat) (length : Nat) : List Nat → Scanner σ φ U ε →
    Run (Option (Choice V) × Scanner σ φ U ε)
  | [], scanner => return (none, scanner)
  | token :: rest, scanner => do
    match ← matchLength scanner recognition length token with
    | none => offer recognition length rest scanner
    | some fitting =>
      match ← consult scanner token fitting with
      | (none, scanner) => offer recognition length rest scanner
      | taken => return taken

def select (recognition : Array Nat) :
    Nat → Scanner σ φ U ε → Run (Option (Choice V) × Scanner σ φ U ε)
  | 0, scanner => return (none, scanner)
  | length + 1, scanner => do
    let code ← Run.lookup recognition (length + 1)
    let tokens ← scanner.lexicon.forward.tokens code
    match ← offer recognition (length + 1) tokens scanner with
    | (none, scanner) => select recognition length scanner
    | taken => return taken

/-- Consumes what a round found, which must lie in the window. -/
def settle (choice : Option (Choice V)) (scanner : Scanner σ φ U ε) :
    Run (Piece U V × Scanner σ φ U ε) := do
  require (scanner.Intact ∧ choice.elim 1 Choice.length ≤ scanner.window.length)
  let (piece, scanner) ← scanner.settle choice
  require scanner.Intact
  return (piece, scanner)

def round (fuel : Nat) (scanner : Scanner σ φ U ε) :
    Run (Except IoFault (Piece U V) × Scanner σ φ U ε) := do
  require scanner.Intact
  let (more, scanner) ← fillIfShort fuel 0 scanner
  match more with
  | .error cause => return (.error cause, scanner)
  | .ok false =>
    let (token, scanner) := scanner.finish
    return (.ok (.eof token), scanner)
  | .ok true =>
    match ← forward fuel scanner with
    | (.error cause, scanner) => return (.error cause, scanner)
    | (.ok (length, recognition), scanner) =>
      let (choice, scanner) ← select recognition length scanner
      let (piece, scanner) ← settle choice scanner
      return (.ok piece, scanner)

def next : Nat → Scanner σ φ U ε → Run (Except StreamFault (Token V) × Scanner σ φ U ε)
  | 0, _ => .error .fuel
  | fuel + 1, scanner => do
    match ← round fuel scanner with
    | (.error cause, scanner) => return (.error (.io cause), scanner)
    | (.ok (.token _ token), scanner) => return (.ok token, scanner)
    | (.ok (.eof token), scanner) => return (.ok token, scanner)
    | (.ok (.discarded _), scanner) => next fuel scanner
    | (.ok (.unmatched _), scanner) => next fuel scanner

end

/-! ## Reading more input -/

section
variable {scanner middle : Scanner σ φ U ε} {length : Nat}

/-- What reading more input may do, of which `length` units were looked at: the window keeps its
units unless the input fails. -/
structure Refilled (before : Scanner σ φ U ε) (length : Nat) (answer : Except IoFault Bool)
    (after : Scanner σ φ U ε) : Prop where
  sound : after.window.Sound
  bearing : after.bearing = before.bearing
  keeps : ∀ more, answer = .ok more → before.window.units <+: after.window.units
  grows : answer = .ok true → length < after.window.length

theorem Refilled.since {answer : Except IoFault Bool} {after : Scanner σ φ U ε}
    (refilled : Refilled middle length answer after) (bearing : middle.bearing = scanner.bearing)
    (units : middle.window.units = scanner.window.units) :
    Refilled scanner length answer after where
  sound := refilled.sound
  bearing := refilled.bearing.trans bearing
  keeps := units ▸ refilled.keeps
  grows := refilled.grows

theorem units_prefix_extend (window : Window U) (count : Nat) :
    window.units <+: (window.extend count).units := by
  have shorter : window.length ≤ (window.extend count).length := by
    simp only [Window.length, Window.extend]
    omega
  rw [Window.units_eq, Window.units_eq, ← Nat.min_eq_left shorter, ← List.take_take]
  exact List.take_prefix _ _

section
variable (sound : scanner.window.Sound) (delivery : Delivery σ U ε)
include sound

theorem refilled_read {count : Nat} (some : 0 < count) (fits : count ≤ scanner.window.free) :
    Refilled scanner scanner.window.length (.ok true) { scanner.received delivery with
      window := (scanner.received delivery).window.extend count } where
  sound := (sound.write delivery.written).extend (by simpa using fits)
  bearing := rfl
  keeps := by
    intro _ _
    have units : (scanner.received delivery).window.units = scanner.window.units :=
      Window.units_write sound _
    exact units ▸ units_prefix_extend _ _
  grows := by
    intro _
    have := sound.ordered
    simp only [Window.length, Window.extend, received, noteAll, Window.write]
    omega

theorem refilled_ended :
    Refilled scanner length (.ok false) { scanner.received delivery with isExhausted := true } where
  sound := sound.write _
  bearing := rfl
  keeps := fun _ _ => (Window.units_write sound delivery.written) ▸ List.prefix_refl _
  grows := fun more => by cases more

theorem refilled_failed (cause : IoFault) [UnitSource σ U ε] :
    Refilled scanner length (.error cause) ((scanner.received delivery).fail cause) where
  sound := by
    have within := (sound.write delivery.written).within
    have ordered := sound.ordered
    have window : ((scanner.received delivery).fail cause).window =
        (scanner.window.write delivery.written).clear := by
      simp only [fail, close]
      split <;> rfl
    rw [window]
    refine ⟨Nat.le_refl _, ?_⟩
    simp only [Window.clear, Window.size, Window.write] at within ⊢
    omega
  bearing := by
    simp only [fail, close]
    split <;> rfl
  keeps := fun _ failed => by cases failed
  grows := fun failed => by cases failed

end

variable [ScanUnit U]

theorem intact_makeRoom (intact : scanner.Intact) (extra : Nat) :
    (scanner.makeRoom extra).Intact ∧
      (scanner.makeRoom extra).window.units = scanner.window.units ∧
      extra ≤ (scanner.makeRoom extra).window.free := by
  have window := window_makeRoom scanner extra
  refine ⟨intact.of_bearing ?_ (bearing_makeRoom _ _), ?_⟩
  · exact window ▸ intact.sound.makeRoom
  · rw [window]
    exact ⟨Window.units_makeRoom intact.sound, (Window.free_makeRoom intact.sound).1⟩

theorem makeRoom_eq (intact : scanner.Intact) (extra : Nat) :
    makeRoom extra scanner = .ok (scanner.makeRoom extra) := by
  obtain ⟨after, -, roomy⟩ := intact_makeRoom intact extra
  rw [makeRoom, require_bind intact, require_bind ⟨after, roomy⟩]
  rfl

theorem makeRoomIfFull_ok (intact : scanner.Intact) : ∃ roomy : Scanner σ φ U ε,
    makeRoomIfFull scanner = .ok roomy ∧
      (if scanner.window.free = 0 then scanner.makeRoom 1 else scanner) = roomy ∧
      roomy.Intact ∧ roomy.window.units = scanner.window.units ∧
      roomy.bearing = scanner.bearing ∧ 0 < roomy.window.free := by
  unfold makeRoomIfFull
  split
  next =>
    obtain ⟨after, units, free⟩ := intact_makeRoom intact 1
    exact ⟨_, makeRoom_eq intact 1, rfl, after, units, bearing_makeRoom _ _, free⟩
  next full => exact ⟨_, rfl, rfl, intact, rfl, rfl, Nat.pos_of_ne_zero full⟩

variable [UnitSource σ U ε]

theorem fillMore_agrees (intact : scanner.Intact) (fuel : Nat) :
    Agree (UnitSource.Breaks σ U ε)
      (fun first second => first = second ∧
        Refilled scanner scanner.window.length second.1 second.2)
      (fillMore fuel scanner) (scanner.fillMore fuel) := by
  induction fuel generalizing scanner with
  | zero => exact .broken (.inl rfl)
  | succ fuel ih =>
    unfold fillMore Scanner.fillMore
    rw [require_bind intact]
    by_cases exhausted : scanner.isExhausted
    · rw [if_pos exhausted, if_pos exhausted]
      exact .answered ⟨rfl, intact.sound, rfl, fun _ _ => List.prefix_refl _,
        fun more => by cases more⟩
    · rw [if_neg exhausted, if_neg exhausted]
      obtain ⟨roomy, guarded, plain, after, units, bearing, free⟩ := makeRoomIfFull_ok intact
      have sound := after.sound
      rw [guarded, sound.length_eq intact.sound units.symm]
      simp only [plain, ok_bind]
      cases roomy.source with
      | none =>
        exact .answered ⟨rfl, sound, bearing, fun _ _ => units ▸ List.prefix_refl _,
          fun more => by cases more⟩
      | some source =>
        refine (Agree.refl fun why broken => .inr ⟨_, _, _, broken⟩).bind ?_
        rintro delivery _ rfl
        have ended : Refilled roomy roomy.window.length (.ok false)
            { roomy.received delivery with isExhausted := true } := refilled_ended sound delivery
        have failed (cause : IoFault) : Refilled roomy roomy.window.length (.error cause)
            ((roomy.received delivery).fail cause) := refilled_failed sound delivery cause
        cases delivery.answer with
        | error cause => exact .answered ⟨rfl, (failed cause).since bearing units⟩
        | ok fill =>
          cases fill with
          | eof => exact .answered ⟨rfl, ended.since bearing units⟩
          | read count =>
            by_cases some : 0 < count
            · simp only [if_pos some]
              have read := refilled_read sound delivery (Nat.lt_min.mpr ⟨some, free⟩)
                (Nat.min_le_right count roomy.window.free)
              exact .answered ⟨rfl, read.since bearing units⟩
            · simp only [if_neg some]
              exact .answered ⟨rfl, ended.since bearing units⟩
          | tooSmall wanted =>
            by_cases small : roomy.window.free < wanted
            · simp only [if_pos small]
              have written : (roomy.received delivery).Intact :=
                after.of_bearing (sound.write _) rfl
              obtain ⟨larger, kept, -⟩ := intact_makeRoom written wanted
              have whole := kept.trans (Window.units_write sound delivery.written)
              change Agree _ _ (makeRoom wanted (roomy.received delivery) >>= fillMore fuel) _
              rw [makeRoom_eq written wanted, ok_bind, larger.sound.length_eq sound whole.symm]
              exact (ih larger).mono fun both => ⟨both.1, both.2.since
                ((bearing_makeRoom _ _).trans bearing) (whole.trans units)⟩
            · simp only [if_neg small]
              exact .answered ⟨rfl, (failed _).since bearing units⟩

theorem fillIfShort_agrees {short : Prop} [Decidable short] (intact : scanner.Intact)
    (within : length ≤ scanner.window.length) (need : short ↔ length = scanner.window.length)
    (fuel : Nat) :
    Agree (UnitSource.Breaks σ U ε)
      (fun first second => first = second ∧ Refilled scanner length second.1 second.2)
      (fillIfShort fuel length scanner)
      (if short then scanner.fillMore fuel else pure (.ok true, scanner)) := by
  unfold fillIfShort
  by_cases all : length = scanner.window.length
  · rw [if_pos all, if_pos (need.mpr all)]
    subst all
    exact fillMore_agrees intact fuel
  · rw [if_neg all, if_neg (mt need.mp all)]
    exact .answered ⟨rfl, intact.sound, rfl, fun _ _ => List.prefix_refl _,
      fun _ => Nat.lt_of_le_of_ne within all⟩

end

/-- The recognition codes along a trail stand in an array, that of each length at its place. -/
def Records (recognition : Array Nat) (trail : Trail U) : Prop :=
  ∃ first, first :: (trail.map Prod.snd).reverse <+: recognition.toList

section
variable {recognition : Array Nat} {trail : Trail U} {unit : U} {code : Nat}

theorem Records.shorter (records : Records recognition ((unit, code) :: trail)) :
    Records recognition trail := by
  obtain ⟨first, whole⟩ := records
  refine ⟨first, .trans ?_ whole⟩
  simp

theorem Records.lookup_eq (records : Records recognition ((unit, code) :: trail)) :
    Run.lookup recognition (trail.length + 1) = .ok code := by
  obtain ⟨first, rest, whole⟩ := records
  have found : recognition.toList[trail.length + 1]? = some code := by simp [← whole]
  rw [Array.getElem?_toList] at found
  simp [Run.lookup, found]

end

section
variable {scanner : Scanner σ φ U ε} {trail : Trail U} {unit : U}

theorem unitAt_eq {window : Window U} (sound : window.Sound) {offset : Nat}
    (found : window.units[offset]? = some unit) : unitAt window offset = .ok unit := by
  obtain ⟨inside, -⟩ := List.getElem?_eq_some_iff.mp found
  rw [unitAt, require_bind (sound.length_units ▸ inside), Window.unitAt_eq found]

theorem concat_prefix {front whole : List U} (stands : front <+: whole)
    (found : whole[front.length]? = some unit) : front ++ [unit] <+: whole := by
  obtain ⟨rest, rfl⟩ := stands
  cases rest with
  | nil => simp at found
  | cons next rest =>
    obtain rfl : next = unit := by simpa using found
    exact ⟨rest, by simp⟩

variable [ScanUnit U]

/-- How a forward run ends: both programs fail, or they reach the same length, with the trail that
the one leaves and the codes that the other records. -/
inductive Follows (scanner : Scanner σ φ U ε) (start : Nat) :
    Except IoFault (Nat × Array Nat) × Scanner σ φ U ε →
    Except IoFault (Trail U) × Scanner σ φ U ε → Prop where
  | failed {cause : IoFault} {after : Scanner σ φ U ε} (sound : after.window.Sound)
      (bearing : after.bearing = scanner.bearing) :
      Follows scanner start (.error cause, after) (.error cause, after)
  | reached {trail : Trail U} {recognition : Array Nat} {after : Scanner σ φ U ε} {state : Nat}
      (sound : after.window.Sound) (bearing : after.bearing = scanner.bearing)
      (keeps : scanner.window.units <+: after.window.units)
      (traced : scanner.lexicon.Traced start trail state)
      (stands : trail.text <+: after.window.units) (records : Records recognition trail) :
      Follows scanner start (.ok (trail.length, recognition), after) (.ok trail, after)

theorem Follows.since {before : Scanner σ φ U ε} {start : Nat}
    {first : Except IoFault (Nat × Array Nat) × Scanner σ φ U ε}
    {second : Except IoFault (Trail U) × Scanner σ φ U ε}
    (follows : Follows scanner start first second) (bearing : scanner.bearing = before.bearing)
    (grown : before.window.units <+: scanner.window.units) : Follows before start first second := by
  have same : scanner.lexicon = before.lexicon := congrArg Bearing.lexicon bearing
  cases follows with
  | failed sound kept => exact .failed sound (kept.trans bearing)
  | reached sound kept keeps traced stands records =>
    exact .reached sound (kept.trans bearing) (grown.trans keeps) (same ▸ traced) stands records

variable [UnitSource σ U ε]

theorem forwardFrom_agrees {start state first : Nat} {recognition : Array Nat}
    (checked : scanner.lexicon.Checked) (begins : start < scanner.lexicon.forward.stateCount)
    (intact : scanner.Intact) (traced : scanner.lexicon.Traced start trail state)
    (stands : trail.text <+: scanner.window.units)
    (records : recognition.toList = first :: (trail.map Prod.snd).reverse) (fuel : Nat) :
    Agree (UnitSource.Breaks σ U ε) (Follows scanner start)
      (forwardFrom fuel scanner state trail.length recognition)
      (scanner.forwardFrom fuel state trail.length trail) := by
  induction fuel generalizing scanner trail state recognition with
  | zero => exact .broken (.inl rfl)
  | succ fuel ih =>
    have size : recognition.size = trail.length + 1 := by
      rw [← Array.length_toList, records]
      simp
    have within : trail.length ≤ scanner.window.length := by
      have short := stands.length_le
      rwa [Trail.length_text, intact.sound.length_units] at short
    rw [forwardFrom, Scanner.forwardFrom, require_bind ⟨intact, size⟩, fillIf_bind]
    refine (fillIfShort_agrees intact within Iff.rfl fuel).bind ?_
    rintro ⟨more, after⟩ _ ⟨rfl, refilled⟩
    have same : after.lexicon = scanner.lexicon := congrArg Bearing.lexicon refilled.bearing
    cases more with
    | error cause => exact .answered (.failed refilled.sound refilled.bearing)
    | ok more =>
      have keeps := refilled.keeps more rfl
      have text := stands.trans keeps
      have reached : Follows scanner start (.ok (trail.length, recognition), after)
          (.ok trail, after) :=
        .reached refilled.sound refilled.bearing keeps traced text
          ⟨first, records ▸ List.prefix_refl _⟩
      cases more with
      | false => exact .answered reached
      | true =>
        have inside := refilled.grows rfl
        rw [← refilled.sound.length_units] at inside
        obtain ⟨unit, found⟩ : ∃ unit, after.window.units[trail.length]? = some unit :=
          ⟨_, List.getElem?_eq_getElem inside⟩
        have known := traced.state_lt checked begins
        simp only [unitAt_eq refilled.sound found, Window.unitAt_eq found, ok_bind, same,
          Lexicon.advance?_eq checked known]
        cases goes : scanner.lexicon.step? scanner.lexicon.forward state unit with
        | none => exact .answered reached
        | some next =>
          obtain ⟨code, coded, -⟩ := checked.forward.code_ok
            (Lexicon.step?_lt checked.forward checked known goes)
          have further := traced.step goes
          simp only [coded, ok_bind, Run.value] at further ⊢
          have longer : Trail.text ((unit, code) :: trail) <+: after.window.units :=
            Trail.text_cons unit code trail ▸ concat_prefix text (by simpa using found)
          have holds := intact.of_bearing refilled.sound refilled.bearing
          exact (ih (same ▸ checked) (same ▸ begins) holds (same ▸ further) longer
            (by simp [records])).mono (Follows.since · refilled.bearing keeps)

theorem forward_agrees (checked : scanner.lexicon.Checked) (intact : scanner.Intact) (fuel : Nat) :
    Agree (UnitSource.Breaks σ U ε) (Follows scanner scanner.start) (forward fuel scanner)
      (scanner.forward fuel) := by
  obtain ⟨initial, looked, known⟩ := checked.forward.initial_ok intact.inForce
  obtain ⟨code, coded, -⟩ := checked.forward.code_ok known
  simp only [forward, Scanner.forward, start, looked, coded, ok_bind, Run.value]
  exact forwardFrom_agrees checked known intact .start List.nil_prefix rfl fuel

end

end Scanner.Guarded

end TableDriven
