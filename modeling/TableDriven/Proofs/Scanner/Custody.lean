import TableDriven.Proofs.Scanner.Account
import TableDriven.Proofs.Scanner.Tracked

/-! # What is done to a source

A scanner asks the source that it holds until the source answers its last, and gives it up with one
call of `close`.  `Courses` says so of the deeds alone, and `Takes.handles` that a call for the next
token follows it, whatever the source answers: it gives the source up if it fails, and only then.
`Kept` says in which order all deeds stand.
-/

namespace TableDriven.Scanner

namespace Deed

/-- The source that a deed is done to. -/
def mark? : Deed → Option Nat
  | .asked mark _ | .closed mark => some mark
  | .consulted _ => none

/-- Whether a deed must not be followed by another: a source that was closed is neither asked nor
closed again, and one that answered its last is not asked again. -/
def Precludes : Deed → Deed → Prop
  | .closed mark, later => later.mark? = some mark
  | .asked mark isLast, .asked other _ => isLast = true ∧ mark = other
  | .asked .., .closed _ | .asked .., .consulted _ | .consulted _, _ => False

/-- Only deeds to one source preclude each other. -/
theorem Precludes.mark {earlier later : Deed} (precludes : earlier.Precludes later) :
    ∃ mark, earlier.mark? = some mark ∧ later.mark? = some mark := by
  cases earlier with
  | asked mark =>
    cases later with
    | asked => exact ⟨mark, rfl, congrArg some precludes.2.symm⟩
    | closed | consulted => exact precludes.elim
  | closed mark => exact ⟨mark, rfl, precludes⟩
  | consulted => exact precludes.elim

end Deed

/-- The source that is held: its mark, and whether it is exhausted. -/
abbrev Custody := Option (Nat × Bool)

/-- A deed, with the source that is held before it and behind it. -/
inductive Does : Custody → Deed → Custody → Prop where
  | asked (mark : Nat) (isLast : Bool) :
      Does (some (mark, false)) (.asked mark isLast) (some (mark, isLast))
  | closed (mark : Nat) (isExhausted : Bool) :
      Does (some (mark, isExhausted)) (.closed mark) none
  | consulted (custody : Custody) (token : Nat) : Does custody (.consulted token) custody

/-- Deeds one after the other. -/
inductive Courses : Custody → List Deed → Custody → Prop where
  | done {custody : Custody} : Courses custody [] custody
  | step {before middle after : Custody} {deed : Deed} {deeds : List Deed}
      (does : Does before deed middle) (rest : Courses middle deeds after) :
      Courses before (deed :: deeds) after

namespace Courses

variable {before middle after : Custody} {first second deeds : List Deed} {deed : Deed}

theorem single (does : Does before deed after) : Courses before [deed] after := .step does .done

theorem append (front : Courses before first middle) (back : Courses middle second after) :
    Courses before (first ++ second) after := by
  induction front with
  | done => exact back
  | step does _ ih => exact .step does (ih back)

/-- No other source is taken up. -/
theorem holds (courses : Courses before deeds after) :
    after = none ∨ after.map Prod.fst = before.map Prod.fst := by
  induction courses with
  | done => exact .inr rfl
  | step does _ ih =>
    cases does with
    | asked | consulted => exact ih
    | closed => exact .inl (ih.elim id Option.map_eq_none_iff.mp)

/-- A source is closed if it was held and is not any more, and no other. -/
theorem mem_closed_iff (courses : Courses before deeds after) (mark : Nat) :
    .closed mark ∈ deeds ↔ before.map Prod.fst = some mark ∧ after = none := by
  induction courses with
  | @done custody => cases custody <;> simp
  | step does rest ih =>
    cases does with
    | asked | consulted => simpa using ih
    | closed =>
      have gone := rest.holds.elim id Option.map_eq_none_iff.mp
      simp only [Option.map_none, reduceCtorEq, false_and, iff_false] at ih
      simp [gone, ih, eq_comm]

end Courses

/-- All that was done, in order, and what may be done to the source that is held; the next source is
marked `next`. -/
structure Kept (deeds : List Deed) (custody : Custody) (next : Nat) : Prop where
  orderly : deeds.Pairwise (¬ ·.Precludes ·)
  known : ∀ deed ∈ deeds, ∀ mark, deed.mark? = some mark → mark < next
  held : ∀ mark isExhausted, custody = some (mark, isExhausted) → mark < next
  closable : ∀ mark isExhausted, custody = some (mark, isExhausted) →
    ∀ deed ∈ deeds, ¬ deed.Precludes (.closed mark)
  fillable : ∀ mark isLast, custody = some (mark, false) →
    ∀ deed ∈ deeds, ¬ deed.Precludes (.asked mark isLast)

namespace Kept

variable {deeds further : List Deed} {custody after : Custody} {next : Nat} {deed : Deed}

theorem empty (next : Nat) : Kept [] none next where
  orderly := .nil
  known := List.forall_mem_nil _
  held _ _ held := by cases held
  closable _ _ held := by cases held
  fillable _ _ held := by cases held

/-- A deed that nothing before it precludes. -/
theorem orderly_concat (kept : Kept deeds custody next)
    (free : ∀ earlier ∈ deeds, ¬ earlier.Precludes deed) :
    (deeds ++ [deed]).Pairwise (¬ ·.Precludes ·) :=
  List.pairwise_append.mpr ⟨kept.orderly, List.pairwise_singleton _ _,
    fun earlier done _ last => List.mem_singleton.mp last ▸ free earlier done⟩

theorem does (kept : Kept deeds custody next) (does : Does custody deed after) :
    Kept (deeds ++ [deed]) after next := by
  cases does with
  | asked mark isLast =>
    refine ⟨kept.orderly_concat (kept.fillable mark isLast rfl), ?_, ?_, ?_, ?_⟩
    · refine List.forall_mem_append.mpr ⟨kept.known, List.forall_mem_singleton.mpr ?_⟩
      rintro _ ⟨⟩
      exact kept.held mark false rfl
    · rintro _ _ ⟨⟩
      exact kept.held mark false rfl
    · rintro _ _ ⟨⟩
      exact List.forall_mem_append.mpr ⟨kept.closable mark false rfl,
        List.forall_mem_singleton.mpr id⟩
    · rintro _ isLast ⟨⟩
      exact List.forall_mem_append.mpr ⟨kept.fillable mark isLast rfl,
        List.forall_mem_singleton.mpr fun precludes => Bool.false_ne_true precludes.1⟩
  | closed mark isExhausted =>
    refine ⟨kept.orderly_concat (kept.closable mark isExhausted rfl), ?_,
      (fun _ _ held => by cases held), (fun _ _ held => by cases held),
      (fun _ _ held => by cases held)⟩
    refine List.forall_mem_append.mpr ⟨kept.known, List.forall_mem_singleton.mpr ?_⟩
    rintro _ ⟨⟩
    exact kept.held mark isExhausted rfl
  | consulted _ token =>
    have free (earlier : Deed) : ¬ earlier.Precludes (.consulted token) := fun precludes => by
      obtain ⟨mark, -, marked⟩ := precludes.mark
      cases marked
    refine ⟨kept.orderly_concat fun earlier _ => free earlier, ?_, kept.held, ?_, ?_⟩
    · exact List.forall_mem_append.mpr ⟨kept.known, List.forall_mem_singleton.mpr
        fun _ marked => by cases marked⟩
    · exact fun mark isExhausted held => List.forall_mem_append.mpr
        ⟨kept.closable mark isExhausted held, List.forall_mem_singleton.mpr id⟩
    · exact fun mark isLast held => List.forall_mem_append.mpr
        ⟨kept.fillable mark isLast held, List.forall_mem_singleton.mpr id⟩

theorem courses (kept : Kept deeds custody next) (courses : Courses custody further after) :
    Kept (deeds ++ further) after next := by
  induction courses generalizing deeds with
  | done => rwa [List.append_nil]
  | step does _ ih =>
    rw [List.append_cons]
    exact ih (kept.does does)

theorem mono (kept : Kept deeds custody next) : Kept deeds custody (next + 1) where
  orderly := kept.orderly
  known deed done mark marked := (kept.known deed done mark marked).trans (Nat.lt_succ_self next)
  held mark isExhausted held := (kept.held mark isExhausted held).trans (Nat.lt_succ_self next)
  closable := kept.closable
  fillable := kept.fillable

/-- Nothing was done yet to a source that is opened. -/
theorem opens (kept : Kept deeds none next) : Kept deeds (some (next, false)) (next + 1) := by
  have free (deed : Deed) (done : deed ∈ deeds) (later : Deed) (marked : later.mark? = some next) :
      ¬ deed.Precludes later := fun precludes => by
    obtain ⟨mark, same, marks⟩ := precludes.mark
    cases marked.symm.trans marks
    exact Nat.lt_irrefl _ (kept.known deed done _ same)
  refine ⟨kept.orderly, kept.mono.known, ?_, ?_, ?_⟩
  · rintro _ _ ⟨⟩
    exact Nat.lt_succ_self next
  · rintro _ _ ⟨⟩ deed done
    exact free deed done _ rfl
  · rintro _ isLast ⟨⟩ deed done
    exact free deed done _ rfl

end Kept

/-! ## What a scanner does -/

/-- What is read of deeds off a journal. -/
def Account.tracked : Account (Deed ⊕ ε) Deed where
  failed _ := []
  noted := Sum.elim (fun deed => [deed]) fun _ => []

/-- What was done so far, as the journal has it. -/
def deeds (scanner : Scanner σ φ U (Deed ⊕ ε)) : List Deed := scanner.told .tracked

def custody (scanner : Scanner (Tracked σ) φ U (Deed ⊕ ε)) : Custody :=
  scanner.source.map fun source => (source.mark, scanner.isExhausted)

theorem tracked_notes (deed : Deed) (notes : List ε) :
    (.inl deed :: notes.map .inr : List (Deed ⊕ ε)).flatMap Account.tracked.noted = [deed] := by
  simp [Account.tracked]

section
variable {scanner middle after : Scanner (Tracked σ) φ U (Deed ⊕ ε)} {source : Tracked σ}

theorem custody_eq (opened : scanner.source = some source) :
    scanner.custody = some (source.mark, scanner.isExhausted) := by
  rw [custody, opened, Option.map_some]

/-- What a scanner does with its source on the way to an answer: it gives it up on a failure, and
only then. -/
structure Handles (scanner : Scanner (Tracked σ) φ U (Deed ⊕ ε)) (answer : Except α β)
    (after : Scanner (Tracked σ) φ U (Deed ⊕ ε)) : Prop where
  courses : ∃ deeds, after.deeds = scanner.deeds ++ deeds ∧
    Courses scanner.custody deeds after.custody
  keeps : answer.isOk = true → after.source.isSome = scanner.source.isSome
  loses : answer.isOk = false → scanner.source.isSome = true ∧ after.source = none

namespace Handles

theorem congr {answer : Except α β} {other : Except γ δ} (handles : Handles scanner answer after)
    (same : other.isOk = answer.isOk) : Handles scanner other after :=
  ⟨handles.courses, same ▸ handles.keeps, same ▸ handles.loses⟩

theorem trans {value : β} {answer : Except γ δ}
    (front : Handles scanner (.ok value : Except α β) middle)
    (back : Handles middle answer after) : Handles scanner answer after := by
  obtain ⟨first, begins, leads⟩ := front.courses
  obtain ⟨second, ends, follows⟩ := back.courses
  have keeps := front.keeps rfl
  refine ⟨⟨first ++ second, ?_, leads.append follows⟩, ?_, ?_⟩
  · rw [ends, begins, List.append_assoc]
  · exact fun fine => (back.keeps fine).trans keeps
  · exact fun fails => keeps ▸ back.loses fails

theorem of_same {value : β} (deeds : after.deeds = scanner.deeds)
    (source : after.source = scanner.source)
    (isExhausted : after.isExhausted = scanner.isExhausted) :
    Handles scanner (.ok value : Except α β) after := by
  refine ⟨⟨[], ?_, ?_⟩, fun _ => congrArg Option.isSome source,
    fun fails => by cases fails⟩
  · rw [deeds, List.append_nil]
  · rw [custody, custody, source, isExhausted]
    exact .done

end Handles

variable [UnitSource σ U ε]

variable (scanner) in
theorem close_opened (opened : scanner.source = some source) :
    scanner.close.source = none ∧ scanner.close.deeds = scanner.deeds ++ [.closed source.mark] := by
  simp only [close, opened]
  refine ⟨rfl, (told_noteAll _ _ _).trans ?_⟩
  exact congrArg (scanner.deeds ++ ·) (tracked_notes _ (UnitSource.close source.source).2)

variable (scanner) in
/-- Whichever source is held, none is held behind `close`. -/
theorem close_courses : ∃ deeds, scanner.close.deeds = scanner.deeds ++ deeds ∧
    Courses scanner.custody deeds none := by
  cases opened : scanner.source with
  | none =>
    refine ⟨[], ?_, ?_⟩
    · simp only [close, opened]
      exact (List.append_nil _).symm
    · rw [custody, opened]
      exact .done
  | some source =>
    refine ⟨_, (close_opened scanner opened).2, .single ?_⟩
    rw [custody_eq opened]
    exact .closed source.mark scanner.isExhausted

variable (scanner) in
theorem fail_opened (opened : scanner.source = some source) (cause : IoFault) :
    (scanner.fail cause).source = none ∧
      (scanner.fail cause).deeds = scanner.deeds ++ [.closed source.mark] := by
  have same : (scanner.note (.failed cause)).deeds = scanner.deeds :=
    (told_note _ scanner _).trans (List.append_nil _)
  have closed := close_opened (scanner.note (.failed cause)) opened
  rwa [same] at closed

variable (scanner) in
theorem deeds_received {fuel room : Nat} {delivery : Delivery (Tracked σ) U (Deed ⊕ ε)}
    (filled : UnitSource.fill fuel source room = .ok delivery) :
    (scanner.received delivery).deeds = scanner.deeds ++ [.asked source.mark delivery.isLast] ∧
      delivery.rest.mark = source.mark := by
  obtain ⟨plain, -, recorded⟩ := bind_eq_ok_iff.mp filled
  cases Except.ok.inj recorded
  refine ⟨(told_received _ _ _).trans ?_, rfl⟩
  rw [Tracked.record, tracked_notes]
  rfl

/-- A source that is asked is held on to, and is exhausted if it answered its last. -/
theorem asked_handles {fuel room : Nat} {delivery : Delivery (Tracked σ) U (Deed ⊕ ε)}
    (goes : scanner.isExhausted = false) (opened : scanner.source = some source)
    (filled : UnitSource.fill fuel source room = .ok delivery)
    (deeds : after.deeds = (scanner.received delivery).deeds)
    (held : after.source = some delivery.rest) (isExhausted : after.isExhausted = delivery.isLast) :
    Handles scanner (.ok () : Except IoFault Unit) after := by
  obtain ⟨told, mark⟩ := deeds_received scanner filled
  refine ⟨⟨_, deeds.trans told, .single ?_⟩, fun _ => ?_, fun fails => by cases fails⟩
  · rw [custody_eq opened, custody_eq held, isExhausted, mark, goes]
    exact .asked source.mark delivery.isLast
  · rw [opened, held]
    rfl

variable [ScanUnit U]

theorem Gathers.handles {outcome : Except IoFault Unit} (gathers : Gathers scanner outcome after) :
    Handles scanner outcome after := by
  induction gathers with
  | done => exact .of_same rfl rfl rfl
  | @room scanner _ _ extra _ ih =>
    have roomy : Handles scanner (.ok () : Except IoFault Unit) (scanner.makeRoom extra) := by
      refine .of_same (told_makeRoom _ _ _) ?_ ?_ <;>
        · simp only [makeRoom]
          split <;> rfl
    exact roomy.trans ih
  | @absent scanner _ _ absent _ ih =>
    have spent : Handles scanner (.ok () : Except IoFault Unit)
        { scanner with isExhausted := true } := by
      refine ⟨⟨[], (List.append_nil _).symm, ?_⟩, fun _ => rfl,
        fun fails => by cases fails⟩
      simp only [custody, absent, Option.map_none]
      exact .done
    exact spent.trans ih
  | @asked scanner _ _ _ _ _ delivery goes opened filled further window _ ih =>
    have asks : Handles scanner (.ok () : Except IoFault Unit)
        { scanner.received delivery with window } :=
      asked_handles goes opened filled rfl rfl (goes.trans further.symm)
    exact asks.trans ih
  | @ended scanner _ _ _ _ _ delivery goes opened filled last _ ih =>
    have asks : Handles scanner (.ok () : Except IoFault Unit)
        { scanner.received delivery with isExhausted := true } :=
      asked_handles goes opened filled rfl rfl last.symm
    exact asks.trans ih
  | @failed scanner _ _ source delivery goes opened filled cause =>
    obtain ⟨deeds, mark⟩ := deeds_received scanner filled
    obtain ⟨gone, closed⟩ := fail_opened (scanner.received delivery) rfl cause
    refine ⟨⟨[.asked source.mark delivery.isLast, .closed source.mark], ?_, ?_⟩,
      (fun fine => by cases fine), fun _ => ⟨by rw [opened]; rfl, gone⟩⟩
    · rw [closed, deeds, mark, List.append_assoc]
      rfl
    · rw [custody_eq opened, goes, custody, gone]
      exact .step (.asked source.mark delivery.isLast) (.single (.closed _ _))

end

section
variable [TokenFactory φ U V ε] {scanner after : Scanner (Tracked σ) (Observed φ) U (Deed ⊕ ε)}

theorem Rules.handles {token length : Nat} {choice : Option (Choice V)}
    (rules : scanner.Rules token length choice after) :
    Handles scanner (.ok () : Except IoFault Unit) after := by
  cases rules with
  | assembled => exact .of_same rfl rfl rfl
  | ruled _ ruled =>
    obtain ⟨-, -, rfl⟩ := Prod.mk.inj ruled |>.imp_right Prod.mk.inj
    refine ⟨⟨[.consulted token], (told_noteAll .tracked scanner _).trans ?_,
      .single (.consulted scanner.custody token)⟩, fun _ => rfl, fun fails => by cases fails⟩
    rw [tracked_notes]
    rfl

variable [ScanUnit U]

theorem Tries.handles {tried : List (Nat × Trail U)} {events : List (Event U V)}
    {choice : Option (Choice V)} (tries : Tries tried scanner events choice after) :
    Handles scanner (.ok () : Except IoFault Unit) after := by
  induction tries with
  | done => exact .of_same rfl rfl rfl
  | absent _ _ ih => exact ih
  | rejected _ ruled _ ih => exact (rules_of_consult ruled).handles.trans ih
  | taken _ ruled => exact (rules_of_consult ruled).handles

variable [UnitSource σ U ε]

theorem Turns.handles {answer : Except IoFault (Piece U V)} (turns : Turns scanner answer after) :
    Handles scanner answer after := by
  cases turns with
  | failed gathers => exact gathers.handles.congr rfl
  | @ended spent gathers =>
    refine gathers.handles.trans (.of_same (finish_told spent) ?_ ?_) <;> rw [finish_frame]
  | scanned gathers tries settled =>
    have advances := settle_advances settled
    exact gathers.handles.trans (tries.handles.trans
      (.of_same (settle_told settled) advances.source advances.isExhausted))

theorem Takes.handles {answer : Except StreamFault (Token V)} (takes : Takes scanner answer after) :
    Handles scanner answer after := by
  induction takes with
  | failed turns | last turns => exact turns.handles.congr rfl
  | further turns _ _ ih => exact turns.handles.trans ih

end

end TableDriven.Scanner
