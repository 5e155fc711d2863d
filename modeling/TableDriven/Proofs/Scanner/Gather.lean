import TableDriven.Proofs.Scanner.Fill

/-! # What reading does

`Gathers` says all that reading more can do to a scanner, whatever its source answers: room is made,
the source is asked, it ends or it fails.  It is read off the program once (`fillMore_gathers`,
`forward_gathers`); what holds of all reading is proved of it.
-/

namespace TableDriven

/-- Whether the source is not to be asked again: it answered its end, no units, or a failure. -/
def Delivery.isLast (delivery : Delivery σ U ε) : Bool :=
  match delivery.answer with
  | .ok (.read count) => count == 0
  | .ok .eof | .error _ => true
  | .ok (.tooSmall _) => false

namespace Scanner

variable [ScanUnit U] [UnitSource σ U ε] {scanner middle after : Scanner σ φ U ε}

/-- What reading more comes to, one thing after the other. -/
inductive Gathers : Scanner σ φ U ε → Except IoFault Unit → Scanner σ φ U ε → Prop where
  | done {scanner : Scanner σ φ U ε} : Gathers scanner (.ok ()) scanner
  | room {scanner after : Scanner σ φ U ε} {outcome : Except IoFault Unit} (extra : Nat)
      (rest : Gathers (scanner.makeRoom extra) outcome after) : Gathers scanner outcome after
  | absent {scanner after : Scanner σ φ U ε} {outcome : Except IoFault Unit}
      (absent : scanner.source = none)
      (rest : Gathers { scanner with isExhausted := true } outcome after) :
      Gathers scanner outcome after
  | asked {scanner after : Scanner σ φ U ε} {outcome : Except IoFault Unit} {fuel room : Nat}
      {source : σ} {delivery : Delivery σ U ε} (goes : scanner.isExhausted = false)
      (opened : scanner.source = some source)
      (filled : UnitSource.fill fuel source room = .ok delivery)
      (further : delivery.isLast = false) (window : Window U)
      (rest : Gathers { scanner.received delivery with window } outcome after) :
      Gathers scanner outcome after
  | ended {scanner after : Scanner σ φ U ε} {outcome : Except IoFault Unit} {fuel room : Nat}
      {source : σ} {delivery : Delivery σ U ε} (goes : scanner.isExhausted = false)
      (opened : scanner.source = some source)
      (filled : UnitSource.fill fuel source room = .ok delivery)
      (last : delivery.isLast = true)
      (rest : Gathers { scanner.received delivery with isExhausted := true } outcome after) :
      Gathers scanner outcome after
  | failed {scanner : Scanner σ φ U ε} {fuel room : Nat} {source : σ} {delivery : Delivery σ U ε}
      (goes : scanner.isExhausted = false) (opened : scanner.source = some source)
      (filled : UnitSource.fill fuel source room = .ok delivery) (cause : IoFault) :
      Gathers scanner (.error cause) ((scanner.received delivery).fail cause)

theorem Gathers.trans {outcome : Except IoFault Unit} (first : Gathers scanner (.ok ()) middle)
    (second : Gathers middle outcome after) : Gathers scanner outcome after := by
  generalize silent : Except.ok () = told at first
  induction first with
  | done => exact second
  | room extra _ ih => exact .room extra (ih second silent)
  | absent absent _ ih => exact .absent absent (ih second silent)
  | asked goes opened filled further window _ ih =>
    exact .asked goes opened filled further window (ih second silent)
  | ended goes opened filled last _ ih => exact .ended goes opened filled last (ih second silent)
  | failed => cases silent

/-- Whether it failed, whatever was answered. -/
def ending (answer : Except IoFault α) : Except IoFault Unit := answer.map fun _ => ()

variable (scanner) in
theorem makeRoomIfFull_gathers : ∃ roomy,
    (if scanner.window.free = 0 then scanner.makeRoom 1 else scanner) = roomy ∧
      (∀ outcome after, Gathers roomy outcome after → Gathers scanner outcome after) ∧
      roomy.window.length = scanner.window.length ∧ roomy.isExhausted = scanner.isExhausted := by
  refine ⟨_, rfl, ?_⟩
  split
  next =>
    exact ⟨fun _ _ => .room 1, length_makeRoom scanner 1, isExhausted_makeRoom scanner 1⟩
  next => exact ⟨fun _ _ => id, rfl, rfl⟩

theorem fillMore_gathers {fuel : Nat} {answer : Except IoFault Bool}
    (filled : scanner.fillMore fuel = .ok (answer, after)) :
    Gathers scanner (ending answer) after ∧
      (answer = .ok false → after.isExhausted = true ∧
        after.window.length = scanner.window.length) := by
  induction fuel generalizing scanner with
  | zero => cases filled
  | succ fuel ih =>
    simp only [fillMore] at filled
    split at filled
    next exhausted =>
      cases Except.ok.inj filled
      exact ⟨.done, fun _ => ⟨exhausted, rfl⟩⟩
    next goes =>
      obtain ⟨roomy, made, makes, length, isExhausted⟩ := makeRoomIfFull_gathers scanner
      have still : roomy.isExhausted = false := by simpa [isExhausted] using goes
      rw [made] at filled
      split at filled
      next absent =>
        cases Except.ok.inj filled
        exact ⟨makes _ _ (.absent absent .done), fun _ => ⟨rfl, length⟩⟩
      next source opened =>
        obtain ⟨delivery, delivered, filled⟩ := bind_eq_ok_iff.mp filled
        split at filled
        next count told =>
          split at filled
          next some =>
            cases Except.ok.inj filled
            refine ⟨makes _ _ (.asked still opened delivered ?_ _ .done), fun more => by cases more⟩
            rw [Delivery.isLast, told]
            exact beq_eq_false_iff_ne.mpr (Nat.pos_iff_ne_zero.mp some)
          next none =>
            cases Except.ok.inj filled
            refine ⟨makes _ _ (.ended still opened delivered ?_ .done), fun _ => ⟨rfl, length⟩⟩
            rw [Delivery.isLast, told]
            exact beq_iff_eq.mpr (Nat.eq_zero_of_not_pos none)
        next told =>
          cases Except.ok.inj filled
          refine ⟨makes _ _ (.ended still opened delivered ?_ .done), fun _ => ⟨rfl, length⟩⟩
          rw [Delivery.isLast, told]
        next wanted told =>
          split at filled
          next =>
            obtain ⟨gathers, spent⟩ := ih filled
            refine ⟨makes _ _ (.asked still opened delivered ?_ _ (.room wanted gathers)),
              fun none => ?_⟩
            · rw [Delivery.isLast, told]
            · obtain ⟨exhausted, same⟩ := spent none
              rw [length_makeRoom] at same
              exact ⟨exhausted, same.trans length⟩
          next =>
            cases Except.ok.inj filled
            exact ⟨makes _ _ (.failed still opened delivered _), fun more => by cases more⟩
        next cause told =>
          cases Except.ok.inj filled
          exact ⟨makes _ _ (.failed still opened delivered _), fun more => by cases more⟩

theorem fillIf_gathers {short : Prop} [Decidable short] {fuel : Nat} {answer : Except IoFault Bool}
    (read : (if short then scanner.fillMore fuel else pure (.ok true, scanner)) =
      .ok (answer, after)) :
    Gathers scanner (ending answer) after ∧ (answer = .ok false → short ∧
      after.isExhausted = true ∧ after.window.length = scanner.window.length) := by
  split at read
  next holds =>
    obtain ⟨gathers, spent⟩ := fillMore_gathers read
    exact ⟨gathers, fun none => ⟨holds, spent none⟩⟩
  next =>
    cases Except.ok.inj read
    exact ⟨.done, fun more => by cases more⟩

theorem forwardFrom_gathers {fuel state length : Nat} {trail : Trail U}
    {answer : Except IoFault (Trail U)}
    (ran : scanner.forwardFrom fuel state length trail = .ok (answer, after)) :
    Gathers scanner (ending answer) after := by
  induction fuel generalizing scanner state length trail with
  | zero => cases ran
  | succ fuel ih =>
    rw [forwardFrom, fillIf_bind] at ran
    obtain ⟨⟨more, filled⟩, read, ran⟩ := bind_eq_ok_iff.mp ran
    obtain ⟨gathers, -⟩ := fillIf_gathers read
    cases more with
    | error cause =>
      cases Except.ok.inj ran
      exact gathers
    | ok more =>
      cases more with
      | false =>
        cases Except.ok.inj ran
        exact gathers
      | true =>
        obtain ⟨unit, -, ran⟩ := bind_eq_ok_iff.mp ran
        obtain ⟨next, -, ran⟩ := bind_eq_ok_iff.mp ran
        cases next with
        | none =>
          cases Except.ok.inj ran
          exact gathers
        | some next =>
          obtain ⟨code, -, ran⟩ := bind_eq_ok_iff.mp ran
          exact gathers.trans (ih ran)

theorem forward_gathers {fuel : Nat} {answer : Except IoFault (Trail U)}
    (ran : scanner.forward fuel = .ok (answer, after)) : Gathers scanner (ending answer) after := by
  obtain ⟨initial, -, ran⟩ := bind_eq_ok_iff.mp ran
  exact forwardFrom_gathers ran

end Scanner

end TableDriven
