import TableDriven.Input.Bytes
import TableDriven.Input.Chars
import TableDriven.Input.Script
import TableDriven.Scanner.Round

/-! # Scans without fuel

What a scanner answers does not depend on the fuel that it leaves over, so a scanner is a lawful
source of tokens if its input is a lawful source of units.  The inputs of this library are.
-/

namespace TableDriven

theorem Reader.insist_mono [Reader ρ] {reader : ρ} {fuel enough room : Nat}
    {answer : ReadAnswer × ρ} (insisted : insist fuel reader room = .ok answer)
    (more : fuel ≤ enough) : insist enough reader room = .ok answer := by
  induction fuel generalizing reader enough with
  | zero => contradiction
  | succ fuel ih =>
    obtain ⟨enough, rfl⟩ : ∃ less, enough = less + 1 := ⟨enough - 1, by omega⟩
    simp only [insist] at insisted ⊢
    split at insisted
    next => exact ih insisted (by omega)
    next => exact insisted

instance [Reader ρ] : LawfulUnitSource (ByteSource ρ) UInt8 ε where
  fill_mono := by
    intro fuel enough room source delivery filled more
    simp only [UnitSource.fill, ByteSource.fill] at filled ⊢
    split at filled
    next => exact filled
    next reader =>
      split at filled
      next full => rw [if_pos full]; exact filled
      next free =>
        rw [if_neg free]
        obtain ⟨answer, insisted, filled⟩ := bind_eq_ok_iff.mp filled
        exact bind_eq_ok_iff.mpr ⟨answer, Reader.insist_mono insisted more, filled⟩

instance : LawfulUnitSource (Script U) U ε where
  fill_mono filled _ := filled

namespace LineSource

theorem readLine_mono [Reader ρ] {reader : ρ} {before read : List UInt8} {fuel enough : Nat}
    {answer : Except IoFault (List UInt8 × List UInt8) × ρ}
    (answered : readLine fuel reader before read = .ok answer) (more : fuel ≤ enough) :
    readLine enough reader before read = .ok answer := by
  induction fuel generalizing reader before read enough with
  | zero => contradiction
  | succ fuel ih =>
    obtain ⟨enough, rfl⟩ : ∃ less, enough = less + 1 := ⟨enough - 1, by omega⟩
    have more : fuel ≤ enough := by omega
    simp only [readLine] at answered ⊢
    split at answered
    next => exact answered
    next =>
      obtain ⟨⟨told, rest⟩, insisted, answered⟩ := bind_eq_ok_iff.mp answered
      refine bind_eq_ok_iff.mpr ⟨_, Reader.insist_mono insisted more, ?_⟩
      cases told with
      | interrupted | failed => exact answered
      | data bytes =>
        cases bytes with
        | nil => exact answered
        | cons byte bytes => exact ih answered more

instance [Reader ρ] : LawfulUnitSource (LineSource ρ) Char ε where
  fill_mono := by
    intro fuel enough room source delivery filled more
    simp only [UnitSource.fill, fill] at filled ⊢
    split at filled
    next => exact filled
    next => exact filled
    next =>
      obtain ⟨answer, read, filled⟩ := bind_eq_ok_iff.mp filled
      exact bind_eq_ok_iff.mpr ⟨answer, readLine_mono read more, filled⟩

end LineSource

namespace Scanner

variable [ScanUnit U] [UnitSource σ U ε] [LawfulUnitSource σ U ε] [TokenFactory φ U V ε]
  {scanner : Scanner σ φ U ε} {fuel enough : Nat}

omit [TokenFactory φ U V ε] in
theorem fillMore_mono {result : Except IoFault Bool × Scanner σ φ U ε}
    (filled : scanner.fillMore fuel = .ok result) (more : fuel ≤ enough) :
    scanner.fillMore enough = .ok result := by
  induction fuel generalizing scanner enough with
  | zero => contradiction
  | succ fuel ih =>
    obtain ⟨enough, rfl⟩ : ∃ less, enough = less + 1 := ⟨enough - 1, by omega⟩
    have more : fuel ≤ enough := by omega
    simp only [fillMore] at filled ⊢
    split at filled
    next exhausted => rw [if_pos exhausted]; exact filled
    next goes =>
      rw [if_neg goes]
      generalize (if scanner.window.free = 0 then scanner.makeRoom 1 else scanner) = roomy
        at filled ⊢
      split at filled
      next => exact filled
      next source found =>
        obtain ⟨delivery, delivered, filled⟩ := bind_eq_ok_iff.mp filled
        refine bind_eq_ok_iff.mpr ⟨_, LawfulUnitSource.fill_mono delivered more, ?_⟩
        split at filled
        next => exact filled
        next => exact filled
        next wanted told =>
          split at filled
          next small => rw [if_pos small]; exact ih filled more
          next large => rw [if_neg large]; exact filled
        next => exact filled

omit [TokenFactory φ U V ε] in
/-- A window that is filled only on need. -/
theorem fillMore_bind_mono {short : Prop} [Decidable short] {result : α}
    {first second : Except IoFault Bool × Scanner σ φ U ε → Run α} (more : fuel ≤ enough)
    (later : ∀ filled, first filled = .ok result → second filled = .ok result)
    (ran : (if short then scanner.fillMore fuel >>= first
      else pure (.ok true, scanner) >>= first) = .ok result) :
    (if short then scanner.fillMore enough >>= second
      else pure (.ok true, scanner) >>= second) = .ok result := by
  by_cases need : short
  · rw [if_pos need] at ran ⊢
    obtain ⟨filled, read, rest⟩ := bind_eq_ok_iff.mp ran
    exact bind_eq_ok_iff.mpr ⟨filled, fillMore_mono read more, later filled rest⟩
  · rw [if_neg need] at ran ⊢
    exact later _ ran

theorem forwardFrom_mono {state length : Nat} {trail : Trail U}
    {result : Except IoFault (Trail U) × Scanner σ φ U ε}
    (ran : scanner.forwardFrom fuel state length trail = .ok result) (more : fuel ≤ enough) :
    scanner.forwardFrom enough state length trail = .ok result := by
  induction fuel generalizing scanner state length trail enough with
  | zero => contradiction
  | succ fuel ih =>
    obtain ⟨enough, rfl⟩ : ∃ less, enough = less + 1 := ⟨enough - 1, by omega⟩
    have more : fuel ≤ enough := by omega
    simp only [forwardFrom] at ran ⊢
    refine fillMore_bind_mono more (fun filled rest => ?_) ran
    obtain ⟨told, scanner⟩ := filled
    cases told with
    | error cause => exact rest
    | ok read =>
      cases read with
      | false => exact rest
      | true =>
        obtain ⟨unit, stands, rest⟩ := bind_eq_ok_iff.mp rest
        refine bind_eq_ok_iff.mpr ⟨unit, stands, ?_⟩
        obtain ⟨next, found, rest⟩ := bind_eq_ok_iff.mp rest
        refine bind_eq_ok_iff.mpr ⟨next, found, ?_⟩
        cases next with
        | none => exact rest
        | some state =>
          obtain ⟨code, known, rest⟩ := bind_eq_ok_iff.mp rest
          exact bind_eq_ok_iff.mpr ⟨code, known, ih rest more⟩

theorem forward_mono {result : Except IoFault (Trail U) × Scanner σ φ U ε}
    (ran : scanner.forward fuel = .ok result) (more : fuel ≤ enough) :
    scanner.forward enough = .ok result := by
  obtain ⟨state, initial, ran⟩ := bind_eq_ok_iff.mp ran
  exact bind_eq_ok_iff.mpr ⟨state, initial, forwardFrom_mono ran more⟩

theorem round_mono {result : Except IoFault (Piece U V) × Scanner σ φ U ε}
    (scanned : scanner.round fuel = .ok result) (more : fuel ≤ enough) :
    scanner.round enough = .ok result := by
  simp only [round] at scanned ⊢
  refine fillMore_bind_mono more (fun filled rest => ?_) scanned
  obtain ⟨told, scanner⟩ := filled
  cases told with
  | error cause => exact rest
  | ok read =>
    cases read with
    | false => exact rest
    | true =>
      obtain ⟨trail, ran, rest⟩ := bind_eq_ok_iff.mp rest
      exact bind_eq_ok_iff.mpr ⟨trail, forward_mono ran more, rest⟩

theorem next_mono {result : Except StreamFault (Token V) × Scanner σ φ U ε}
    (scanned : scanner.next fuel = .ok result) (more : fuel ≤ enough) :
    scanner.next enough = .ok result := by
  induction fuel generalizing scanner enough with
  | zero => contradiction
  | succ fuel ih =>
    obtain ⟨enough, rfl⟩ : ∃ less, enough = less + 1 := ⟨enough - 1, by omega⟩
    have more : fuel ≤ enough := by omega
    simp only [next] at scanned ⊢
    obtain ⟨⟨told, scanner⟩, rounded, rest⟩ := bind_eq_ok_iff.mp scanned
    refine bind_eq_ok_iff.mpr ⟨_, round_mono rounded more, ?_⟩
    cases told with
    | error cause => exact rest
    | ok piece =>
      cases piece with
      | token | eof => exact rest
      | discarded | unmatched => exact ih rest more

instance : LawfulTokenSource (Scanner σ φ U ε) V (Notice U ε) where
  next_mono := by
    intro fuel enough scanner pull pulled more
    obtain ⟨answer, scanned, pulled⟩ := bind_eq_ok_iff.mp pulled
    exact bind_eq_ok_iff.mpr ⟨answer, next_mono scanned more, pulled⟩

end Scanner

end TableDriven
