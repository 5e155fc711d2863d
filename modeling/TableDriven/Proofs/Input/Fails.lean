import TableDriven.Proofs.Input.Delivers

/-! # Sources that fail

`UnitSource.Fails ε source units` says that `source` hands out `units`, in whatever chunks, and
then fails: with an error, or by refusing a buffer that is as large as it asks for.  The relation is
the largest one that `Falters` keeps (`Fails.fill_ok`).  Nothing is said of what the source does
once it has failed.  Scripts of honest steps in front of a failure are such sources
(`Script.fails`).
-/

namespace TableDriven

namespace UnitSource

variable {σ U : Type} (ε : Type) [UnitSource σ U ε]

/-- What a source that hands out `units` and then fails may answer to a buffer of some units;
`fails` tells what it hands out from then on.  It fails by a cause, or by refusing a buffer as large
as it asks for. -/
inductive Falters (fails : σ → List U → Prop) (units : List U) : Nat → Delivery σ U ε → Prop where
  | read {room count : Nat} {delivery : Delivery σ U ε}
      (told : delivery.answer = .ok (.read count)) (some : 0 < count) (fits : count ≤ room)
      (enough : count ≤ delivery.written.length)
      (written : delivery.written.take count = units.take count)
      (goesOn : fails delivery.rest (units.drop count)) : Falters fails units room delivery
  | failed {room : Nat} {delivery : Delivery σ U ε} {cause : IoFault}
      (told : delivery.answer = .error cause) (nothing : units = []) :
      Falters fails units room delivery
  | insatiable {room wanted : Nat} {delivery : Delivery σ U ε}
      (told : delivery.answer = .ok (.tooSmall wanted)) (large : wanted ≤ room)
      (nothing : units = []) : Falters fails units room delivery
  | refused {room wanted : Nat} {delivery : Delivery σ U ε} {fuel : Nat → Nat}
      {next : Nat → Delivery σ U ε} (told : delivery.answer = .ok (.tooSmall wanted))
      (small : room < wanted)
      (again : ∀ offered, wanted ≤ offered →
        fill (fuel offered) delivery.rest offered = .ok (next offered))
      (falters : ∀ offered, wanted ≤ offered → Falters fails units offered (next offered)) :
      Falters fails units room delivery

/-- A relation between sources and units that every call keeps up to the failure. -/
structure IsFailing (fails : σ → List U → Prop) : Prop where
  fill_ok : ∀ {source : σ} {units : List U} {room : Nat}, fails source units → 0 < room →
    ∃ (fuel : Nat) (delivery : Delivery σ U ε),
      fill fuel source room = .ok delivery ∧ Falters ε fails units room delivery

/-- The source hands out `units` and then fails. -/
def Fails (source : σ) (units : List U) : Prop :=
  ∃ fails : σ → List U → Prop, IsFailing ε fails ∧ fails source units

variable {ε}

theorem Falters.mono {fails more : σ → List U → Prop} {room : Nat} {units : List U}
    {delivery : Delivery σ U ε} (falters : Falters ε fails units room delivery)
    (weaker : ∀ source units, fails source units → more source units) :
    Falters ε more units room delivery := by
  induction falters with
  | read told some fits enough written goesOn =>
    exact .read told some fits enough written (weaker _ _ goesOn)
  | failed told nothing => exact .failed told nothing
  | insatiable told large nothing => exact .insatiable told large nothing
  | refused told small again _ ih => exact .refused told small again ih

theorem Fails.fill_ok {source : σ} {units : List U} {room : Nat} (fails : Fails ε source units)
    (free : 0 < room) :
    ∃ (fuel : Nat) (delivery : Delivery σ U ε),
      fill fuel source room = .ok delivery ∧ Falters ε (Fails ε) units room delivery := by
  obtain ⟨relation, kept, related⟩ := fails
  obtain ⟨fuel, delivery, filled, falters⟩ := kept.fill_ok related free
  exact ⟨fuel, delivery, filled, falters.mono fun _ _ related => ⟨relation, kept, related⟩⟩

/-- As long as there are units left, an honest answer is one of a source that fails behind them. -/
theorem Supplies.falters {delivers : σ → Content U → Prop} {fails : σ → List U → Prop}
    {room : Nat} {units : List U} {delivery : Delivery σ U ε} (some : units ≠ [])
    (supplies : Supplies ε delivers (.ofList units) room delivery)
    (weaker : ∀ source rest, delivers source (.ofList rest) → fails source rest) :
    Falters ε fails units room delivery := by
  induction supplies with
  | read told positive fits enough written goesOn =>
    rw [Content.take_ofList] at written
    rw [Content.drop_ofList] at goesOn
    exact .read told positive fits enough written (weaker _ _ goesOn)
  | ended told nothing =>
    rw [Stream'.Seq.ofList_get?, List.getElem?_eq_none_iff] at nothing
    exact absurd (List.eq_nil_of_length_eq_zero (Nat.le_zero.mp nothing)) some
  | refused told small again _ ih => exact .refused told small again ih

end UnitSource

/-- A step that fails on every buffer that offers some room. -/
def ScriptStep.IsFatal : ScriptStep U → Prop
  | .failure _ => True
  | .small wanted => wanted ≤ 1
  | .line _ | .claim .. | .read _ | .eof => False

namespace Script

variable {U ε : Type}

/-- A script whose steps all deliver some units, up to one that fails. -/
theorem fails {pending : List U} {steps later : List (ScriptStep U)} {last : ScriptStep U}
    (hands : ∀ step ∈ steps, step.units ≠ []) (fatal : last.IsFatal) :
    UnitSource.Fails ε (⟨pending, steps ++ last :: later⟩ : Script U)
      (Script.units ⟨pending, steps⟩) := by
  refine ⟨fun script units => ∃ pending steps, (∀ step ∈ steps, ScriptStep.units step ≠ []) ∧
    script = ⟨pending, steps ++ last :: later⟩ ∧ units = Script.units ⟨pending, steps⟩, ⟨?_⟩,
    pending, steps, hands, rfl, rfl⟩
  rintro script units room ⟨pending, steps, hands, rfl, rfl⟩ free
  refine ⟨0, fill ⟨pending, steps ++ last :: later⟩ room, rfl, ?_⟩
  -- Up to the failure, it goes on as the honest script in front of the failure does.
  let honest (script : Script U) (input : Content U) : Prop :=
    ∃ pending steps, (∀ step ∈ steps, ScriptStep.units step ≠ []) ∧
      script = ⟨pending, steps ++ last :: later⟩ ∧ input = .ofList (Script.units ⟨pending, steps⟩)
  have weaker (script : Script U) (rest : List U) (goesOn : honest script (.ofList rest)) :
      ∃ pending steps, (∀ step ∈ steps, ScriptStep.units step ≠ []) ∧
        script = ⟨pending, steps ++ last :: later⟩ ∧ rest = Script.units ⟨pending, steps⟩ := by
    obtain ⟨pending, steps, hands, same, content⟩ := goesOn
    exact ⟨pending, steps, hands, same, Stream'.Seq.ofList_injective content⟩
  cases pending with
  | cons unit pending =>
    have goesOn : honest ⟨(unit :: pending).drop room, steps ++ last :: later⟩
        (.ofList (Script.units ⟨(unit :: pending).drop room, steps⟩)) := ⟨_, steps, hands, rfl, rfl⟩
    have supplies := supplies_deliver (ε := ε) (List.cons_ne_nil unit pending) free goesOn
    exact supplies.falters (List.cons_ne_nil unit _) weaker
  | nil =>
    cases steps with
    | nil =>
      cases last with
      | failure cause => exact .failed rfl rfl
      | small wanted => exact .insatiable rfl (Nat.le_trans fatal free) rfl
      | line | claim | read | eof => exact fatal.elim
    | cons step steps =>
      have some := hands step (.head _)
      have rest : ∀ step ∈ steps, step.units ≠ [] := fun step member => hands step (.tail _ member)
      have nonempty : step.units ++ Script.units ⟨[], steps⟩ ≠ [] := by simp [some]
      have goesOn : honest ⟨[], steps ++ last :: later⟩ (.ofList (Script.units ⟨[], steps⟩)) :=
        ⟨[], steps, rest, rfl, rfl⟩
      cases step with
      | small | failure | claim | eof => exact absurd rfl some
      | read units =>
        have goesOn : honest ⟨units.drop room, steps ++ last :: later⟩
            (.ofList (Script.units ⟨units.drop room, steps⟩)) := ⟨_, steps, rest, rfl, rfl⟩
        exact (supplies_deliver some free goesOn).falters nonempty weaker
      | line units => exact (supplies_next_line some goesOn).falters nonempty weaker

end Script

end TableDriven
