import Mathlib.Data.Seq.Basic
import TableDriven.Input.Script

/-! # What a source delivers

`UnitSource.Delivers ε source input` says that `source` is without error and hands out `input`,
in whatever chunks: no call fails or claims more than it wrote, a buffer that is refused is taken
once it is large enough, and the end of input is told where `input` ends.  The input
may be infinite, so the relation is the largest one that `Supplies` keeps (`Delivers.fill_ok`).
Scripts of honest steps are such sources (`Script.delivers`).
-/

namespace TableDriven

/-- What is still to come of an input, which need not end. -/
abbrev Content (U : Type) : Type := Stream'.Seq U

namespace Content

variable {input : Content U}

theorem length_take {count : Nat} {units : List U} (taken : input.take count = units)
    (enough : units.length = count) {index : Nat} (inside : index < count) :
    ∃ unit, input.get? index = some unit := by
  have there : index < units.length := enough ▸ inside
  refine ⟨units[index], ?_⟩
  rw [← List.getElem?_eq_getElem there, ← taken, Stream'.Seq.getElem?_take, if_pos inside]

theorem take_add (first second : Nat) (enough : (input.take first).length = first) :
    input.take (first + second) = input.take first ++ (input.drop first).take second := by
  apply List.ext_getElem?
  intro index
  grind

theorem take_take {shorter longer : Nat} (within : shorter ≤ longer) :
    (input.take longer).take shorter = input.take shorter := by
  apply List.ext_getElem?
  intro index
  grind

theorem take_one {unit : U} (first : input.get? 0 = some unit) : input.take 1 = [unit] := by
  apply List.ext_getElem?
  intro index
  cases index <;> simp [Stream'.Seq.getElem?_take, first]

theorem drop_drop (first second : Nat) :
    (input.drop first).drop second = input.drop (first + second) :=
  (Stream'.Seq.dropn_add input first second).symm

theorem drop_ofList (units : List U) (count : Nat) :
    (Stream'.Seq.ofList units).drop count = Stream'.Seq.ofList (units.drop count) := by
  apply Stream'.Seq.ext
  intro index
  simp

theorem take_ofList (units : List U) (count : Nat) :
    (Stream'.Seq.ofList units).take count = units.take count := by
  apply List.ext_getElem?
  intro index
  simp [List.getElem?_take]

/-- An input of which the rest ends, ends. -/
theorem eq_ofList_append {first rest : List U} (taken : input.take first.length = first)
    (dropped : input.drop first.length = Stream'.Seq.ofList rest) :
    input = Stream'.Seq.ofList (first ++ rest) := by
  apply Stream'.Seq.ext
  intro index
  simp only [Stream'.Seq.ofList_get?, List.getElem?_append]
  split
  next inside => rw [← taken, Stream'.Seq.getElem?_take, if_pos inside]
  next outside =>
    have behind := congrArg (Stream'.Seq.get? · (index - first.length)) dropped
    simpa [Stream'.Seq.drop_get?, Nat.add_sub_cancel' (Nat.le_of_not_lt outside)] using behind

end Content

namespace UnitSource

variable {σ U : Type} (ε : Type) [UnitSource σ U ε]

/-- What a source that delivers `input` may answer to a buffer of some units; `delivers` tells what
it delivers from then on.  What refuses a buffer delivers nothing before a larger one is offered,
which may be refused for a still larger one. -/
inductive Supplies (delivers : σ → Content U → Prop) (input : Content U) :
    Nat → Delivery σ U ε → Prop where
  | read {room count : Nat} {delivery : Delivery σ U ε}
      (told : delivery.answer = .ok (.read count)) (some : 0 < count) (fits : count ≤ room)
      (enough : count ≤ delivery.written.length)
      (written : delivery.written.take count = input.take count)
      (goesOn : delivers delivery.rest (input.drop count)) : Supplies delivers input room delivery
  | ended {room : Nat} {delivery : Delivery σ U ε}
      (told : delivery.answer = .ok .eof ∨ delivery.answer = .ok (.read 0))
      (nothing : input.get? 0 = none) : Supplies delivers input room delivery
  | refused {room wanted : Nat} {delivery : Delivery σ U ε} {fuel : Nat → Nat}
      {next : Nat → Delivery σ U ε} (told : delivery.answer = .ok (.tooSmall wanted))
      (small : room < wanted)
      (again : ∀ offered, wanted ≤ offered →
        fill (fuel offered) delivery.rest offered = .ok (next offered))
      (supplies : ∀ offered, wanted ≤ offered → Supplies delivers input offered (next offered)) :
      Supplies delivers input room delivery

/-- A relation between sources and inputs that every call keeps. -/
structure IsSupply (delivers : σ → Content U → Prop) : Prop where
  fill_ok : ∀ {source : σ} {input : Content U} {room : Nat}, delivers source input → 0 < room →
    ∃ (fuel : Nat) (delivery : Delivery σ U ε),
      fill fuel source room = .ok delivery ∧ Supplies ε delivers input room delivery

/-- The source hands out `input` without error. -/
def Delivers (source : σ) (input : Content U) : Prop :=
  ∃ delivers : σ → Content U → Prop, IsSupply ε delivers ∧ delivers source input

variable {ε}

theorem Supplies.mono {delivers more : σ → Content U → Prop} {room : Nat} {input : Content U}
    {delivery : Delivery σ U ε} (supplies : Supplies ε delivers input room delivery)
    (weaker : ∀ source input, delivers source input → more source input) :
    Supplies ε more input room delivery := by
  induction supplies with
  | read told some fits enough written goesOn =>
    exact .read told some fits enough written (weaker _ _ goesOn)
  | ended told nothing => exact .ended told nothing
  | refused told small again _ ih => exact .refused told small again ih

theorem Delivers.fill_ok {source : σ} {input : Content U} {room : Nat}
    (delivers : Delivers ε source input) (free : 0 < room) :
    ∃ (fuel : Nat) (delivery : Delivery σ U ε),
      fill fuel source room = .ok delivery ∧ Supplies ε (Delivers ε) input room delivery := by
  obtain ⟨relation, kept, related⟩ := delivers
  obtain ⟨fuel, delivery, filled, supplies⟩ := kept.fill_ok related free
  exact ⟨fuel, delivery, filled, supplies.mono fun _ _ related => ⟨relation, kept, related⟩⟩

end UnitSource

namespace ScriptStep

variable {U : Type}

/-- The units that a step delivers, all at once or as they fit; other steps deliver none. -/
def units : ScriptStep U → List U
  | .line units | .read units => units
  | .small _ | .failure _ | .claim .. | .eof => []

end ScriptStep

namespace Script

variable {U ε : Type} {script : Script U}

/-- The units that a script holds. -/
def units (script : Script U) : List U := script.pending ++ script.steps.flatMap ScriptStep.units

/-- What is left of delivered units comes next. -/
theorem supplies_deliver {delivers : Script U → Content U → Prop} {room : Nat}
    {units rest : List U} {steps : List (ScriptStep U)} (some : units ≠ []) (free : 0 < room)
    (goesOn : delivers ⟨units.drop room, steps⟩ (.ofList (units.drop room ++ rest))) :
    UnitSource.Supplies ε delivers (.ofList (units ++ rest)) room (deliver units room steps) := by
  have positive : 0 < units.length := List.length_pos_iff.mpr some
  have size : (units.take room).length ≤ units.length := by simp
  refine .read rfl (by simp; omega) (by simp) le_rfl ?_ ?_
  · rw [Content.take_ofList, List.take_append_of_le_length size]
    simp only [deliver, Delivery.exactly, List.take_take, List.length_take]
    congr 1
    omega
  · rw [Content.drop_ofList, List.drop_append_of_le_length size]
    have same : units.drop (units.take room).length = units.drop room := by
      rw [List.length_take]
      by_cases fits : room ≤ units.length
      · rw [Nat.min_eq_left fits]
      · rw [Nat.min_eq_right (by omega), List.drop_length, List.drop_eq_nil_of_le (by omega)]
    rw [same]
    exact goesOn

/-- A line is delivered at once to a buffer that holds it. -/
theorem supplies_line {delivers : Script U → Content U → Prop} {room : Nat} {units rest : List U}
    {steps : List (ScriptStep U)} (some : units ≠ []) (fits : units.length ≤ room)
    (goesOn : delivers ⟨[], steps⟩ (.ofList rest)) :
    UnitSource.Supplies ε delivers (.ofList (units ++ rest)) room
      (fill ⟨[], .line units :: steps⟩ room) := by
  have hands : fill ⟨[], .line units :: steps⟩ room =
      (.exactly units ⟨[], steps⟩ : Delivery (Script U) U ε) := if_neg (Nat.not_lt.mpr fits)
  rw [hands]
  refine .read rfl (List.length_pos_iff.mpr some) fits le_rfl ?_ ?_
  · rw [Content.take_ofList, List.take_left]
    exact List.take_length
  · rw [Content.drop_ofList, List.drop_left]
    exact goesOn

/-- A line is refused until a buffer holds it. -/
theorem supplies_next_line {delivers : Script U → Content U → Prop} {room : Nat}
    {units rest : List U} {steps : List (ScriptStep U)} (some : units ≠ [])
    (goesOn : delivers ⟨[], steps⟩ (.ofList rest)) :
    UnitSource.Supplies ε delivers (.ofList (units ++ rest)) room
      (fill ⟨[], .line units :: steps⟩ room) := by
  by_cases small : room < units.length
  · have refuses : fill ⟨[], .line units :: steps⟩ room =
        (.silent (.ok (.tooSmall units.length)) ⟨[], .line units :: steps⟩ :
          Delivery (Script U) U ε) := if_pos small
    rw [refuses]
    exact .refused rfl small (fun offered _ => (rfl :
        UnitSource.fill 0 (⟨[], .line units :: steps⟩ : Script U) offered = _))
      fun offered fits => supplies_line some fits goesOn
  · exact supplies_line some (Nat.not_lt.mp small) goesOn

/-- A script whose steps all deliver some units delivers what it holds. -/
theorem delivers (hands : ∀ step ∈ script.steps, step.units ≠ []) :
    UnitSource.Delivers ε script (.ofList script.units) := by
  refine ⟨fun script input => (∀ step ∈ script.steps, step.units ≠ []) ∧
    input = .ofList script.units, ⟨?_⟩, hands, rfl⟩
  rintro ⟨pending, steps⟩ input room ⟨hands, rfl⟩ free
  refine ⟨0, fill ⟨pending, steps⟩ room, rfl, ?_⟩
  cases pending with
  | cons unit pending => exact supplies_deliver (by simp) free ⟨hands, rfl⟩
  | nil =>
    cases steps with
    | nil => exact .ended (.inl rfl) rfl
    | cons step steps =>
      have some := hands step (.head _)
      have rest : ∀ step ∈ steps, step.units ≠ [] := fun step member => hands step (.tail _ member)
      cases step with
      | small | failure | claim | eof => exact absurd rfl some
      | read units => exact supplies_deliver some free ⟨rest, rfl⟩
      | line units => exact supplies_next_line some ⟨rest, rfl⟩

end Script

end TableDriven
