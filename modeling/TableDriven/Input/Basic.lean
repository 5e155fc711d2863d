import TableDriven.Fault
import TableDriven.Text.Quoted

/-! # Units and their sources

A scanner reads bytes or characters.  It gets them from a unit source, which fills the front of a
buffer and says how much it wrote.  A source may refuse a buffer that is too small for its next
indivisible piece, and it may fail.  What it wrote and what it says of it are two things: a source
may claim more than it wrote.
-/

namespace TableDriven

/-- What a scanner reads: the unit that new buffer space holds, the place of a unit in the category
table, and a unit as log lines show it. -/
class ScanUnit (U : Type) where
  blank : U
  ordinal : U → Nat
  shown : U → String

namespace ScanUnit

def isLineBreak [ScanUnit U] (unit : U) : Bool := ordinal unit == 0x0A

def isTab [ScanUnit U] (unit : U) : Bool := ordinal unit == 0x09

end ScanUnit

instance : ScanUnit UInt8 := ⟨0, UInt8.toNat, fun byte => toString byte.toNat⟩
instance : ScanUnit Char := ⟨'\x00', Char.toNat, Text.Quoted.ofChar⟩

/-- What a source says about a buffer: `count` units stand at its front, where none means the end of
input; there is no more input; or it must offer at least `wanted` units. -/
inductive Fill where
  | read (count : Nat)
  | eof
  | tooSmall (wanted : Nat)
  deriving DecidableEq, Inhabited

/-- What a call of a unit source yields. -/
structure Delivery (σ U ε : Type) where
  answer : Except IoFault Fill
  written : List U
  rest : σ
  notes : List ε

/-- A state that delivers units of type `U` and makes notes of type `ε`.  It fills a buffer of some
room, with fuel for the search. -/
class UnitSource (σ : Type) (U : outParam Type) (ε : Type) where
  fill : Nat → σ → Nat → Run (Delivery σ U ε)
  close : σ → σ × List ε

namespace Delivery

def silent (answer : Except IoFault Fill) (rest : σ) : Delivery σ U ε := ⟨answer, [], rest, []⟩

def exactly (units : List U) (rest : σ) : Delivery σ U ε :=
  ⟨.ok (.read units.length), units, rest, []⟩

/-- The units that a delivery claims to stand at the front of a new buffer of `room` units: the
written ones, then blank ones. -/
def claimed [ScanUnit U] (delivery : Delivery σ U ε) (room : Nat) : List U :=
  match delivery.answer with
  | .ok (.read count) =>
    let count := min count room
    delivery.written.take count ++
      List.replicate (count - delivery.written.length) ScanUnit.blank
  | _ => []

end Delivery

instance [UnitSource σ U ε] [UnitSource τ U ε] : UnitSource (σ ⊕ τ) U ε where
  fill fuel source room :=
    match source with
    | .inl source => do
      let delivery ← UnitSource.fill fuel source room
      return ⟨delivery.answer, delivery.written, .inl delivery.rest, delivery.notes⟩
    | .inr source => do
      let delivery ← UnitSource.fill fuel source room
      return ⟨delivery.answer, delivery.written, .inr delivery.rest, delivery.notes⟩
  close
    | .inl source => let (rest, notes) := UnitSource.close source; (.inl rest, notes)
    | .inr source => let (rest, notes) := UnitSource.close source; (.inr rest, notes)

/-- A source whose deliveries do not depend on the fuel that it leaves over. -/
class LawfulUnitSource (σ : Type) (U : outParam Type) (ε : Type) [UnitSource σ U ε] : Prop where
  fill_mono : ∀ {fuel enough room : Nat} {source : σ} {delivery : Delivery σ U ε},
    UnitSource.fill fuel source room = .ok delivery → fuel ≤ enough →
      UnitSource.fill enough source room = .ok delivery

instance [UnitSource σ U ε] [UnitSource τ U ε] [LawfulUnitSource σ U ε]
    [LawfulUnitSource τ U ε] : LawfulUnitSource (σ ⊕ τ) U ε where
  fill_mono := by
    intro fuel enough room source delivery filled more
    cases source with
    | inl source | inr source =>
      obtain ⟨answered, taken, filled⟩ := bind_eq_ok_iff.mp filled
      exact bind_eq_ok_iff.mpr ⟨answered, LawfulUnitSource.fill_mono taken more, filled⟩

end TableDriven
