import TableDriven.Dialogue
import TableDriven.LrTable.Basic
import TableDriven.Token.Basic

/-! # Bindings

What a reduction makes of the values that it reduces is up to the factory bound to its
production.  A factory sees the values through a dialogue: it may look at the value at an offset
or take it away, and ends in the value of the left-hand side.  Offsets count from the first
symbol that is reduced; negative ones reach the values of enclosing productions.
-/

namespace TableDriven.Parser

/-- What a factory does with a value. -/
inductive Access where
  | look (offset : Int)
  | take (offset : Int)
  deriving DecidableEq, Inhabited

/-- A computation over the values of a reduction. -/
abbrev Recipe (V : Type) := Dialogue Access fun _ => Option V

namespace Recipe

def look (offset : Int) : Recipe V (Option V) := Dialogue.question (.look offset)

def take (offset : Int) : Recipe V (Option V) := Dialogue.question (.take offset)

end Recipe

/-- A reduction, as a factory sees it.  Its position is the token that was shifted last, without its
value. -/
structure Reduction where
  production : Nat
  param : Int
  rhsLength : Nat
  position : Token Unit
  deriving Inhabited

/-- A state that makes the values of left-hand sides, and notes of type `ε`. -/
class ValueFactory (φ V ε : Type) where
  produce : φ → Reduction → Recipe V (Option V × φ × List ε)

/-- Where nothing is bound there is no factory. -/
instance : ValueFactory Empty V ε := ⟨fun factory _ => nomatch factory⟩

/-- Factories and, for each production, the place of the one bound to it. -/
structure Bindings (φ : Type) where
  factories : Array φ
  slots : Array (Option Nat)
  deriving Inhabited

namespace Bindings

variable (bindings : Bindings φ)

/-- No factory for any of `productions` productions. -/
def none (productions : Nat) : Bindings φ := ⟨#[], Array.replicate productions Option.none⟩

/-- Binds one factory to all of `productions`; those outside the table are left out. -/
def bindAll (productions : List Nat) (factory : φ) : Bindings φ where
  factories := bindings.factories.push factory
  slots := productions.foldl
    (fun slots production => slots.setIfInBounds production (some bindings.factories.size))
    bindings.slots

def slot? (production : Nat) : Option Nat := bindings.slots[production]?.join

def isBound (production : Nat) : Bool := (bindings.slot? production).isSome

end Bindings

end TableDriven.Parser
