/-! # Tokens

A token has a number, whose meaning comes from the tables alone, perhaps a value, and the position
it stands at.  Lines and columns count from 1, in words of 32 bits, which wrap.
-/

namespace TableDriven

/-- Lines, columns and tab widths may be given and read as naturals. -/
scoped instance coeWord : Coe UInt32 Nat := ⟨UInt32.toNat⟩

scoped instance coeNatural : Coe Nat UInt32 := ⟨UInt32.ofNat⟩

structure Position where
  line : UInt32
  column : UInt32
  deriving DecidableEq, Inhabited

namespace Position

def origin : Position := ⟨1, 1⟩

def text (position : Position) : String :=
  let line := position.line
  let column := position.column
  s!"{line}:{column}"

end Position

structure Token (V : Type) where
  number : Nat
  value : Option V
  file : Option String
  position : Position
  deriving DecidableEq, Inhabited

namespace Token

def bare (number : Nat) : Token V := ⟨number, none, none, ⟨0, 0⟩⟩

def synthetic (token : Token V) (number : Nat) : Token W :=
  ⟨number, none, token.file, token.position⟩

def withoutValue (token : Token V) : Token W := token.synthetic token.number

end Token

end TableDriven
