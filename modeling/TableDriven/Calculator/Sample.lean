import TableDriven.Dialogue

/-! # Samples of calculator input

A sample is a sum of integers with blanks between, of at least a given length, together with its
value.  Making one is a dialogue that asks for each random choice, so whatever answers the
questions, the text is a sum and the value is that of the text.
-/

namespace TableDriven.Calculator

/-- A random choice: yes, with a probability counted in parts of `2 ^ 64`, or a number from 0 to
`last`, all with the same probability. -/
inductive Choice where
  | chance (parts : Nat)
  | upTo (last : Nat)
  deriving DecidableEq, Inhabited

/-- What answers a choice. -/
def Choice.Answer : Choice → Type
  | .chance _ => Bool
  | .upTo last => Fin (last + 1)

/-- A computation that makes random choices. -/
abbrev Random := Dialogue Choice Choice.Answer

namespace Random

def chance (parts : Nat) : Random Bool := .ask (.chance parts) fun yes => .done yes

/-- A number from 0 to `last`. -/
def upTo (last : Nat) : Random (Fin (last + 1)) := .ask (.upTo last) fun number => .done number

/-- The probability of blanks: the 53-bit fraction nearest to 3/10. -/
def blankParts : Nat := 0x4CCCCCCCCCCCCC00

/-- The probability of a line break at the end: one half. -/
def breakParts : Nat := 0x8000000000000000

end Random

/-- A text, its last character first, and its value. -/
structure Sample where
  reversed : List Char
  length : Nat
  total : Int64
  deriving DecidableEq, Inhabited

namespace Sample

def empty : Sample := ⟨[], 0, 0⟩

def text (sample : Sample) : String := String.ofList sample.reversed.reverse

/-- A sample with one more character, which adds nothing to its value. -/
def push (sample : Sample) (char : Char) : Sample :=
  { sample with reversed := char :: sample.reversed, length := sample.length + 1 }

def add (sample : Sample) (value : Int64) : Sample := { sample with total := sample.total + value }

/-- Adds `count` digits, which continue the number `value`, and then the number. -/
def digits : Nat → Int64 → Sample → Random Sample
  | 0, value, sample => return sample.add value
  | count + 1, value, sample => do
    let digit ← Random.upTo 9
    digits count (value * 10 + Int64.ofNat digit.val) (sample.push (Nat.digitChar digit.val))

def integer (sample : Sample) : Random Sample := do
  let more ← Random.upTo 5
  digits (more.val + 1) 0 sample

def blank (index : Fin 4) : Char := #v[' ', '\t', '\r', '\n'][index]

/-- Adds `count` blanks. -/
def blanks : Nat → Sample → Random Sample
  | 0, sample => return sample
  | count + 1, sample => do
    let index ← Random.upTo 3
    blanks count (sample.push (blank index))

def spacing (sample : Sample) : Random Sample := do
  if ← Random.chance Random.blankParts then
    let more ← Random.upTo 3
    blanks (more.val + 1) sample
  else return sample

def summand (sample : Sample) : Random Sample := do
  let sample ← sample.spacing
  let sample ← (sample.push '+').spacing
  sample.integer

/-- Adds summands until the text has `target` characters, but at most `rounds` of them. -/
def extend (target : Nat) : Nat → Sample → Random Sample
  | 0, sample => return sample
  | rounds + 1, sample => do
    if sample.length < target then
      extend target rounds (← sample.summand)
    else return sample

/-- A sum of at least `target` characters.  Each summand has two of them or more, so `target`
rounds are enough. -/
def ofLength (target : Nat) : Random Sample := do
  let sample ← extend target target (← empty.integer)
  if ← Random.chance Random.breakParts then return sample.push '\n' else return sample

end Sample

end TableDriven.Calculator
