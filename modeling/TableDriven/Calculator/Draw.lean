import TableDriven.Calculator.Sample

/-! # Drawing from words

Random choices, made from a stream of 64-bit words.  A chance takes one word; a number takes the
low half of one and, where that leaves the number in doubt, the low half of another.
-/

namespace TableDriven.Calculator

/-- A state that delivers words. -/
class WordStream (ω : Type) where
  next : ω → UInt64 × ω

namespace Draw

def low (word : UInt64) : Nat := word.toNat % UInt32.size

/-- The number below `count` that a half word `first` stands for: `count` times the fraction
`first / 2 ^ 32`, without its own fraction. -/
def scaled (count first : Nat) : Nat := first * count / UInt32.size

/-- What `scaled` leaves out, in parts of `2 ^ 32`. -/
def remainder (count first : Nat) : Nat := first * count % UInt32.size

def inDoubt (count first : Nat) : Bool := UInt32.size - count < remainder count first

/-- Whether the further half word `second` does. -/
def carries (count first second : Nat) : Bool :=
  UInt32.size ≤ remainder count first + second * count / UInt32.size

/-- Draws a number below `count`. -/
def below [WordStream ω] (count : Nat) (words : ω) : Nat × ω :=
  let (word, words) := WordStream.next words
  let first := low word
  if inDoubt count first then
    let (word, words) := WordStream.next words
    (scaled count first + (carries count first (low word)).toNat, words)
  else (scaled count first, words)

/-- Answers a choice. -/
def answer [WordStream ω] : (choice : Choice) → ω → choice.Answer × ω
  | .chance parts, words =>
    let (word, words) := WordStream.next words
    (decide (word.toNat < parts), words)
  | .upTo last, words =>
    let (number, words) := below (last + 1) words
    (Fin.ofNat (last + 1) number, words)

/-- Answers every choice of a computation. -/
def run [WordStream ω] : Random α → ω → α × ω
  | .done result, words => (result, words)
  | .ask choice next, words =>
    let (chosen, words) := answer choice words
    run (next chosen) words

end Draw

/-- Given words, delivered over and over; `used` of them have been delivered. -/
structure WordCycle where
  words : Array UInt64
  used : Nat
  deriving DecidableEq, Inhabited

instance : WordStream WordCycle where
  next cycle :=
    (cycle.words.getD (cycle.used % cycle.words.size) 0, { cycle with used := cycle.used + 1 })

/-- A counter whose values are scrambled into words. -/
structure WordMixer where
  counter : UInt64
  deriving DecidableEq, Inhabited

def WordMixer.scramble (word : UInt64) : UInt64 :=
  let word := (word ^^^ (word >>> 30)) * 0xBF58476D1CE4E5B9
  let word := (word ^^^ (word >>> 27)) * 0x94D049BB133111EB
  word ^^^ (word >>> 31)

instance : WordStream WordMixer where
  next mixer :=
    let counter := mixer.counter + 0x9E3779B97F4A7C15
    (WordMixer.scramble counter, ⟨counter⟩)

end TableDriven.Calculator
