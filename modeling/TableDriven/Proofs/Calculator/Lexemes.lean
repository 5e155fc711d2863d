import TableDriven.Calculator.Evaluate
import TableDriven.Proofs.Scanner.Position

/-! # What the bytes of a sum say

The integers and plus signs of an input, and the value of those that repairs have left, without any
table.  `lexemes` reads an input as the longest runs of digits and the single plus signs, with
anything between them; `IsSum` says that these make a sum, and `worth` what those that are left are
worth once some repairs were made.
-/

namespace TableDriven

namespace Calculator

/-- The position behind some bytes. -/
def behind (position : Position) (units : List UInt8) : Position :=
  units.foldl (Position.after Scanner.defaultTabWidth) position

theorem behind_append (position : Position) (first second : List UInt8) :
    behind position (first ++ second) = behind (behind position first) second :=
  List.foldl_append

/-- Behind some units of an input whose positions fit into words, a position is later, and those of
the rest fit. -/
theorem behind_roomy {position : Position} {unit : UInt8} (front : List UInt8) {rest : List UInt8}
    (roomy : position.place.Roomy 8 (unit :: front ++ rest).length) :
    position.place.key < (behind position (unit :: front)).place.key ∧
      (behind position (unit :: front)).place.Roomy 8 rest.length := by
  rw [List.length_append] at roomy
  have first := roomy.mono (Nat.le_add_right _ _)
  have same : (behind position (unit :: front)).place =
      (unit :: front).foldl (Place.after 8) position.place :=
    Position.place_foldl (by decide) first.begins fun _ ahead => first.fits (by decide) ahead
  rw [same]
  exact ⟨Place.key_lt_foldl (by decide) unit front, roomy.foldl (by decide)⟩

def isDigit (unit : UInt8) : Bool := 0x30 ≤ unit && unit ≤ 0x39

/-- The number that some digits spell. -/
def decimal (digits : List UInt8) : Nat :=
  digits.foldl (fun number digit => number * 10 + (digit.toNat - 0x30)) 0

/-- A number or a plus sign, and where it begins. -/
inductive Lexeme where
  | integer (number : Nat) (position : Position)
  | plus (position : Position)
  deriving DecidableEq

namespace Lexeme

def position : Lexeme → Position
  | integer _ position | plus position => position

def number? : Lexeme → Option Nat
  | integer number _ => some number
  | plus _ => none

def symbol : Lexeme → Nat
  | integer .. => Calculator.integer
  | plus _ => Calculator.plus

/-- The value of a number, modulo `2 ^ 64`. -/
def value (lexeme : Lexeme) : Option Int64 := lexeme.number?.map Int64.ofNat

def token (file : Option String) (lexeme : Lexeme) : Token Int64 :=
  ⟨lexeme.symbol, lexeme.value, file, lexeme.position⟩

end Lexeme

/-- The runs of digits, each as long as it can be, and the plus signs. -/
def lexemes (position : Position) : List UInt8 → List Lexeme
  | [] => []
  | unit :: rest =>
    if isDigit unit then
      let digits := unit :: rest.takeWhile isDigit
      .integer (decimal digits) position ::
        lexemes (behind position digits) (rest.dropWhile isDigit)
    else if unit = 0x2B then .plus position :: lexemes (behind position [unit]) rest
    else lexemes (behind position [unit]) rest
termination_by units => units.length
decreasing_by
  · exact Nat.lt_succ_of_le (List.dropWhile_suffix isDigit).length_le
  all_goals exact Nat.lt_succ_self _

/-- Where some lexemes stand, and the end behind them. -/
def marks (spells : List Lexeme) (finish : Position) : List Position :=
  spells.map Lexeme.position ++ [finish]

/-- Some positions, no two of them the same, stand no earlier than one. -/
structure Onwards (position : Position) (marks : List Position) : Prop where
  later : ∀ mark ∈ marks, position.place.key ≤ mark.place.key
  distinct : marks.Nodup

section
variable {position next : Position} {marks : List Position}

theorem Onwards.since (onwards : Onwards next marks)
    (before : position.place.key < next.place.key) : Onwards position marks where
  later mark member := before.le.trans (onwards.later mark member)
  distinct := onwards.distinct

theorem Onwards.cons (onwards : Onwards next marks)
    (before : position.place.key < next.place.key) : Onwards position (position :: marks) where
  later := List.forall_mem_cons.mpr ⟨le_refl _, (onwards.since before).later⟩
  distinct := List.nodup_cons.mpr
    ⟨fun member => absurd before (not_lt.mpr (onwards.later _ member)), onwards.distinct⟩

end

/-- As long as positions fit into words, no two lexemes stand at one position, and none at the
end. -/
theorem onwards_marks {position : Position} {units : List UInt8}
    (roomy : position.place.Roomy 8 units.length) :
    Onwards position (marks (lexemes position units) (behind position units)) := by
  unfold marks
  fun_induction lexemes position units with
  | case1 position => exact ⟨by simp [behind], by simp⟩
  | case2 position unit rest digit digits ih =>
    have split : unit :: rest = digits ++ rest.dropWhile isDigit := by
      rw [List.cons_append, List.takeWhile_append_dropWhile]
    rw [split] at roomy
    obtain ⟨before, still⟩ := behind_roomy _ roomy
    rw [split, behind_append]
    exact (ih still).cons before
  | case3 position rest other ih =>
    obtain ⟨before, still⟩ := behind_roomy [] roomy
    exact (ih still).cons before
  | case4 position unit rest other noPlus ih =>
    obtain ⟨before, still⟩ := behind_roomy [] roomy
    exact (ih still).since before

theorem toInt64_digit (digit : UInt8) (holds : isDigit digit = true) :
    (digit - 0x30).toUInt64.toInt64 = Int64.ofNat (digit.toNat - 0x30) := by
  obtain ⟨⟨number⟩⟩ := digit
  revert number
  decide +kernel

/-- The value that the scanner makes of digits is the number that they spell, modulo `2 ^ 64`. -/
theorem numeral_eq {digits : List UInt8} (all : ∀ digit ∈ digits, isDigit digit = true) :
    numeral digits = Int64.ofNat (decimal digits) := by
  have step (number : Nat) : digits.foldl
      (fun value digit => value * 10 + (digit - 0x30).toUInt64.toInt64) (Int64.ofNat number) =
        Int64.ofNat (digits.foldl (fun number digit => number * 10 + (digit.toNat - 0x30))
          number) := by
    induction digits generalizing number with
    | nil => rfl
    | cons digit digits ih =>
      have next : Int64.ofNat number * 10 + (digit - 0x30).toUInt64.toInt64 =
          Int64.ofNat (number * 10 + (digit.toNat - 0x30)) := by
        rw [Int64.ofNat_add, Int64.ofNat_mul, toInt64_digit digit (all digit (.head _))]
        rfl
      rw [List.foldl_cons, List.foldl_cons, next]
      exact ih (fun other member => all other (.tail _ member)) _
  exact step 0

/-- An integer, and any number of further ones behind plus signs. -/
inductive IsSum : List Lexeme → Prop where
  | last (number : Nat) (position : Position) : IsSum [.integer number position]
  | more (number : Nat) (position sign : Position) {rest : List Lexeme} (sum : IsSum rest) :
      IsSum (.integer number position :: .plus sign :: rest)

/-- The sum of all integers. -/
def total (lexemes : List Lexeme) : Nat :=
  (lexemes.filterMap Lexeme.number?).foldr (· + ·) 0

open TableDriven.Parser (Report)

/-- The lexemes that were not reported deleted, by their positions.  A repair deletes some in a row,
from the one on at which it is reported. -/
def spared (lexemes : List Lexeme) : List (Token Int64 × Report) → List Lexeme
  | [] => lexemes
  | (token, report) :: told =>
    lexemes.takeWhile (·.position ≠ token.position) ++
      spared ((lexemes.dropWhile (·.position ≠ token.position)).drop report.deleted.length) told

/-- Whether a repair inserted an integer. -/
def insertsInteger (told : List (Token Int64 × Report)) : Bool :=
  told.any fun repair => repair.2.inserted.contains integer

/-- What the lexemes that are left are worth behind some repairs: nothing if one inserted an
integer, and otherwise the sum of the integers, modulo `2 ^ 64`. -/
def worth (left : List Lexeme) (told : List (Token Int64 × Report)) : Option Int64 :=
  if insertsInteger told then none else some (Int64.ofNat (total left))

end Calculator

end TableDriven
