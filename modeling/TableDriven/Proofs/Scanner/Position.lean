import Mathlib.Data.Prod.Lex
import TableDriven.Scanner.Basic

/-! # Positions and places

A place has a line and a column without bounds, by the rule that positions follow in words, which
wrap.  As long as the places on the way fit into words, positions are places
(`Position.place_foldl`), and these only go forward (`Place.key_lt_foldl`).
-/

namespace TableDriven

structure Place where
  line : Nat
  column : Nat
  deriving DecidableEq

namespace Place

def origin : Place := ⟨1, 1⟩

/-- The place behind a unit.  A tab goes to the next multiple of `tab` columns. -/
def after [ScanUnit U] (tab : Nat) (place : Place) (unit : U) : Place :=
  if ScanUnit.isLineBreak unit then ⟨place.line + 1, 1⟩
  else if ScanUnit.isTab unit then ⟨place.line, ((place.column - 1) / tab + 1) * tab + 1⟩
  else ⟨place.line, place.column + 1⟩

def Fits (place : Place) : Prop := place.line < UInt32.size ∧ place.column < UInt32.size

/-- The place in the order of the text. -/
def key (place : Place) : ℕ ×ₗ ℕ := toLex (place.line, place.column)

/-- Some more units lead to places that fit. -/
structure Roomy (tab count : Nat) (place : Place) : Prop where
  begins : 1 ≤ place.column
  line : place.line + count < UInt32.size
  column : place.column + tab * count < UInt32.size

variable [ScanUnit U] {tab : Nat} {place : Place}

theorem one_le_column_after (unit : U) : 1 ≤ (place.after tab unit).column := by
  unfold after
  split
  next => exact Nat.le_refl 1
  next => split <;> exact Nat.le_add_left 1 _

section
variable (wide : 0 < tab)
include wide

theorem key_lt_after (unit : U) : place.key < (place.after tab unit).key := by
  unfold after
  split
  next => exact Prod.Lex.toLex_lt_toLex.mpr (.inl (Nat.lt_succ_self _))
  next =>
    have below := Nat.lt_mul_div_succ (place.column - 1) wide
    rw [Nat.mul_comm] at below
    split
    next => exact Prod.Lex.toLex_lt_toLex.mpr (.inr ⟨rfl, by dsimp only; omega⟩)
    next => exact Prod.Lex.toLex_lt_toLex.mpr (.inr ⟨rfl, Nat.lt_succ_self _⟩)

theorem key_le_foldl (units : List U) : place.key ≤ (units.foldl (after tab) place).key := by
  induction units generalizing place with
  | nil => exact le_refl _
  | cons unit units ih => exact (key_lt_after wide unit).le.trans ih

theorem key_lt_foldl (unit : U) (units : List U) :
    place.key < ((unit :: units).foldl (after tab) place).key :=
  (key_lt_after wide unit).trans_le (key_le_foldl wide units)

omit [ScanUnit U] wide in
theorem Roomy.mono {more count : Nat} (roomy : place.Roomy tab more) (fewer : count ≤ more) :
    place.Roomy tab count where
  begins := roomy.begins
  line := Nat.lt_of_le_of_lt (Nat.add_le_add_left fewer _) roomy.line
  column := Nat.lt_of_le_of_lt (Nat.add_le_add_left (Nat.mul_le_mul_left _ fewer) _) roomy.column

theorem Roomy.after {count : Nat} (roomy : place.Roomy tab (count + 1)) (unit : U) :
    (place.after tab unit).Roomy tab count := by
  obtain ⟨begins, line, column⟩ := roomy
  rw [Nat.mul_succ] at column
  refine ⟨one_le_column_after unit, ?_, ?_⟩
  all_goals
    unfold Place.after
    split
    next => dsimp only; omega
  · split <;> dsimp only <;> omega
  · have before : (place.column - 1) / tab * tab ≤ place.column - 1 := Nat.div_mul_le_self _ _
    split
    next => rw [Nat.succ_mul]; dsimp only; omega
    next => dsimp only; omega

theorem Roomy.foldl {units : List U} {more : Nat}
    (roomy : place.Roomy tab (units.length + more)) :
    (units.foldl (Place.after tab) place).Roomy tab more := by
  induction units generalizing place with
  | nil => rwa [List.length_nil, Nat.zero_add] at roomy
  | cons unit units ih =>
    rw [List.length_cons, Nat.succ_add] at roomy
    exact ih (roomy.after wide unit)

theorem Roomy.fits {units front : List U} (roomy : place.Roomy tab units.length)
    (ahead : front <+: units) : (front.foldl (Place.after tab) place).Fits := by
  obtain ⟨rest, rfl⟩ := ahead
  rw [List.length_append] at roomy
  have still := roomy.foldl wide
  exact ⟨Nat.lt_of_le_of_lt (Nat.le_add_right _ _) still.line,
    Nat.lt_of_le_of_lt (Nat.le_add_right _ _) still.column⟩

end

end Place

namespace Position

def place (position : Position) : Place := ⟨position.line.toNat, position.column.toNat⟩

theorem toNat_add_of_lt {first second : UInt32}
    (fits : first.toNat + second.toNat < UInt32.size) :
    (first + second).toNat = first.toNat + second.toNat := by
  rw [UInt32.toNat_add]
  exact Nat.mod_eq_of_lt fits

theorem toNat_mul_of_lt {first second : UInt32}
    (fits : first.toNat * second.toNat < UInt32.size) :
    (first * second).toNat = first.toNat * second.toNat := by
  rw [UInt32.toNat_mul]
  exact Nat.mod_eq_of_lt fits

/-- Where the next tab stop fits into a word, so does all that it is computed from. -/
theorem toNat_tabStop {tab column : UInt32} (wide : 0 < tab.toNat) (begins : 1 ≤ column.toNat)
    (fits : ((column.toNat - 1) / tab.toNat + 1) * tab.toNat + 1 < UInt32.size) :
    (((column - 1) / tab + 1) * tab + 1).toNat =
      ((column.toNat - 1) / tab.toNat + 1) * tab.toNat + 1 := by
  have stops : (column.toNat - 1) / tab.toNat + 1 ≤
      ((column.toNat - 1) / tab.toNat + 1) * tab.toNat := Nat.le_mul_of_pos_right _ wide
  have before : (column - 1).toNat = column.toNat - 1 :=
    UInt32.toNat_sub_of_le column 1 begins
  have count : ((column - 1) / tab + 1).toNat = (column.toNat - 1) / tab.toNat + 1 := by
    rw [toNat_add_of_lt, UInt32.toNat_div, before]
    · rfl
    · rw [UInt32.toNat_div, before]
      exact Nat.lt_of_le_of_lt (Nat.le_succ_of_le stops) fits
  have stop : (((column - 1) / tab + 1) * tab).toNat =
      ((column.toNat - 1) / tab.toNat + 1) * tab.toNat := by
    rw [toNat_mul_of_lt, count]
    rw [count]
    exact Nat.lt_of_succ_lt fits
  rw [toNat_add_of_lt, stop]
  · rfl
  · rw [stop]
    exact fits

variable [ScanUnit U] {tab : UInt32} {position : Position}

theorem place_after {unit : U} (wide : 0 < tab.toNat) (begins : 1 ≤ position.place.column)
    (fits : (position.place.after tab.toNat unit).Fits) :
    (position.after tab unit).place = position.place.after tab.toNat unit := by
  unfold after Place.after at *
  split at fits
  next feeds =>
    rw [if_pos feeds, if_pos feeds]
    exact congrArg (Place.mk · 1) (toNat_add_of_lt fits.1)
  next stays =>
    rw [if_neg stays, if_neg stays]
    split at fits
    next tabs =>
      rw [if_pos tabs, if_pos tabs]
      exact congrArg (Place.mk _) (toNat_tabStop wide begins fits.2)
    next plain =>
      rw [if_neg plain, if_neg plain]
      exact congrArg (Place.mk _) (toNat_add_of_lt fits.2)

/-- As long as all places on the way fit into words, positions are these places. -/
theorem place_foldl {units : List U} (wide : 0 < tab.toNat) (begins : 1 ≤ position.place.column)
    (fits : ∀ front, front <+: units →
      (front.foldl (Place.after tab.toNat) position.place).Fits) :
    (units.foldl (Position.after tab) position).place =
      units.foldl (Place.after tab.toNat) position.place := by
  induction units generalizing position with
  | nil => rfl
  | cons unit units ih =>
    have next := place_after wide begins (fits [unit] ⟨units, rfl⟩)
    rw [List.foldl_cons, List.foldl_cons, ← next]
    refine ih (next ▸ Place.one_le_column_after unit) fun front ahead => ?_
    rw [next]
    exact fits (unit :: front) (List.cons_prefix_cons.mpr ⟨rfl, ahead⟩)

/-- The widest tab stop does not fit: the column wraps. -/
example : Position.origin.after 0xFFFFFFFF (0x09 : UInt8) = ⟨1, 0⟩ ∧
    Place.origin.after 0xFFFFFFFF (0x09 : UInt8) = ⟨1, 0x100000000⟩ := by
  decide

end Position

end TableDriven
