import TableDriven.Scanner.Window

/-! # What a window holds

The operations of a window in terms of `Window.units`, the units that have been read but not
consumed: consuming drops some at the front, filling appends some, and making room moves the cells
about but changes no unit.  All of it for a window that lies within its buffer (`Window.Sound`).
-/

namespace TableDriven.Window

variable {window : Window U}

/-- The part in use lies within the buffer. -/
structure Sound (window : Window U) : Prop where
  ordered : window.start ≤ window.stop
  within : window.stop ≤ window.size

theorem units_eq (window : Window U) :
    window.units = (window.cells.toList.drop window.start).take window.length := by
  simp [units, length, List.extract_eq_take_drop]

theorem Sound.length_units (sound : window.Sound) : window.units.length = window.length := by
  have within := sound.within
  simp only [size] at within
  simp only [units_eq, length, List.length_take, List.length_drop, Array.length_toList]
  omega

theorem Sound.length_eq {other : Window U} (sound : window.Sound) (holds : other.Sound)
    (same : other.units = window.units) : other.length = window.length := by
  rw [← holds.length_units, same, sound.length_units]

theorem front_eq {count : Nat} (within : count ≤ window.length) :
    window.front count = window.units.take count := by
  simp [front, units_eq, List.extract_eq_take_drop, List.take_take, Nat.min_eq_left within]

theorem unitAt_eq {offset : Nat} {unit : U} (found : window.units[offset]? = some unit) :
    window.unitAt offset = .ok unit := by
  rw [units_eq, List.getElem?_take] at found
  split at found
  next => simp_all [unitAt, Run.lookup]
  next => cases found

theorem Sound.drop {count : Nat} (sound : window.Sound) (within : count ≤ window.length) :
    (window.drop count).Sound := by
  have := sound.ordered
  simp only [length] at within
  exact ⟨by simp only [Window.drop]; omega, sound.within⟩

theorem units_drop (count : Nat) : (window.drop count).units = window.units.drop count := by
  simp only [units_eq, drop, length, List.drop_take, List.drop_drop]
  congr 1
  omega

@[simp] theorem size_overwrite (cells : Array U) (index : Nat) (units : List U) :
    (overwrite cells index units).size = cells.size := by
  induction units generalizing cells index with
  | nil => rfl
  | cons unit rest ih => simp [overwrite, ih]

theorem getElem?_overwrite {cells : Array U} {index place : Nat} {units : List U}
    (inside : place < cells.size) :
    (overwrite cells index units)[place]? =
      if index ≤ place ∧ place < index + units.length then units[place - index]?
      else cells[place]? := by
  induction units generalizing cells index with
  | nil =>
    have outside : ¬ (index ≤ place ∧ place < index + ([] : List U).length) := by
      rw [List.length_nil]
      omega
    rw [if_neg outside, overwrite]
  | cons unit rest ih =>
    rw [overwrite, ih (by simpa using inside)]
    simp only [Array.getElem?_setIfInBounds, List.length_cons]
    by_cases here : place = index
    · subst here
      have past : ¬ (place + 1 ≤ place ∧ place < place + 1 + rest.length) :=
        fun both => Nat.not_succ_le_self place both.1
      rw [if_neg past]
      simp [inside]
    · by_cases behind : index + 1 ≤ place ∧ place < index + 1 + rest.length
      · have next : place - index = place - (index + 1) + 1 := by omega
        rw [if_pos behind, if_pos (by omega), next, List.getElem?_cons_succ]
      · rw [if_neg behind, if_neg (by omega), if_neg (by omega)]

theorem Sound.write (sound : window.Sound) (units : List U) : (window.write units).Sound :=
  ⟨sound.ordered, by simpa [size, Window.write] using sound.within⟩

theorem units_write (sound : window.Sound) (units : List U) :
    (window.write units).units = window.units := by
  have within := sound.within
  simp only [size] at within
  apply List.ext_getElem?
  intro place
  simp only [units_eq, write, length, List.getElem?_take, List.getElem?_drop,
    Array.getElem?_toList]
  by_cases inside : place < window.stop - window.start
  · rw [if_pos inside, if_pos inside, getElem?_overwrite (by omega), if_neg (by omega)]
  · rw [if_neg inside, if_neg inside]

theorem Sound.extend {count : Nat} (sound : window.Sound) (fits : count ≤ window.free) :
    (window.extend count).Sound := by
  have := sound.ordered
  have := sound.within
  simp only [free] at fits
  exact ⟨by simp only [Window.extend]; omega, by simp only [size, Window.extend] at *; omega⟩

/-- Filling appends what was written. -/
theorem units_extend_write {units : List U} {count : Nat} (sound : window.Sound)
    (fits : count ≤ window.free) (enough : count ≤ units.length) :
    ((window.write units).extend count).units = window.units ++ units.take count := by
  have ordered := sound.ordered
  have within := sound.within
  have size_units := sound.length_units
  simp only [free, size, length] at fits within size_units
  apply List.ext_getElem?
  intro place
  rw [List.getElem?_append, size_units]
  simp only [units_eq, write, extend, length, List.getElem?_take, List.getElem?_drop,
    Array.getElem?_toList]
  by_cases old : place < window.stop - window.start
  · rw [if_pos old, if_pos old, if_pos (by omega), getElem?_overwrite (by omega),
      if_neg (by omega)]
  · rw [if_neg old]
    by_cases new : place - (window.stop - window.start) < count
    · rw [if_pos new, if_pos (by omega), getElem?_overwrite (by omega), if_pos (by omega)]
      congr 1
      omega
    · rw [if_neg new, if_neg (by omega)]

@[simp] theorem free_write (units : List U) : (window.write units).free = window.free := by
  simp [free, size, write]

theorem Sound.compact (sound : window.Sound) : window.compact.Sound := by
  unfold Window.compact
  split
  next => exact sound
  next =>
    have := sound.ordered
    have := sound.within
    refine ⟨Nat.zero_le _, ?_⟩
    simp only [size, length, Array.size_append, Array.size_extract] at *
    omega

theorem units_compact (sound : window.Sound) : window.compact.units = window.units := by
  unfold compact
  split
  next => rfl
  next =>
    have size_units := sound.length_units
    simp only [units_eq, length] at size_units ⊢
    simp [List.extract_eq_take_drop, size_units]

theorem length_compact (window : Window U) : window.compact.length = window.length := by
  simp only [compact]
  split
  next => rfl
  next => exact Nat.sub_zero _

section
variable [ScanUnit U]

theorem Sound.enlarge (sound : window.Sound) (size : Nat) : (window.enlarge size).Sound := by
  have := sound.within
  exact ⟨sound.ordered, by simp only [Window.size, Window.enlarge, Array.size_append] at *; omega⟩

theorem units_enlarge (sound : window.Sound) (size : Nat) :
    (window.enlarge size).units = window.units := by
  have ordered := sound.ordered
  have within := sound.within
  simp only [Window.size] at within
  simp only [units_eq, enlarge, length, Array.toList_append]
  rw [List.drop_append_of_le_length (by simpa using Nat.le_trans ordered within),
    List.take_append_of_le_length (by simp; omega)]

/-- A window reset holds nothing. -/
theorem sound_reset (window : Window U) (size : Nat) : (window.reset size).Sound :=
  ⟨Nat.le_refl _, Nat.zero_le _⟩

@[simp] theorem units_reset (window : Window U) (size : Nat) : (window.reset size).units = [] := by
  simp [units_eq, reset, length]

variable {extra : Nat}

theorem Sound.makeRoom (sound : window.Sound) : (window.makeRoom extra).1.Sound := by
  simp only [Window.makeRoom]
  split
  next => exact sound.compact
  next => exact sound.compact.enlarge _

theorem units_makeRoom (sound : window.Sound) :
    (window.makeRoom extra).1.units = window.units := by
  simp only [makeRoom]
  split
  next => exact units_compact sound
  next => rw [units_enlarge sound.compact, units_compact sound]

theorem length_makeRoom (window : Window U) (extra : Nat) :
    (window.makeRoom extra).1.length = window.length := by
  simp only [makeRoom]
  split <;> exact length_compact window

/-- Room is made for what is asked for, and for one unit at least. -/
theorem free_makeRoom (sound : window.Sound) :
    extra ≤ (window.makeRoom extra).1.free ∧ 0 < (window.makeRoom extra).1.free := by
  have within := sound.compact.within
  simp only [makeRoom]
  split
  next roomy =>
    simp only [hasRoom, Bool.and_eq_true, decide_eq_true_eq] at roomy
    exact ⟨roomy.1.1, roomy.2⟩
  next =>
    simp only [free, size, enlarge, grownSize, minSize, Array.size_append,
      Array.size_replicate] at *
    omega

end

end TableDriven.Window
