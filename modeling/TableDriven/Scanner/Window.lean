import TableDriven.Input.Basic

/-! # The scanner's window

A buffer whose cells from `start` up to `stop` hold the units that have been read but not
consumed.  Cells outside keep what they held: a source that claims more than it wrote makes them
part of the window.
-/

namespace TableDriven

/-- A buffer and the part of it that is in use. -/
structure Window (U : Type) where
  cells : Array U
  start : Nat
  stop : Nat
  deriving Inhabited

namespace Window

variable [ScanUnit U] (window : Window U)

def size : Nat := window.cells.size

def free : Nat := window.size - window.stop

def length : Nat := window.stop - window.start

def units : List U := (window.cells.extract window.start window.stop).toList

/-- The first `count` units of the window. -/
def front (count : Nat) : List U :=
  (window.cells.extract window.start (window.start + count)).toList

/-- The unit at `offset` from the start of the window. -/
def unitAt (offset : Nat) : Run U := Run.lookup window.cells (window.start + offset)

/-- Consumes the first `count` units. -/
def drop (count : Nat) : Window U := { window with start := window.start + count }

def clear : Window U := { window with stop := window.start }

/-- Puts units into the cells from `index` on; what does not fit is lost. -/
def overwrite (cells : Array U) (index : Nat) : List U → Array U
  | [] => cells
  | unit :: rest => overwrite (cells.setIfInBounds index unit) (index + 1) rest

def write (units : List U) : Window U :=
  { window with cells := overwrite window.cells window.stop units }

/-- Takes the next `count` cells into the window. -/
def extend (count : Nat) : Window U := { window with stop := window.stop + count }

def minSize : Nat := 16

/-- Gives the buffer `size` cells if it has fewer. -/
def enlarge (size : Nat) : Window U :=
  { window with cells := window.cells ++ Array.replicate (size - window.size) ScanUnit.blank }

/-- An empty window at the front of a buffer of at least `size` cells. -/
def reset (size : Nat) : Window U :=
  { window.enlarge (max size minSize) with start := 0, stop := 0 }

def compact : Window U :=
  if window.start = 0 then window
  else
    let count := window.length
    ⟨window.cells.extract window.start window.stop ++ window.cells.extract count window.size,
      0, count⟩

/-- Whether `extra` cells are free, and at least a quarter of the buffer: asking for the quarter
keeps a long match from moving the window over and over for a few units each time. -/
def hasRoom (extra : Nat) : Bool :=
  extra ≤ window.free && window.size / 4 ≤ window.free && 0 < window.free

/-- The size that a buffer grows to for `extra` more units: by at least half. -/
def grownSize (extra : Nat) : Nat :=
  max (max (window.size + window.size / 2) (window.stop + extra)) minSize

/-- Makes `extra` cells free, first by moving the window to the front of the buffer, then by
enlarging the buffer.  Tells the old and the new size if it grew. -/
def makeRoom (extra : Nat) : Window U × Option (Nat × Nat) :=
  let window := window.compact
  if window.hasRoom extra then (window, none)
  else (window.enlarge (window.grownSize extra), some (window.size, window.grownSize extra))

end Window

end TableDriven
