import TableDriven.Input.Basic

/-! # Scripted input

A source that does what a script says, including what no honest source does: to claim more units
than it wrote, to refuse any buffer, or to go on after the end of input.
-/

namespace TableDriven

/-- One step of a script.  A `line` is delivered at once, and a buffer that does not hold it is
refused; a `claim` writes what fits and claims to have written `count`; a `read` delivers what fits
and the rest at the next calls. -/
inductive ScriptStep (U : Type) where
  | small (wanted : Nat)
  | failure (cause : IoFault)
  | line (units : List U)
  | claim (count : Nat) (units : List U)
  | read (units : List U)
  | eof
  deriving Inhabited

/-- A script and the units of an earlier step that are still to be delivered. -/
structure Script (U : Type) where
  pending : List U
  steps : List (ScriptStep U)
  deriving Inhabited

namespace Script

def ofSteps (steps : List (ScriptStep U)) : Script U := ⟨[], steps⟩

/-- Delivers as many units as fit; the others stay pending. -/
def deliver (units : List U) (room : Nat) (steps : List (ScriptStep U)) :
    Delivery (Script U) U ε :=
  .exactly (units.take room) ⟨units.drop room, steps⟩

/-- Takes the next step, unless units are pending.  Behind its last step a script tells the end
of input. -/
def fill (script : Script U) (room : Nat) : Delivery (Script U) U ε :=
  match script.pending, script.steps with
  | _ :: _, steps => deliver script.pending room steps
  | [], [] => .silent (.ok .eof) script
  | [], .small wanted :: steps => .silent (.ok (.tooSmall wanted)) ⟨[], steps⟩
  | [], .failure cause :: steps => .silent (.error cause) ⟨[], steps⟩
  | [], .line units :: steps =>
    if room < units.length then .silent (.ok (.tooSmall units.length)) script
    else .exactly units ⟨[], steps⟩
  | [], .claim count units :: steps => ⟨.ok (.read count), units.take room, ⟨[], steps⟩, []⟩
  | [], .read units :: steps => deliver units room steps
  | [], .eof :: steps => .silent (.ok .eof) ⟨[], steps⟩

instance : UnitSource (Script U) U ε where
  fill _ script room := .ok (script.fill room)
  close script := (script, [])

end Script

end TableDriven
