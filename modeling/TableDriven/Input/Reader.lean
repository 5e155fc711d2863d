import TableDriven.Fault

/-! # Byte readers

A reader hands out bytes as they come.  A call may be interrupted, which means nothing and is
simply tried again, or it may fail.  `Memory` is a reader over given bytes that hands out a
bounded number of them at a time, is interrupted at regular intervals, and may end in a failure.
-/

namespace TableDriven

/-- What a call of a reader yields.  No bytes at all to a call that wanted some mean the end of
input; a call that was interrupted has to be repeated. -/
inductive ReadAnswer where
  | data (bytes : List UInt8)
  | interrupted
  | failed (cause : IoFault)
  deriving DecidableEq, Inhabited

/-- A state that hands out bytes, at most as many as there is room for. -/
class Reader (ρ : Type) where
  read : ρ → Nat → ReadAnswer × ρ

namespace Reader

def insist [Reader ρ] : Nat → ρ → Nat → Run (ReadAnswer × ρ)
  | 0, _, _ => .error .fuel
  | fuel + 1, reader, room =>
    match read reader room with
    | (.interrupted, reader) => insist fuel reader room
    | answered => .ok answered

end Reader

/-- Given bytes and the manner of handing them out: the largest number in one call, after how many
calls one is interrupted, and what every call behind the last byte fails with instead of telling the
end of input. -/
structure Memory where
  bytes : List UInt8
  chunk : Option Nat := none
  interrupt : Option Nat := none
  failure : Option IoFault := none
  calls : Nat := 0
  deriving DecidableEq, Inhabited

namespace Memory

/-- Whether the `call`-th call is interrupted. -/
def isInterrupted (memory : Memory) (call : Nat) : Bool :=
  match memory.interrupt with
  | some period => 0 < period && call % period == 0
  | none => false

/-- Hands out at most `room` bytes. -/
def read (memory : Memory) (room : Nat) : ReadAnswer × Memory :=
  let call := memory.calls + 1
  let memory := { memory with calls := call }
  if memory.isInterrupted call then (.interrupted, memory)
  else
    match memory.bytes, memory.failure with
    | [], some cause => (.failed cause, memory)
    | bytes, _ =>
      let count := min room (memory.chunk.getD room)
      (.data (bytes.take count), { memory with bytes := bytes.drop count })

instance : Reader Memory := ⟨read⟩

end Memory

end TableDriven
