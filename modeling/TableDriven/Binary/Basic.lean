import TableDriven.Fault
import TableDriven.Text.Utf8
import TableDriven.Text.Quoted

/-! # Binary values

The two directions of the binary form.  Writing a value yields an `Encoding`: the bytes it puts
out and, if the value cannot be written in full, the refusal that ends them.  Reading is a
`Decoder`: it takes bytes from the front of its input and keeps the rest, also when it fails.
A `Sink` stores encodings up to a capacity.
-/

namespace TableDriven.Binary

open TableDriven.Text

/-- A string of bytes. -/
abbrev Bytes := List UInt8

/-- Why bytes describe no value.  A `longForm` is a length that fits two bytes but takes four; an
`overrun` is a run of `count` elements from `start` on that leaves an array of `length`. -/
inductive Corruption where
  | negative (what : String) (value : Int)
  | longForm (length : Nat)
  | null (what : String)
  | nullRow (row : Nat)
  | overrun (count start length : Nat)
  | utf8 (fault : Utf8.Fault)
  | utf16
  deriving DecidableEq, Inhabited

def Corruption.message : Corruption → String
  | .negative what value => s!"negative {what}: {value}"
  | .longForm length => s!"length {length} stored in long form"
  | .null what => s!"{what} is null"
  | .nullRow row => s!"row {row} of 2-D array is null"
  | .overrun count start length =>
    s!"run of {count} at index {start} overruns array length {length}"
  | .utf8 fault => "bad UTF-8 string: " ++ fault.message
  | .utf16 => "bad UTF-16 string: invalid utf-16: lone surrogate found"

/-- Why a value could not be written or read.  A length or count may have no binary form, and a
character may not fit one byte. -/
inductive CodecFault where
  | io (cause : IoFault)
  | corrupt (cause : Corruption)
  | tooLong (length : Nat)
  | unencodable (char : Char)
  deriving DecidableEq, Inhabited

def CodecFault.message : CodecFault → String
  | .io cause => "table stream I/O failed: " ++ cause.message
  | .corrupt cause => "corrupt table data: " ++ cause.message
  | .tooLong length => s!"length {length} cannot be encoded"
  | .unencodable char => "cannot encode " ++ Quoted.ofChar char ++ " as a byte"

/-- What writing a value puts out: the bytes up to the refusal, if there is one. -/
structure Encoding where
  bytes : Bytes
  refusal : Option CodecFault := none
  deriving DecidableEq, Inhabited

namespace Encoding

def empty : Encoding := ⟨[], none⟩

def refuse (cause : CodecFault) : Encoding := ⟨[], some cause⟩

/-- One encoding behind another; a refusal ends both. -/
def andThen (first second : Encoding) : Encoding :=
  match first.refusal with
  | some _ => first
  | none => ⟨first.bytes ++ second.bytes, second.refusal⟩

instance : Append Encoding := ⟨andThen⟩

def concat (parts : List Encoding) : Encoding := parts.foldr andThen empty

@[simp] theorem concat_nil : concat [] = empty := rfl

@[simp] theorem concat_cons (first : Encoding) (rest : List Encoding) :
    concat (first :: rest) = first ++ concat rest := rfl

def toExcept (encoding : Encoding) : Except CodecFault Bytes :=
  match encoding.refusal with
  | some cause => .error cause
  | none => .ok encoding.bytes

end Encoding

/-- A place for bytes that takes no more than `capacity` of them, if that is set. -/
structure Sink where
  stored : Bytes
  capacity : Option Nat
  deriving DecidableEq, Inhabited

namespace Sink

def empty (capacity : Option Nat) : Sink := ⟨[], capacity⟩

/-- How many of `size` further bytes the sink takes. -/
def room (sink : Sink) (size : Nat) : Nat :=
  match sink.capacity with
  | none => size
  | some capacity => min size (capacity - sink.stored.length)

/-- Stores an encoding and says what went wrong.  Bytes beyond the capacity are lost, and that
failure comes before a later refusal. -/
def absorb (sink : Sink) (encoding : Encoding) : Option CodecFault × Sink :=
  let room := sink.room encoding.bytes.length
  if encoding.bytes.length ≤ room then
    (encoding.refusal, { sink with stored := sink.stored ++ encoding.bytes })
  else
    (some (.io .sinkFull), { sink with stored := sink.stored ++ encoding.bytes.take room })

end Sink

/-- Takes a value from the front of the bytes and keeps the rest. -/
abbrev Decoder := EStateM CodecFault Bytes

namespace Decoder

/-- The first `count` bytes. -/
def bytes (count : Nat) : Decoder Bytes := fun input =>
  let front := input.take count
  if front.length = count then .ok front (input.drop count) else .error (.io .endOfInput) input

/-- `count` values one behind the other, after those in `done`. -/
def repeatOnto (decoder : Decoder α) (done : Array α) : Nat → Decoder (Array α)
  | 0, input => .ok done input
  | count + 1, input =>
    match decoder input with
    | .ok value rest => repeatOnto decoder (done.push value) count rest
    | .error cause rest => .error cause rest

/-- `count` values one behind the other. -/
def replicate (count : Nat) (decoder : Decoder α) : Decoder (Array α) :=
  repeatOnto decoder #[] count

def required (what : String) (decoder : Decoder (Option α)) : Decoder α := do
  match ← decoder with
  | some value => pure value
  | none => throw (.corrupt (.null what))

end Decoder

end TableDriven.Binary
