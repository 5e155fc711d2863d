import TableDriven.Binary.Basic

/-! # Why a table is refused

A table is read from bytes, which may fail, and then checked.  A check is a list of requirements
in a fixed order; its answer is the first defect.  Each kind of table has its own defects.
-/

namespace TableDriven

open TableDriven.Binary

/-- Why a table could not be read or written, or does not hold together. -/
inductive TableFault (δ : Type) where
  | codec (cause : CodecFault)
  | signature (expected found : Bytes)
  | inconsistent (defect : δ)
  | json
  deriving DecidableEq, Inhabited

namespace TableFault

/-- The text of a table failure; `describe` gives that of a defect. -/
def message (describe : δ → String) : TableFault δ → String
  | .codec cause => cause.message
  | .signature expected found =>
    let number := fun byte : UInt8 => toString byte.toNat
    let shown := fun bytes : Bytes => Text.Quoted.bracketed (bytes.map number)
    "bad table signature: expected " ++ shown expected ++ ", found " ++ shown found
  | .inconsistent defect => "inconsistent table: " ++ describe defect
  | .json => "failed to parse table JSON"

end TableFault

/-- A requirement: the defect unless it holds. -/
def ensure (holds : Prop) [Decidable holds] (defect : δ) : Except δ Unit :=
  if holds then .ok () else .error defect

@[simp] theorem ensure_eq_ok_iff {holds : Prop} [Decidable holds] {defect : δ} :
    ensure holds defect = .ok () ↔ holds := by
  by_cases condition : holds <;> simp [ensure, condition]

/-- A requirement on every item, in order, the first of them numbered `index`. -/
def ensureEach (index : Nat) (check : Nat → α → Except δ Unit) : List α → Except δ Unit
  | [] => .ok ()
  | item :: rest =>
    match check index item with
    | .ok () => ensureEach (index + 1) check rest
    | .error defect => .error defect

def ensureAll (items : Array α) (check : Nat → α → Except δ Unit) : Except δ Unit :=
  ensureEach 0 check items.toList

/-- Takes a table from the front of the bytes. -/
abbrev TableDecoder (δ : Type) := EStateM (TableFault δ) Bytes

namespace TableDecoder

def part (decoder : Decoder α) : TableDecoder δ α := EStateM.adaptExcept .codec decoder

def required (what : String) (decoder : Decoder (Option α)) : TableDecoder δ α :=
  part (decoder.required what)

def signature (expected : Bytes) : TableDecoder δ Unit := do
  let found ← part (Decoder.bytes expected.length)
  if found ≠ expected then throw (.signature expected found)

def require (requirement : Except δ Unit) : TableDecoder δ Unit :=
  match requirement with
  | .ok () => pure ()
  | .error defect => throw (.inconsistent defect)

/-- The table at the front of `bytes`; what stands behind it does not matter. -/
def load (decoder : TableDecoder δ α) (bytes : Bytes) : Except (TableFault δ) α :=
  match decoder bytes with
  | .ok table _ => .ok table
  | .error fault _ => .error fault

end TableDecoder

end TableDriven
