/-! # Causes of failure

A failure is recorded by its cause.  `IoFault` says why an input or an output gave up and
`StreamFault` why a token stream did; each has one `message`.  `Breakdown` is kept apart from
both: it marks a computation that has no answer at all, because its fuel ran out or because it
looked outside a table or a buffer.  A checked table never breaks down by `index`.
-/

namespace TableDriven

/-- Why an input or an output gave up.  A source that `refused` asked for `wanted` units and then
did not take `offered`, which were enough; what is `told` is described by its own text only. -/
inductive IoFault where
  | endOfInput
  | sinkFull
  | invalidText
  | missing
  | alreadyThere
  | notDirectory
  | isDirectory
  | nameTooLong
  | refused (wanted offered : Nat)
  | told (text : String)
  deriving DecidableEq, Inhabited

def IoFault.message : IoFault → String
  | .endOfInput => "failed to fill whole buffer"
  | .sinkFull => "failed to write whole buffer"
  | .invalidText => "stream did not contain valid UTF-8"
  | .missing => "No such file or directory (os error 2)"
  | .alreadyThere => "File exists (os error 17)"
  | .notDirectory => "Not a directory (os error 20)"
  | .isDirectory => "Is a directory (os error 21)"
  | .nameTooLong => "File name too long (os error 36)"
  | .refused wanted offered => s!"source wants {wanted} units but refused {offered}"
  | .told text => text

/-- Why a token stream could not deliver its next token: the input behind it failed, or the stream
refuses its own input. -/
inductive StreamFault where
  | io (cause : IoFault)
  | rejected (text : String)
  deriving DecidableEq, Inhabited

def StreamFault.message : StreamFault → String
  | .io cause => "I/O error while reading tokens: " ++ cause.message
  | .rejected text => "syntax exception: " ++ text

/-- Why a computation has no answer: its fuel ran out, or it looked outside a table or a buffer. -/
inductive Breakdown where
  | fuel
  | index
  deriving DecidableEq, Inhabited

/-- A computation that may break down. -/
abbrev Run := Except Breakdown

section
variable {ε : Type u} {α β : Type v}

@[simp] theorem pure_eq_ok (result : α) : (pure result : Except ε α) = .ok result := rfl

@[simp] theorem ok_bind (result : α) (next : α → Except ε β) :
    (Except.ok result >>= next) = next result := rfl

@[simp] theorem error_bind (why : ε) (next : α → Except ε β) :
    (Except.error why >>= next) = .error why := rfl

theorem bind_eq_ok_iff {first : Except ε α} {next : α → Except ε β} {result : β} :
    (first >>= next) = .ok result ↔ ∃ middle, first = .ok middle ∧ next middle = .ok result := by
  cases first <;> simp

end

/-- The element at `index`, which must be there. -/
def Run.lookup (items : Array α) (index : Nat) : Run α :=
  match items[index]? with
  | some item => .ok item
  | none => .error .index

@[simp] theorem Run.lookup_of_lt {items : Array α} {index : Nat} (inside : index < items.size) :
    Run.lookup items index = .ok items[index] := by
  simp [Run.lookup, inside]

end TableDriven
