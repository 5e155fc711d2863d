import TableDriven.Proofs.Input.Hands

/-! # What a reader offers

`Reader.Offers reader input` says that `reader` fails at most by interruptions and has `input` left:
every call yields some of the next bytes or is interrupted, and none only where they end.  Nothing
is said about how often it is interrupted, so the input may be infinite and a call need not end;
readers of which every call does are those that `Responds`.
-/

namespace TableDriven.Reader

variable {ρ : Type} [Reader ρ]

/-- What a reader that has `input` left may yield to a call for `room` bytes. -/
inductive Yields (offers : ρ → Content UInt8 → Prop) (input : Content UInt8) (room : Nat) :
    ReadAnswer × ρ → Prop where
  | data {chunk : List UInt8} {rest : ρ} (fits : chunk.length ≤ room)
      (begins : input.take chunk.length = chunk) (ends : chunk = [] → input.get? 0 = none)
      (goesOn : offers rest (input.drop chunk.length)) :
      Yields offers input room (.data chunk, rest)
  | interrupted {rest : ρ} (goesOn : offers rest input) :
      Yields offers input room (.interrupted, rest)

/-- A relation between readers and inputs that every call keeps. -/
structure IsOffering (offers : ρ → Content UInt8 → Prop) : Prop where
  read_yields : ∀ {reader : ρ} {input : Content UInt8} {room : Nat}, offers reader input →
    0 < room → Yields offers input room (read reader room)

/-- The reader has `input` left, and fails at most by interruptions. -/
def Offers (reader : ρ) (input : Content UInt8) : Prop :=
  ∃ offers : ρ → Content UInt8 → Prop, IsOffering offers ∧ offers reader input

/-- However often a reader is interrupted, what it yields in the end is next. -/
theorem Offers.insist {reader : ρ} {input : Content UInt8} {fuel room : Nat}
    {answered : ReadAnswer × ρ} (offers : Offers reader input) (free : 0 < room)
    (insisted : Reader.insist fuel reader room = .ok answered) :
    ∃ chunk rest, answered = (.data chunk, rest) ∧ chunk.length ≤ room ∧
      input.take chunk.length = chunk ∧ (chunk = [] → input.get? 0 = none) ∧
      Offers rest (input.drop chunk.length) := by
  obtain ⟨relation, offering, related⟩ := offers
  induction fuel generalizing reader with
  | zero => contradiction
  | succ fuel ih =>
    have yields := offering.read_yields related free
    rw [Reader.insist] at insisted
    generalize read reader room = told at yields insisted
    cases yields with
    | @data chunk rest fits begins ends goesOn =>
      cases insisted
      exact ⟨chunk, rest, rfl, fits, begins, ends, relation, offering, goesOn⟩
    | interrupted goesOn => exact ih insisted goesOn

/-- A property of readers with which they answer every call, and which they then still have. -/
structure IsResponding (responds : ρ → Prop) : Prop where
  insist_ok : ∀ {reader : ρ} {room : Nat}, responds reader → 0 < room →
    ∃ fuel answer rest, insist fuel reader room = .ok (answer, rest) ∧ responds rest

/-- The reader is never interrupted for ever. -/
def Responds (reader : ρ) : Prop :=
  ∃ responds : ρ → Prop, IsResponding responds ∧ responds reader

theorem Responds.insist {reader : ρ} {room : Nat} (responds : Responds reader) (free : 0 < room) :
    ∃ fuel answer rest, Reader.insist fuel reader room = .ok (answer, rest) ∧ Responds rest := by
  obtain ⟨property, responding, has⟩ := responds
  obtain ⟨fuel, answer, rest, insisted, has⟩ := responding.insist_ok has free
  exact ⟨fuel, answer, rest, insisted, property, responding, has⟩

theorem Hands.responds {reader : ρ} {bytes : List UInt8} (hands : Hands reader bytes) :
    Responds reader := by
  obtain ⟨relation, handing, related⟩ := hands
  refine ⟨fun reader => ∃ bytes, relation reader bytes, ⟨?_⟩, bytes, related⟩
  rintro reader room ⟨bytes, related⟩ free
  obtain ⟨fuel, chunk, rest, insisted, -, -, -, related⟩ := handing.insist_ok related free
  exact ⟨fuel, _, rest, insisted, _, related⟩

end Reader

namespace Memory

/-- A memory that does not fail offers what it holds, unless it never hands out anything. -/
theorem offers {memory : Memory} (failure : memory.failure = none) (chunk : memory.chunk ≠ some 0) :
    Reader.Offers memory (.ofList memory.bytes) := by
  refine ⟨fun reader input => reader.failure = none ∧ reader.chunk ≠ some 0 ∧
    input = .ofList reader.bytes, ⟨?_⟩, failure, chunk, rfl⟩
  rintro reader _ room ⟨failure, chunk, rfl⟩ free
  by_cases interrupted : reader.isInterrupted (reader.calls + 1) = true
  · have told : Reader.read reader room =
        (.interrupted, { reader with calls := reader.calls + 1 }) := if_pos interrupted
    rw [told]
    exact .interrupted ⟨failure, chunk, rfl⟩
  · have told : Reader.read reader room = _ :=
      read_of_not_isInterrupted reader failure (by simpa using interrupted) room
    have enough := size_pos chunk free
    rw [told]
    refine .data ?_ ?_ (fun nothing => ?_) ⟨failure, chunk, ?_⟩
    · rw [List.length_take]
      omega
    · rw [Content.take_ofList, List.length_take, ← List.take_eq_take_min]
    · rw [List.take_eq_nil_iff] at nothing
      rw [nothing.resolve_left (Nat.pos_iff_ne_zero.mp enough)]
      rfl
    · rw [Content.drop_ofList, List.length_take, ← List.drop_eq_drop_min]

end Memory

end TableDriven
