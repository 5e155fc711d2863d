import TableDriven.Input.Bytes
import TableDriven.Proofs.Input.Delivers

/-! # What a reader hands out

`Reader.Hands reader bytes` says that `reader` hands out `bytes` and does not fail: each call, once
it is not interrupted, yields some of the next bytes, and none only where they end.  A source of
bytes delivers what its reader hands out (`Reader.Hands.delivers`).
-/

namespace TableDriven

namespace Reader

variable {ρ : Type} [Reader ρ]

theorem insist_of_read {reader rest : ρ} {room fuel : Nat} {chunk : List UInt8}
    (told : read reader room = (.data chunk, rest)) :
    insist (fuel + 1) reader room = .ok (.data chunk, rest) := by
  rw [insist, told]

/-- A relation between readers and bytes that every call keeps. -/
structure IsHanding (hands : ρ → List UInt8 → Prop) : Prop where
  insist_ok : ∀ {reader : ρ} {bytes : List UInt8} {room : Nat}, hands reader bytes → 0 < room →
    ∃ fuel chunk rest, insist fuel reader room = .ok (.data chunk, rest) ∧ chunk <+: bytes ∧
      chunk.length ≤ room ∧ (chunk = [] → bytes = []) ∧ hands rest (bytes.drop chunk.length)

/-- The reader hands out `bytes`, in whatever chunks, and does not fail. -/
def Hands (reader : ρ) (bytes : List UInt8) : Prop :=
  ∃ hands : ρ → List UInt8 → Prop, IsHanding hands ∧ hands reader bytes

theorem Hands.delivers {reader : ρ} {bytes : List UInt8} (hands : Hands reader bytes) :
    UnitSource.Delivers ε (⟨some reader⟩ : ByteSource ρ) (.ofList bytes) := by
  obtain ⟨relation, handing, related⟩ := hands
  refine ⟨fun source input => ∃ reader bytes,
    source = ⟨some reader⟩ ∧ input = .ofList bytes ∧ relation reader bytes, ⟨?_⟩,
    reader, bytes, rfl, rfl, related⟩
  rintro _ _ room ⟨reader, bytes, rfl, rfl, related⟩ free
  obtain ⟨fuel, chunk, rest, answered, begins, fits, ends, related⟩ :=
    handing.insist_ok related free
  have filled : UnitSource.fill fuel (⟨some reader⟩ : ByteSource ρ) room =
      if chunk = [] then .ok (.silent (.ok .eof) ⟨some rest⟩ : Delivery (ByteSource ρ) UInt8 ε)
      else .ok (.exactly chunk ⟨some rest⟩) := by
    change ByteSource.fill fuel _ room = _
    simp only [ByteSource.fill, if_neg (Nat.pos_iff_ne_zero.mp free), answered, ok_bind]
    cases chunk <;> rfl
  by_cases nothing : chunk = []
  · rw [if_pos nothing] at filled
    exact ⟨fuel, _, filled, .ended (.inl rfl) (by simp [ends nothing])⟩
  · rw [if_neg nothing] at filled
    refine ⟨fuel, _, filled,
      .read rfl (List.length_pos_iff.mpr nothing) fits (Nat.le_refl _) ?_ ?_⟩
    · rw [Content.take_ofList, ← List.prefix_iff_eq_take.mp begins]
      exact List.take_length
    · exact ⟨rest, _, rfl, Content.drop_ofList _ _, related⟩

end Reader

namespace Memory

variable {memory : Memory}

variable (memory) in
theorem read_of_not_isInterrupted (failure : memory.failure = none)
    (goes : memory.isInterrupted (memory.calls + 1) = false) (room : Nat) :
    memory.read room =
      (.data (memory.bytes.take (min room (memory.chunk.getD room))),
        { memory with
          bytes := memory.bytes.drop (min room (memory.chunk.getD room))
          calls := memory.calls + 1 }) := by
  obtain ⟨bytes, chunk, interrupt, _, calls⟩ := memory
  subst failure
  simp only [isInterrupted] at goes
  simp only [read, isInterrupted, goes]
  cases bytes <;> rfl

/-- A call hands out some bytes if the memory has any. -/
theorem size_pos (chunk : memory.chunk ≠ some 0) {room : Nat} (free : 0 < room) :
    0 < min room (memory.chunk.getD room) := by
  cases given : memory.chunk with
  | none => simpa using free
  | some size =>
    have positive : size ≠ 0 := by
      rintro rfl
      contradiction
    exact Nat.lt_min.mpr ⟨free, Nat.pos_iff_ne_zero.mpr positive⟩

/-- A call that is interrupted is followed by one that is not. -/
theorem not_isInterrupted_succ (interrupt : memory.interrupt ≠ some 1) {call : Nat}
    (interrupted : memory.isInterrupted call = true) :
    memory.isInterrupted (call + 1) = false := by
  unfold isInterrupted at *
  cases every : memory.interrupt with
  | none => rfl
  | some period =>
    simp only [every, Bool.and_eq_true, decide_eq_true_eq, beq_iff_eq] at interrupted
    obtain ⟨positive, divides⟩ := interrupted
    have more : period ≠ 1 := by
      rintro rfl
      contradiction
    have next : (call + 1) % period = 1 := by
      rw [Nat.add_mod, divides, Nat.zero_add, Nat.mod_mod, Nat.mod_eq_of_lt (by omega)]
    simp [next]

/-- A memory that does not fail hands out what it holds, unless it never hands out anything or is
interrupted for ever. -/
theorem hands (failure : memory.failure = none) (chunk : memory.chunk ≠ some 0)
    (interrupt : memory.interrupt ≠ some 1) : Reader.Hands memory memory.bytes := by
  refine ⟨fun reader bytes => reader.failure = none ∧ reader.chunk ≠ some 0 ∧
    reader.interrupt ≠ some 1 ∧ reader.bytes = bytes, ⟨?_⟩, failure, chunk, interrupt, rfl⟩
  rintro reader _ room ⟨failure, chunk, interrupt, rfl⟩ free
  have enough := size_pos chunk free
  -- What a call that is not interrupted yields, from this memory or the one behind a call.
  have yields (calls : Nat) (goes : reader.isInterrupted (calls + 1) = false) :
      ∃ chunk rest, Reader.insist 1 { reader with calls } room = .ok (.data chunk, rest) ∧
        chunk <+: reader.bytes ∧ chunk.length ≤ room ∧ (chunk = [] → reader.bytes = []) ∧
        (rest.failure = none ∧ rest.chunk ≠ some 0 ∧ rest.interrupt ≠ some 1 ∧
          rest.bytes = reader.bytes.drop chunk.length) := by
    have told : Reader.read { reader with calls } room = _ :=
      read_of_not_isInterrupted { reader with calls } failure goes room
    refine ⟨_, _, Reader.insist_of_read told, List.take_prefix _ _, ?_, fun nothing => ?_,
      failure, chunk, interrupt, ?_⟩
    · rw [List.length_take]
      omega
    · rw [List.take_eq_nil_iff] at nothing
      exact nothing.resolve_left (Nat.pos_iff_ne_zero.mp enough)
    · rw [List.length_take, ← List.drop_eq_drop_min]
  by_cases interrupted : reader.isInterrupted (reader.calls + 1) = true
  · obtain ⟨chunk, rest, answered, more⟩ := yields (reader.calls + 1)
      (not_isInterrupted_succ interrupt interrupted)
    refine ⟨2, chunk, rest, ?_, more⟩
    have told : Reader.read reader room =
        (.interrupted, { reader with calls := reader.calls + 1 }) := if_pos interrupted
    rw [Reader.insist, told]
    exact answered
  · obtain ⟨chunk, rest, answered, more⟩ := yields reader.calls (by simpa using interrupted)
    exact ⟨1, chunk, rest, answered, more⟩

end Memory

end TableDriven
