import TableDriven.TableFault

/-! # Writers and readers that agree

`Takes` says that a decoder takes what an encoding wrote off the front of any bytes, and that it
refuses bytes that end within it because they ended.  `Spelled` is the other direction: what a
decoder took off its input is a spelling of what the encoding writes, and no shorter than that.
Both pass through `>>=` and through encodings written one behind the other, so a decoder is
compared with its writer step by step.  A form `Agrees` if both hold of every value.
-/

namespace TableDriven

/-- A type of failures with one for bytes that end before the value does. -/
class EndOfBytes (ε : Type) where
  ended : ε

namespace Binary

instance : EndOfBytes CodecFault := ⟨.io .endOfInput⟩

instance : EndOfBytes (TableFault δ) := ⟨.codec EndOfBytes.ended⟩

namespace Encoding

variable {first second : Encoding} {bytes : Bytes}

@[simp] theorem toExcept_mk (bytes : Bytes) : (⟨bytes, none⟩ : Encoding).toExcept = .ok bytes := rfl

theorem toExcept_of_unrefused {encoding : Encoding} (unrefused : encoding.refusal = none) :
    encoding.toExcept = .ok encoding.bytes := by
  rw [toExcept, unrefused]

theorem toExcept_append_eq_ok_iff :
    (first ++ second).toExcept = .ok bytes ↔
      ∃ front back, first.toExcept = .ok front ∧ second.toExcept = .ok back ∧
        bytes = front ++ back := by
  obtain ⟨front, refusal⟩ := first
  obtain ⟨back, refused⟩ := second
  change (andThen _ _).toExcept = _ ↔ _
  cases refusal <;> cases refused <;> simp [andThen, toExcept, eq_comm]

theorem mk_append (front back : Bytes) :
    (⟨front ++ back, none⟩ : Encoding) = ⟨front, none⟩ ++ ⟨back, none⟩ := rfl

end Encoding

section
variable {ε : Type} {α β : Type} {decoder : EStateM ε Bytes α} {next : α → EStateM ε Bytes β}
  {input rest : Bytes}

theorem bind_apply_of_ok {value : α} (read : decoder input = .ok value rest) :
    (decoder >>= next) input = next value rest := by
  change EStateM.bind decoder next input = _
  rw [EStateM.bind, read]

theorem bind_apply_of_error {cause : ε} (failed : decoder input = .error cause rest) :
    (decoder >>= next) input = .error cause rest := by
  change EStateM.bind decoder next input = _
  rw [EStateM.bind, failed]

theorem bind_apply_eq_ok_iff {result : β} :
    (decoder >>= next) input = .ok result rest ↔
      ∃ value middle, decoder input = .ok value middle ∧ next value middle = .ok result rest := by
  constructor
  · intro answered
    cases read : decoder input with
    | ok value middle =>
      rw [bind_apply_of_ok read] at answered
      exact ⟨value, middle, rfl, answered⟩
    | error cause middle =>
      rw [bind_apply_of_error read] at answered
      cases answered
  · rintro ⟨value, middle, read, answered⟩
    rw [bind_apply_of_ok read, answered]

variable [EndOfBytes ε] {first second : Encoding} {goal : EStateM ε Bytes β}

/-- The decoder takes what `encoding` wrote off the front of any bytes and goes on as `next`; from
bytes that end within it, it learns that they ended. -/
structure Takes (decoder : EStateM ε Bytes α) (encoding : Encoding)
    (next : EStateM ε Bytes α) : Prop where
  whole : ∀ bytes, encoding.toExcept = .ok bytes → ∀ behind,
    decoder (bytes ++ behind) = next behind
  cut : ∀ bytes, encoding.toExcept = .ok bytes → ∀ count, count < bytes.length →
    ∃ rest, decoder (bytes.take count) = .error EndOfBytes.ended rest

namespace Takes

theorem nothing : Takes decoder .empty decoder := by
  constructor
  · intro bytes written behind
    cases written
    rfl
  · intro bytes written count short
    cases written
    exact absurd short (Nat.not_lt_zero count)

theorem refused {cause : CodecFault} {after : EStateM ε Bytes α} :
    Takes decoder (.refuse cause) after := by
  constructor <;> intro bytes written <;> cases written

/-- One encoding behind another is taken by what goes on behind the first. -/
theorem trans {middle last : EStateM ε Bytes α} (front : Takes decoder first middle)
    (back : Takes middle second last) : Takes decoder (first ++ second) last := by
  constructor
  · intro bytes written behind
    obtain ⟨one, two, fits, follows, rfl⟩ := Encoding.toExcept_append_eq_ok_iff.mp written
    rw [List.append_assoc, front.whole one fits, back.whole two follows]
  · intro bytes written count short
    obtain ⟨one, two, fits, follows, rfl⟩ := Encoding.toExcept_append_eq_ok_iff.mp written
    rw [List.length_append] at short
    by_cases inside : count < one.length
    · rw [List.take_append_of_le_length (by omega)]
      exact front.cut one fits count inside
    · rw [List.take_append, List.take_of_length_le (by omega), front.whole one fits]
      exact back.cut two follows _ (by omega)

theorem bind_next {value : α} {after : EStateM ε Bytes β} (front : Takes decoder first (pure value))
    (same : next value = after) : Takes (decoder >>= next) first after := by
  subst same
  constructor
  · intro bytes written behind
    exact bind_apply_of_ok (front.whole bytes written behind)
  · intro bytes written count short
    obtain ⟨rest, failed⟩ := front.cut bytes written count short
    exact ⟨rest, bind_apply_of_error failed⟩

/-- The value that a decoder takes is what the next one goes on with. -/
theorem bind {value : α} (front : Takes decoder first (pure value))
    (back : Takes (next value) second goal) : Takes (decoder >>= next) (first ++ second) goal :=
  (front.bind_next rfl).trans back

end Takes

/-- What stands in `input` before `rest` is a spelling of what the encoding writes: no shorter, and
the same bytes if nothing else is a spelling. -/
def Spelled (sole : Prop) (input : Bytes) (encoding : Encoding) (rest : Bytes) : Prop :=
  ∃ used bytes, input = used ++ rest ∧ encoding.toExcept = .ok bytes ∧
    bytes.length ≤ used.length ∧ (sole → bytes = used)

namespace Spelled

variable {sole : Prop} {middle : Bytes}

omit [EndOfBytes ε] in
theorem nothing : Spelled sole input .empty input := ⟨[], [], rfl, rfl, Nat.le_refl _, fun _ => rfl⟩

theorem of_eq {bytes : Bytes} (same : input = bytes ++ rest) :
    Spelled sole input ⟨bytes, none⟩ rest :=
  ⟨bytes, bytes, same, rfl, Nat.le_refl _, fun _ => rfl⟩

theorem append (front : Spelled sole input first middle) (back : Spelled sole middle second rest) :
    Spelled sole input (first ++ second) rest := by
  obtain ⟨used, bytes, rfl, written, length, same⟩ := front
  obtain ⟨used', bytes', rfl, written', length', same'⟩ := back
  refine ⟨used ++ used', bytes ++ bytes', by rw [List.append_assoc],
    Encoding.toExcept_append_eq_ok_iff.mpr ⟨bytes, bytes', written, written', rfl⟩, ?_, ?_⟩
  · simp only [List.length_append]
    omega
  · intro only
    rw [same only, same' only]

theorem written (spelled : Spelled sole input first rest) :
    ∃ bytes, first.toExcept = .ok bytes := by
  obtain ⟨-, bytes, -, same, -, -⟩ := spelled
  exact ⟨bytes, same⟩

/-- A spelling of bytes is one of fewer bytes too. -/
theorem shorten {bytes fewer : Bytes} (spelled : Spelled False input ⟨bytes, none⟩ rest)
    (length : fewer.length ≤ bytes.length) : Spelled False input ⟨fewer, none⟩ rest := by
  obtain ⟨used, written, split, same, within, -⟩ := spelled
  cases same
  exact ⟨used, fewer, split, rfl, Nat.le_trans length within, False.elim⟩

/-- If one spelling is accepted, then so it is where several may be. -/
theorem mono {others : Prop} (spelled : Spelled sole input first rest) (fewer : others → sole) :
    Spelled others input first rest := by
  obtain ⟨used, bytes, split, written, length, same⟩ := spelled
  exact ⟨used, bytes, split, written, length, fun only => same (fewer only)⟩

end Spelled

/-- The decoder takes back what was written of any value, and whatever it accepts is a spelling of
the value that it answers. -/
structure Agrees (sole : Prop) (write : α → Encoding) (read : EStateM ε Bytes α) : Prop where
  takes : ∀ value, Takes read (write value) (pure value)
  spelled : ∀ input value rest, read input = .ok value rest → Spelled sole input (write value) rest

namespace Agrees

variable {sole : Prop} {write : α → Encoding} {read : EStateM ε Bytes α}

theorem mono {others : Prop} (agrees : Agrees sole write read) (fewer : others → sole) :
    Agrees others write read :=
  ⟨agrees.takes, fun input value rest accepted =>
    (agrees.spelled input value rest accepted).mono fewer⟩

/-- The values of a form may be renamed, and some of them refused. -/
theorem refine {other : β → α} {back : α → EStateM ε Bytes β} (agrees : Agrees sole write read)
    (accepts : ∀ value, back (other value) = pure value)
    (only : ∀ value input result rest, back value input = .ok result rest →
      value = other result ∧ input = rest) :
    Agrees sole (fun value => write (other value)) (read >>= back) := by
  constructor
  · intro value
    exact (agrees.takes (other value)).bind_next (accepts value)
  · intro input result rest accepted
    obtain ⟨value, middle, took, answered⟩ := bind_apply_eq_ok_iff.mp accepted
    obtain ⟨rfl, rfl⟩ := only value middle result rest answered
    exact agrees.spelled input _ _ took

/-- A form without a null: reading refuses it. -/
theorem unwrap {write : Option α → Encoding} {read : EStateM ε Bytes (Option α)}
    {back : Option α → EStateM ε Bytes α} {cause : ε} (agrees : Agrees sole write read)
    (accepts : ∀ value, back (some value) = pure value) (refuses : back none = throw cause) :
    Agrees sole (fun value => write (some value)) (read >>= back) := by
  refine agrees.refine accepts fun value input result rest answered => ?_
  cases value with
  | none =>
    rw [refuses] at answered
    cases answered
  | some value =>
    rw [accepts] at answered
    cases answered
    exact ⟨rfl, rfl⟩

end Agrees

end

end Binary
end TableDriven
