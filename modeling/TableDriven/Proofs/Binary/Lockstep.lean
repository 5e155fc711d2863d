import TableDriven.Proofs.Binary.Escape

/-! # Writer and reader in lockstep

An array of 16-bit values may stand in many records: a run may be cut anywhere, and a lone value may
be escaped without need (`Escape.Splits`).  The escape moves on once for a record, and only behind
one that is escaped, yet the escape behind an array is the one that its values leave when they are
taken one by one (`Escape.moveHigh`).  So the reader has the writer's escape behind every row,
whoever wrote the rows.
-/

namespace TableDriven.Binary

namespace Escape

/-- The high byte of the escape behind a value: it moves on if the value has it. -/
def moveHigh (high : Nat) (value : UInt16) : Nat :=
  if value.toNat / 256 = high then (high + 0x4B) % 256 else high

theorem toNat_high_after (escape : Escape) (value : UInt16) :
    (escape.after value).high.toNat = moveHigh escape.high.toNat value := by
  rw [after, moveHigh]
  by_cases same : value.toNat / 256 = escape.high.toNat
  · have collides : escape.collides value = true := beq_iff_eq.mpr same
    rw [if_pos collides, if_pos same]
    exact UInt8.toNat_add escape.high 0x4B
  · have free : escape.collides value = false := beq_eq_false_iff_ne.mpr same
    rw [if_neg (Bool.eq_false_iff.mp free), if_neg same]

theorem toNat_high_behind (escape : Escape) (values : List UInt16) :
    (shortCode.behind escape values).high.toNat = values.foldl moveHigh escape.high.toNat := by
  induction values generalizing escape with
  | nil => rfl
  | cons value values ih =>
    rw [List.foldl_cons, ← escape.toNat_high_after]
    exact ih (escape.after value)

/-- Every value here collides with the escape that those before it leave, but the last. -/
example : [0x8105, 0xCC07, 0x1700, 0x8105].foldl moveHigh 0x81 = 0x62 := by decide

theorem eq_behind_iff {escape last : Escape} {values : List UInt16} :
    last = shortCode.behind escape values ↔
      last.high.toNat = values.foldl moveHigh escape.high.toNat := by
  rw [← escape.toNat_high_behind, UInt8.toNat_inj]
  exact ⟨congrArg high, congrArg mk⟩

/-- The bytes hold the values in records, cut as one likes.  A bare value does not collide with the
escape in force; behind the escape stands how often its value comes again, and then the value. -/
inductive Splits : Escape → List UInt16 → Bytes → Prop where
  | nil (escape : Escape) : Splits escape [] []
  | bare {escape : Escape} {value : UInt16} {values : List UInt16} {bytes : Bytes} :
    escape.collides value = false → Splits escape values bytes →
      Splits escape (value :: values) (Word.encode value ++ bytes)
  | escaped {escape : Escape} {value : UInt16} {values : List UInt16} {bytes : Bytes}
    (more : UInt8) : Splits (escape.after value) values bytes →
      Splits escape (List.replicate (more.toNat + 1) value ++ values)
        (escape.high :: more :: Word.encode value ++ bytes)

theorem Splits.heads {escape : Escape} {values : List UInt16} {bytes : Bytes}
    (splits : Splits escape values bytes) (rest : Bytes) :
    ∃ stretches, expand stretches = values ∧
      shortCode.Heads escape (bytes ++ rest) stretches rest := by
  induction splits with
  | nil escape => exact ⟨[], rfl, .nil escape rest⟩
  | @bare escape value values bytes free _ ih =>
    obtain ⟨stretches, rfl, heads⟩ := ih
    refine ⟨(value, 1) :: stretches, rfl, ?_⟩
    rw [List.append_assoc]
    refine .cons ((takes_bare free).whole _ rfl (bytes ++ rest)) ?_
    change shortCode.Heads (escape.after value) _ _ _
    rwa [after_eq_self free]
  | @escaped escape value values bytes more _ ih =>
    obtain ⟨stretches, rfl, heads⟩ := ih
    refine ⟨(value, more.toNat + 1) :: stretches, rfl, ?_⟩
    have held : 0 < more.toNat + 1 := Nat.succ_pos _
    have fits : more.toNat + 1 ≤ 256 := more.toNat_lt
    have taken := (takes_escaped escape value held fits).whole _ rfl (bytes ++ rest)
    rw [Nat.add_sub_cancel, UInt8.ofNat_toNat] at taken
    rw [List.append_assoc]
    exact .cons taken heads

theorem splits_of_heads {escape : Escape} {input rest : Bytes}
    {stretches : List (Stretch UInt16)} (heads : shortCode.Heads escape input stretches rest) :
    ∃ bytes, input = bytes ++ rest ∧ Splits escape (expand stretches) bytes := by
  induction heads with
  | nil escape input => exact ⟨[], rfl, .nil escape⟩
  | @cons escape input middle rest stretch stretches read _ ih =>
    obtain ⟨bytes, rfl, splits⟩ := ih
    obtain ⟨value, count⟩ := stretch
    change Splits (escape.after value) _ _ at splits
    obtain ⟨rfl, free, rfl⟩ | ⟨more, rfl, rfl⟩ := shortHead_eq_ok read
    · -- The chain moves the escape on behind every record, but a bare value does not collide.
      rw [after_eq_self free] at splits
      exact ⟨_, (List.append_assoc _ _ _).symm, .bare free splits⟩
    · exact ⟨_, (List.append_assoc _ _ _).symm, .escaped more splits⟩

end Escape

/-- The reader accepts the values in whatever records they stand, and nothing else, and the escape
that it is left with is the one behind the values. -/
theorem readShortRunsOnto_eq_ok_iff {length : Nat} {escape last : Escape} {values : Array UInt16}
    {input rest : Bytes} :
    readShortRunsOnto length #[] escape input = .ok (values, last) rest ↔
      values.size = length ∧ last = shortCode.behind escape values.toList ∧
        ∃ bytes, input = bytes ++ rest ∧ escape.Splits values.toList bytes := by
  constructor
  · intro accepted
    obtain ⟨stretches, heads, size, answered⟩ :=
      (shortCode_loops length).heads shortCode_lawful accepted (Nat.zero_le length)
    obtain ⟨rfl, rfl⟩ := Prod.mk.inj answered
    rw [Array.empty_append]
    exact ⟨(Nat.zero_add _).symm.trans size, rfl, Escape.splits_of_heads heads⟩
  · rintro ⟨rfl, rfl, bytes, rfl, splits⟩
    obtain ⟨stretches, same, heads⟩ := splits.heads rest
    have accepted := heads.accepted (shortCode_loops values.size) shortCode_lawful #[]
      (by rw [same]; exact Nat.zero_add _)
    rwa [same, Array.empty_append, Array.toArray_toList] at accepted

theorem splits_encodeShorts (escape : Escape) (values : List UInt16) :
    escape.Splits values (encodeShorts escape values).1 := by
  rw [encodeShorts_eq]
  -- The reader takes what was written, and it accepts nothing but splits.
  have taken := (shortCode_loops values.toArray.size).takes_encode shortCode_lawful escape
  obtain ⟨-, -, bytes, same, splits⟩ :=
    readShortRunsOnto_eq_ok_iff.mp (taken.whole (shortCode.encode escape values) rfl [])
  rwa [List.append_cancel_right same]

/-- The escape that the writer is left with behind rows. -/
def writtenEscape (rows : Array (Array UInt16)) : Escape :=
  (rows.toList.foldl writeShortRow ([], .initial)).2

theorem writtenEscape_eq (rows : Array (Array UInt16)) :
    writtenEscape rows = shortCode.behind .initial (rows.toList.flatMap Array.toList) := by
  obtain ⟨parts, same, -⟩ := foldl_writeShortRow rows.toList [] .initial
  rw [writtenEscape, same]

theorem shortRowsLoop_of_written {rows : Array (Array UInt16)} {bytes : Bytes}
    (written : (writeShortRows rows).toExcept = .ok bytes) (behind : Bytes) :
    shortRowsLoop #[] .initial rows.size (bytes ++ behind) =
      .ok (rows, writtenEscape rows) behind := by
  rw [writeShortRows_eq] at written
  have taken := (takes_shortRows rows.toList #[] .initial).whole bytes written behind
  rwa [Array.length_toList, Array.empty_append, Array.toArray_toList, ← writtenEscape_eq] at taken

/-- Whatever bytes the rows were read from, the reader is left with the writer's escape. -/
theorem eq_writtenEscape {count : Nat} {rows : Array (Array UInt16)} {last : Escape}
    {input rest : Bytes} (read : shortRowsLoop #[] .initial count input = .ok (rows, last) rest) :
    last = writtenEscape rows := by
  obtain ⟨items, same, -, behind, -⟩ := spelled_shortRows read
  rw [Array.empty_append] at same
  cases same
  rwa [writtenEscape_eq]

/-- The escape behind 16-bit values is the one that they leave when they are taken one by one: for
the writer, and for the reader in whatever records they stand, which are the bytes that it accepts.
So it has the writer's escape behind any number of rows, and goes on with that. -/
theorem escape_follows_values :
    (∀ (escape : Escape) (values : List UInt16),
      (encodeShorts escape values).2.high.toNat =
          values.foldl Escape.moveHigh escape.high.toNat ∧
        escape.Splits values (encodeShorts escape values).1) ∧
    (∀ (length : Nat) (escape last : Escape) (values : Array UInt16) (input rest : Bytes),
      readShortRunsOnto length #[] escape input = .ok (values, last) rest ↔
        values.size = length ∧
          last.high.toNat = values.toList.foldl Escape.moveHigh escape.high.toNat ∧
          ∃ bytes, input = bytes ++ rest ∧ escape.Splits values.toList bytes) ∧
    (∀ rows : Array (Array UInt16),
      (writtenEscape rows).high.toNat =
          (rows.toList.flatMap Array.toList).foldl Escape.moveHigh 0x81 ∧
        (∀ bytes, (writeShortRows rows).toExcept = .ok bytes → ∀ behind,
          shortRowsLoop #[] .initial rows.size (bytes ++ behind) =
            .ok (rows, writtenEscape rows) behind) ∧
        ∀ count last input rest,
          shortRowsLoop #[] .initial count input = .ok (rows, last) rest →
            last = writtenEscape rows) ∧
    ∀ front back, readShortRowsOnto #[] .initial (front + back) =
      shortRowsLoop #[] .initial front >>= fun passed =>
        readShortRowsOnto passed.1 passed.2 back := by
  refine ⟨fun escape values => ⟨?_, splits_encodeShorts escape values⟩, ?_, ?_,
    readShortRowsOnto_add #[] .initial⟩
  · rw [encodeShorts_eq]
    exact escape.toNat_high_behind values
  · intro length escape last values input rest
    rw [readShortRunsOnto_eq_ok_iff, Escape.eq_behind_iff]
  · intro rows
    refine ⟨?_, fun bytes => shortRowsLoop_of_written, fun count last input rest =>
      eq_writtenEscape⟩
    exact Escape.eq_behind_iff.mp (writtenEscape_eq rows)

/-- Two rows cut otherwise than a writer does: a run of colliding values of which the first alone is
escaped, and three equal values the first of which is bare.  The second row collides with the escape
that the first one leaves. -/
def uneven : Bytes :=
  [0, 6, 0x81, 0, 0x81, 5, 0x81, 5, 0xCC, 0, 0xCC, 7, 0, 5, 0x17, 1, 0, 5] ++
    [0, 1, 0x17, 0, 0x17, 0x34]

def unevenRows : Array (Array UInt16) := #[#[0x8105, 0x8105, 0xCC07, 5, 5, 5], #[0x1734]]

theorem escape_follows_values_uneven :
    (writeShortRows unevenRows).bytes ≠ uneven ∧
    shortRowsLoop #[] .initial 2 (uneven ++ [0xFF]) = .ok (unevenRows, ⟨0x62⟩) [0xFF] ∧
    writtenEscape unevenRows = ⟨0x62⟩ ∧
    (unevenRows.toList.flatMap Array.toList).foldl Escape.moveHigh 0x81 = 0x62 ∧
    ∃ middle, readShortRowsOnto #[#[0x8105, 0x8105, 0xCC07, 5, 5, 5]] ⟨0x17⟩ 1 middle =
      .ok unevenRows [0xFF] := by
  obtain ⟨-, -, rows, onwards⟩ := escape_follows_values
  obtain ⟨values, -, same⟩ := rows unevenRows
  have read : shortRowsLoop #[] .initial 2 (uneven ++ [0xFF]) =
    .ok (unevenRows, ⟨0x62⟩) [0xFF] := rfl
  have written : writtenEscape unevenRows = ⟨0x62⟩ := (same 2 _ _ _ read).symm
  rw [written] at values
  have first : shortRowsLoop #[] .initial 1 (uneven ++ [0xFF]) =
    .ok (#[#[0x8105, 0x8105, 0xCC07, 5, 5, 5]], ⟨0x17⟩) [0, 1, 0x17, 0, 0x17, 0x34, 0xFF] := rfl
  have whole : readShortRowsOnto #[] .initial (1 + 1) (uneven ++ [0xFF]) =
    .ok unevenRows [0xFF] := rfl
  rw [onwards, bind_apply_of_ok first] at whole
  exact ⟨by decide +kernel, read, written, values.symm, _, whole⟩

end TableDriven.Binary
