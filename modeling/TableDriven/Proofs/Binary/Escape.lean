import TableDriven.Binary.Escape
import TableDriven.Proofs.Binary.Runs

/-! # Run-length arrays of 16-bit values

The escape behind a value never collides with it, so a value that comes again leaves the escape
alone: the escape behind an array is that behind its values one by one, however they stand in
records.  Writer and reader therefore agree on it behind every row.
-/

namespace TableDriven.Binary

namespace Escape

theorem collides_after (escape : Escape) (value : UInt16) :
    (escape.after value).collides value = false := by
  rw [after]
  split
  next collides =>
    rw [Escape.collides, beq_iff_eq] at collides
    have moved : (escape.high + 0x4B).toNat = (escape.high.toNat + 75) % 256 :=
      UInt8.toNat_add escape.high 0x4B
    rw [Escape.collides, moved, beq_eq_false_iff_ne]
    omega
  next free => exact Bool.eq_false_iff.mpr free

theorem after_eq_self {escape : Escape} {value : UInt16} (free : escape.collides value = false) :
    escape.after value = escape := by
  rw [after, if_neg (Bool.eq_false_iff.mp free)]

theorem after_after (escape : Escape) (value : UInt16) :
    (escape.after value).after value = escape.after value :=
  after_eq_self (escape.collides_after value)

theorem collides_decode (escape : Escape) (high low : UInt8) :
    escape.collides (Word.decode [high, low]) = decide (high = escape.high) := by
  have above := high.toNat_lt
  have below := low.toNat_lt
  have number : (Word.decode [high, low] : UInt16).toNat = high.toNat * 256 + low.toNat := by
    change (UInt16.ofNat ((0 * 256 + high.toNat) * 256 + low.toNat)).toNat = _
    rw [UInt16.toNat_ofNat_of_lt' (by change _ < 65536; omega)]
    omega
  have quotient : (high.toNat * 256 + low.toNat) / 256 = high.toNat := by omega
  rw [collides, number, quotient, Bool.eq_iff_iff, beq_iff_eq, decide_eq_true_iff,
    UInt8.toNat_inj]

end Escape

theorem length_shortRecord (escape : Escape) (value : UInt16) (count : Nat) :
    (shortRecord escape (value, count)).length =
      if count = 1 ∧ escape.collides value = false then 2 else 4 := by
  rw [shortRecord]
  split
  · exact Word.length_encode value
  · rw [List.length_cons, List.length_cons, Word.length_encode]
    rfl

theorem length_merged_le (escape : Escape) (value : UInt16) {count more : Nat} (held : 0 < count)
    (moreHeld : 0 < more) :
    (shortRecord escape (value, count + more)).length ≤
      (shortRecord escape (value, count)).length +
        (shortRecord (escape.after value) (value, more)).length := by
  rw [length_shortRecord, length_shortRecord, length_shortRecord, if_neg (by omega)]
  split <;> split <;> omega

theorem length_filled_le (escape : Escape) (value : UInt16) {count more : Nat}
    (fits : count ≤ shortRunMax) (moreFits : more ≤ shortRunMax)
    (exceeds : shortRunMax < count + more) :
    (shortRecord escape (value, shortRunMax)).length +
        (shortRecord (escape.after value) (value, count + more - shortRunMax)).length ≤
      (shortRecord escape (value, count)).length +
        (shortRecord (escape.after value) (value, more)).length := by
  have limit : shortRunMax = 256 := rfl
  simp only [length_shortRecord, escape.collides_after, and_true]
  rw [limit] at fits moreFits exceeds ⊢
  -- A lone value is left over only if one of the two records held a lone value as well.
  split <;> split <;> split <;> split <;> omega

/-- The bytes of a value. -/
theorem encode_u16 (value : UInt16) :
    ∃ high low : UInt8, Word.encode value = [high, low] ∧ Word.decode [high, low] = value :=
  ⟨_, _, rfl, Word.decode_encode value⟩

theorem encode_decode_u16 (high low : UInt8) :
    Word.encode (Word.decode [high, low] : UInt16) = [high, low] :=
  Word.encode_decode Word.isFull_u16 rfl

/-- Takes the record of a run. -/
def shortHead (escape : Escape) : Decoder (Stretch UInt16)
  | high :: low :: rest =>
    if high = escape.high then
      match rest with
      | valueHigh :: valueLow :: rest =>
        .ok (Word.decode [valueHigh, valueLow], low.toNat + 1) rest
      | short => .error (.io .endOfInput) short
    else .ok (Word.decode [high, low], 1) rest
  | short => .error (.io .endOfInput) short

def shortCode : RunCode Escape UInt16 where
  limit := shortRunMax
  record := shortRecord
  after := Escape.after
  head := shortHead

theorem shortHead_escaped (escape : Escape) (low : UInt8) (rest : Bytes) :
    shortHead escape (escape.high :: low :: rest) =
      match rest with
      | valueHigh :: valueLow :: rest =>
        .ok (Word.decode [valueHigh, valueLow], low.toNat + 1) rest
      | short => .error (.io .endOfInput) short := if_pos rfl

theorem shortHead_bare {escape : Escape} {high : UInt8} (free : high ≠ escape.high) (low : UInt8)
    (rest : Bytes) :
    shortHead escape (high :: low :: rest) = .ok (Word.decode [high, low], 1) rest := if_neg free

theorem takes_bare {escape : Escape} {value : UInt16} (free : escape.collides value = false) :
    Takes (shortHead escape) (Word.write value) (pure (value, 1)) := by
  obtain ⟨high, low, encoded, decoded⟩ := encode_u16 value
  rw [Word.write, encoded]
  have other : high ≠ escape.high := by
    rwa [← decoded, escape.collides_decode, decide_eq_false_iff_not] at free
  constructor
  · intro bytes written behind
    cases written
    refine (shortHead_bare other low behind).trans ?_
    rw [decoded]
    rfl
  · intro bytes written cut short
    cases written
    obtain rfl | rfl : cut = 0 ∨ cut = 1 := by
      change cut < 2 at short
      omega
    · exact ⟨[], rfl⟩
    · exact ⟨[high], rfl⟩

theorem takes_escaped (escape : Escape) (value : UInt16) {count : Nat} (held : 0 < count)
    (fits : count ≤ 256) :
    Takes (shortHead escape)
      ⟨escape.high :: UInt8.ofNat (count - 1) :: Word.encode value, none⟩
      (pure (value, count)) := by
  obtain ⟨high, low, encoded, decoded⟩ := encode_u16 value
  rw [encoded]
  constructor
  · intro bytes written behind
    cases written
    refine (shortHead_escaped escape _ (high :: low :: behind)).trans ?_
    change EStateM.Result.ok (_, _) behind = .ok (value, count) behind
    rw [decoded, UInt8.toNat_ofNat_of_lt' (by change _ < 256; omega), Nat.sub_add_cancel held]
  · intro bytes written cut short
    cases written
    obtain rfl | rfl | rfl | rfl : cut = 0 ∨ cut = 1 ∨ cut = 2 ∨ cut = 3 := by
      change cut < 4 at short
      omega
    · exact ⟨[], rfl⟩
    · exact ⟨[escape.high], rfl⟩
    · exact ⟨[], shortHead_escaped escape _ []⟩
    · exact ⟨[high], shortHead_escaped escape _ [high]⟩

/-- A record is a value that does not collide, or a run behind the escape. -/
theorem shortHead_eq_ok {escape : Escape} {input rest : Bytes} {value : UInt16} {count : Nat}
    (read : shortHead escape input = .ok (value, count) rest) :
    (count = 1 ∧ escape.collides value = false ∧ input = Word.encode value ++ rest) ∨
      ∃ more : UInt8, count = more.toNat + 1 ∧
        input = escape.high :: more :: Word.encode value ++ rest := by
  cases input with
  | nil => cases read
  | cons high input =>
    cases input with
    | nil => cases read
    | cons low input =>
      by_cases same : high = escape.high
      · subst same
        rw [shortHead_escaped] at read
        cases input with
        | nil => cases read
        | cons valueHigh input =>
          cases input with
          | nil => cases read
          | cons valueLow input =>
            cases read
            refine .inr ⟨low, rfl, ?_⟩
            rw [encode_decode_u16]
            rfl
      · rw [shortHead_bare same] at read
        cases read
        refine .inl ⟨rfl, ?_, ?_⟩
        · rw [escape.collides_decode, decide_eq_false same]
        · rw [encode_decode_u16]
          rfl

theorem spelled_shortHead {escape : Escape} {input rest : Bytes} {stretch : Stretch UInt16}
    (accepted : shortHead escape input = .ok stretch rest) :
    IsRun shortRunMax stretch ∧ Spelled False input ⟨shortRecord escape stretch, none⟩ rest := by
  obtain ⟨value, count⟩ := stretch
  obtain ⟨rfl, free, rfl⟩ | ⟨more, rfl, rfl⟩ := shortHead_eq_ok accepted
  · refine ⟨⟨Nat.one_pos, Nat.succ_pos 255⟩, ?_⟩
    rw [shortRecord, if_pos ⟨rfl, free⟩]
    exact .of_eq rfl
  · refine ⟨⟨Nat.succ_pos _, more.toNat_lt⟩, escape.high :: more :: Word.encode value, _, rfl, rfl,
      ?_, False.elim⟩
    rw [length_shortRecord, List.length_cons, List.length_cons, Word.length_encode]
    split
    · exact Nat.le_add_left 2 2
    · exact Nat.le_refl 4

theorem shortCode_lawful : shortCode.Lawful where
  limit_pos := by decide
  settled := Escape.after_after
  takes escape stretch run := by
    obtain ⟨value, count⟩ := stretch
    change Takes (shortHead escape) ⟨shortRecord escape (value, count), none⟩ _
    rw [shortRecord]
    split
    next bare =>
      obtain ⟨rfl, free⟩ := bare
      exact takes_bare free
    next => exact takes_escaped escape value run.1 run.2
  spelled _ _ _ _ := spelled_shortHead
  merge escape value _ _ held moreHeld _ := length_merged_le escape value held moreHeld
  fill escape value count more fits moreFits exceeds := by
    have record : shortCode.record = shortRecord := rfl
    have after : shortCode.after = Escape.after := rfl
    have limit : shortCode.limit = shortRunMax := rfl
    rw [limit] at fits moreFits exceeds
    rw [record, after, limit]
    exact length_filled_le escape value fits moreFits exceeds

/-! ## Arrays -/

theorem foldl_pushShortRecord {stretches : List (Stretch UInt16)}
    (all : ∀ stretch ∈ stretches, IsRun shortCode.limit stretch) (written : Bytes)
    (escape : Escape) :
    stretches.foldl pushShortRecord (written, escape) =
      ((shortCode.records escape stretches).reverse ++ written,
        shortCode.behind escape (expand stretches)) := by
  induction stretches generalizing written escape with
  | nil => rfl
  | cons stretch stretches ih =>
    obtain ⟨⟨held, -⟩, all⟩ := List.forall_mem_cons.mp all
    rw [List.foldl_cons, pushShortRecord, ih all, RunCode.records, List.reverse_append,
      List.append_assoc, shortCode_lawful.behind_expand_cons escape held]
    rfl

/-- What is written of an array is the records of its runs, and the escape moves on with its
values. -/
theorem encodeShorts_eq (escape : Escape) (values : List UInt16) :
    encodeShorts escape values =
      (shortCode.encode escape values, shortCode.behind escape values) := by
  have positive : 0 < shortCode.limit := shortCode_lawful.limit_pos
  have folded := foldl_pushShortRecord (isRun_of_mem_runs positive values) [] escape
  rw [expand_runs positive] at folded
  rw [encodeShorts]
  change (((runs shortCode.limit values).foldl pushShortRecord ([], escape)).1.reverse,
    ((runs shortCode.limit values).foldl pushShortRecord ([], escape)).2) = _
  rw [folded, List.append_nil, List.reverse_reverse]
  rfl

def shortLoop (length : Nat) (done : Array UInt16) (escape : Escape) :
    Decoder (Array UInt16 × Escape) :=
  readShortRunsOnto length done escape

theorem shortCode_loops (length : Nat) : shortCode.Loops length Prod.mk (shortLoop length) where
  full done escape enough := by
    funext input
    rw [shortLoop, readShortRunsOnto.eq_def, if_pos enough]
    rfl
  more done escape short := by
    funext input
    rw [shortLoop, readShortRunsOnto.eq_def, if_neg (Nat.not_le_of_lt short)]
    cases input with
    | nil => rfl
    | cons high input =>
      cases input with
      | nil => rfl
      | cons low input =>
        by_cases same : high = escape.high
        · subst same
          refine (if_pos rfl).trans ?_
          cases input with
          | nil => exact (bind_apply_of_error (shortHead_escaped escape low [])).symm
          | cons valueHigh input =>
            cases input with
            | nil => exact (bind_apply_of_error (shortHead_escaped escape low [valueHigh])).symm
            | cons valueLow rest =>
              have read : shortCode.head escape
                    (escape.high :: low :: valueHigh :: valueLow :: rest) =
                  .ok (Word.decode [valueHigh, valueLow], low.toNat + 1) rest :=
                shortHead_escaped escape low _
              rw [bind_apply_of_ok read, RunCode.onward_apply]
              rfl
        · have read : shortCode.head escape (high :: low :: input) =
              .ok (Word.decode [high, low], 1) input := shortHead_bare same low input
          have stays : escape.after (Word.decode [high, low]) = escape :=
            Escape.after_eq_self (by rw [escape.collides_decode, decide_eq_false same])
          refine (if_neg same).trans ?_
          rw [bind_apply_of_ok read, RunCode.onward_apply]
          refine Eq.trans ?_ (if_neg (Nat.not_lt_of_le short)).symm
          change shortLoop length (done.push _) escape input =
            shortLoop length (done ++ Array.replicate 1 _) (escape.after _) input
          rw [stays]
          rfl

theorem contents_shorts : Contents False Array.size writeShortRuns readShortRuns where
  takes values := by
    rw [writeShortRuns, encodeShorts_eq]
    exact ((shortCode_loops values.size).takes_encode shortCode_lawful .initial).bind_next rfl
  spelled length input result rest accepted := by
    obtain ⟨answer, middle, read, answered⟩ := bind_apply_eq_ok_iff.mp accepted
    obtain ⟨values, size, rfl, spelled⟩ :=
      (shortCode_loops length).spelled_encode shortCode_lawful read
    cases answered
    rw [writeShortRuns, encodeShorts_eq]
    exact ⟨size, spelled⟩

theorem agrees_shorts : Agrees False writeShorts readShorts := contents_shorts.measured

/-- The numbers that signed values stand as. -/
def unsigned (values : Array Int16) : Array UInt16 := values.map Int16.toUInt16

def signed (values : Array UInt16) : Array Int16 := values.map UInt16.toInt16

theorem signed_unsigned (values : Array Int16) : signed (unsigned values) = values := by
  rw [signed, unsigned, Array.map_map]
  exact (Array.map_congr_left fun value _ => Int16.toInt16_toUInt16 value).trans (Array.map_id _)

theorem unsigned_signed (values : Array UInt16) : unsigned (signed values) = values := by
  rw [signed, unsigned, Array.map_map]
  exact (Array.map_congr_left fun value _ => UInt16.toUInt16_toInt16 value).trans (Array.map_id _)

theorem agrees_signedShorts : Agrees False writeSignedShorts readSignedShorts := by
  refine Agrees.refine agrees_shorts (fun values => ?_) fun values input result rest answered => ?_
  · cases values with
    | none => rfl
    | some values => exact congrArg (fun values => pure (some values)) (signed_unsigned values)
  · cases answered
    cases values with
    | none => exact ⟨rfl, rfl⟩
    | some values => exact ⟨congrArg some (unsigned_signed values).symm, rfl⟩

/-- The rows of an array, the escape carried over from one to the next. -/
def shortRows (escape : Escape) : List (Array UInt16) → Encoding
  | [] => .empty
  | row :: rows =>
    (writeLength (some row.size) ++ ⟨shortCode.encode escape row.toList, none⟩) ++
      shortRows (shortCode.behind escape row.toList) rows

theorem foldl_writeShortRow (rows : List (Array UInt16)) (written : List Encoding)
    (escape : Escape) :
    ∃ parts, rows.foldl writeShortRow (written, escape) =
        (parts.reverse ++ written, shortCode.behind escape (rows.flatMap Array.toList)) ∧
      Encoding.concat parts = shortRows escape rows := by
  induction rows generalizing written escape with
  | nil => exact ⟨[], rfl, rfl⟩
  | cons row rows ih =>
    rw [List.foldl_cons, writeShortRow, encodeShorts_eq]
    obtain ⟨parts, same, joined⟩ := ih
      ((writeLength (some row.size) ++ ⟨shortCode.encode escape row.toList, none⟩) :: written)
      (shortCode.behind escape row.toList)
    refine ⟨_ :: parts, ?_, congrArg (_ ++ ·) joined⟩
    rw [same, List.reverse_cons, List.append_assoc, List.flatMap_cons, RunCode.behind_append]
    rfl

theorem writeShortRows_eq (rows : Array (Array UInt16)) :
    writeShortRows rows = shortRows .initial rows.toList := by
  obtain ⟨parts, same, joined⟩ := foldl_writeShortRow rows.toList [] .initial
  rw [writeShortRows, same, List.append_nil, List.reverse_reverse, joined]

theorem readShortRowsOnto_succ (done : Array (Array UInt16)) (escape : Escape) (left : Nat) :
    readShortRowsOnto done escape (left + 1) =
      readRunRow (fun length => shortLoop length #[] escape) done.size >>= fun row =>
        readShortRowsOnto (done.push row.1) row.2 left := by
  funext input
  rw [readShortRowsOnto]
  cases found : readRunRow (fun length => readShortRunsOnto length #[] escape) done.size input with
  | ok row rest =>
    have read : readRunRow (fun length => shortLoop length #[] escape) done.size input =
      .ok row rest := found
    rw [bind_apply_of_ok read]
  | error cause rest =>
    have read : readRunRow (fun length => shortLoop length #[] escape) done.size input =
      .error cause rest := found
    rw [bind_apply_of_error read]

theorem takes_shortRow (row : Array UInt16) (escape : Escape) (index : Nat) :
    Takes (readRunRow (fun length => shortLoop length #[] escape) index)
      (writeLength (some row.size) ++ ⟨shortCode.encode escape row.toList, none⟩)
      (pure (row, shortCode.behind escape row.toList)) :=
  ((agrees_requiredLength _).takes row.size).bind
    ((shortCode_loops row.size).takes_encode shortCode_lawful escape)

theorem spelled_shortRow {escape : Escape} {index : Nat} {input rest : Bytes}
    {result : Array UInt16 × Escape}
    (accepted : readRunRow (fun length => shortLoop length #[] escape) index input =
      .ok result rest) :
    result.2 = shortCode.behind escape result.1.toList ∧
      Spelled False input
        (writeLength (some result.1.size) ++ ⟨shortCode.encode escape result.1.toList, none⟩)
        rest := by
  obtain ⟨length, middle, took, followed⟩ := bind_apply_eq_ok_iff.mp accepted
  obtain ⟨values, rfl, rfl, back⟩ :=
    (shortCode_loops length).spelled_encode shortCode_lawful followed
  have front := (agrees_requiredLength _).spelled _ _ _ took
  exact ⟨rfl, (front.mono False.elim).append back⟩

/-- Reads `left` rows behind those in `done`, and answers the escape behind them as well. -/
def shortRowsLoop (done : Array (Array UInt16)) (escape : Escape) :
    Nat → Decoder (Array (Array UInt16) × Escape)
  | 0 => pure (done, escape)
  | left + 1 =>
    readRunRow (fun length => shortLoop length #[] escape) done.size >>= fun row =>
      shortRowsLoop (done.push row.1) row.2 left

/-- The reader of rows goes on behind the first of them with the escape that they leave. -/
theorem readShortRowsOnto_add (done : Array (Array UInt16)) (escape : Escape) (front back : Nat) :
    readShortRowsOnto done escape (front + back) =
      shortRowsLoop done escape front >>= fun passed =>
        readShortRowsOnto passed.1 passed.2 back := by
  induction front generalizing done escape with
  | zero => rw [Nat.zero_add, shortRowsLoop, pure_bind]
  | succ front ih =>
    rw [Nat.add_right_comm, readShortRowsOnto_succ, shortRowsLoop, bind_assoc]
    exact bind_congr fun row => ih (done.push row.1) row.2

theorem readShortRowsOnto_eq (done : Array (Array UInt16)) (escape : Escape) (left : Nat) :
    readShortRowsOnto done escape left =
      shortRowsLoop done escape left >>= fun passed => pure passed.1 :=
  readShortRowsOnto_add done escape left 0

theorem takes_shortRows (rows : List (Array UInt16)) (done : Array (Array UInt16))
    (escape : Escape) :
    Takes (shortRowsLoop done escape rows.length) (shortRows escape rows)
      (pure (done ++ rows.toArray, shortCode.behind escape (rows.flatMap Array.toList))) := by
  induction rows generalizing done escape with
  | nil =>
    rw [Array.append_empty]
    exact .nothing
  | cons row rows ih =>
    rw [List.length_cons, shortRowsLoop, shortRows, List.flatMap_cons, RunCode.behind_append]
    have behind := ih (done.push row) (shortCode.behind escape row.toList)
    rw [List.push_append_toArray] at behind
    exact (takes_shortRow row escape done.size).bind behind

theorem spelled_shortRows {done : Array (Array UInt16)} {escape : Escape} {left : Nat}
    {input rest : Bytes} {result : Array (Array UInt16) × Escape}
    (accepted : shortRowsLoop done escape left input = .ok result rest) :
    ∃ rows : List (Array UInt16), result.1 = done ++ rows.toArray ∧ rows.length = left ∧
      result.2 = shortCode.behind escape (rows.flatMap Array.toList) ∧
      Spelled False input (shortRows escape rows) rest := by
  induction left generalizing done escape input with
  | zero =>
    cases accepted
    exact ⟨[], (Array.append_empty).symm, rfl, rfl, .nothing⟩
  | succ left ih =>
    rw [shortRowsLoop] at accepted
    obtain ⟨row, middle, found, accepted⟩ := bind_apply_eq_ok_iff.mp accepted
    obtain ⟨behind, front⟩ := spelled_shortRow found
    obtain ⟨rows, same, length, last, back⟩ := ih accepted
    rw [behind] at last back
    refine ⟨row.1 :: rows, same.trans List.push_append_toArray, congrArg (· + 1) length, ?_,
      front.append back⟩
    rw [last, List.flatMap_cons, RunCode.behind_append]

theorem contents_shortRows :
    Contents False Array.size writeShortRows (readShortRowsOnto #[] .initial) where
  takes rows := by
    have taken := takes_shortRows rows.toList #[] .initial
    rw [Array.empty_append, ← writeShortRows_eq] at taken
    rw [readShortRowsOnto_eq]
    exact taken.bind_next rfl
  spelled length input rows rest accepted := by
    rw [readShortRowsOnto_eq] at accepted
    obtain ⟨passed, middle, read, answered⟩ := bind_apply_eq_ok_iff.mp accepted
    cases answered
    obtain ⟨items, same, rfl, -, spelled⟩ := spelled_shortRows read
    rw [same, Array.empty_append, writeShortRows_eq]
    exact ⟨rfl, spelled⟩

theorem agrees_shorts2d : Agrees False writeShorts2d readShorts2d := contents_shortRows.measured

end TableDriven.Binary
