import TableDriven.Proofs.Binary.Runs

/-! # Run-length arrays of truth values and of bytes

Their records take one byte or two, whatever the run, so that fewer records are fewer bytes.
-/

namespace TableDriven.Binary

/-- Takes the record of a run of truth values. -/
def boolHead : Decoder (Stretch Bool)
  | record :: rest => .ok (decide (128 ≤ record.toNat), record.toNat % 128 + 1) rest
  | [] => .error (.io .endOfInput) []

def boolCode : RunCode Unit Bool where
  limit := boolRunMax
  record _ := boolRecord
  after _ _ := ()
  head _ := boolHead

theorem takes_boolHead {stretch : Stretch Bool} (run : IsRun boolRunMax stretch) :
    Takes boolHead ⟨boolRecord stretch, none⟩ (pure stretch) := by
  obtain ⟨value, count⟩ := stretch
  obtain ⟨held, fits⟩ : 0 < count ∧ count ≤ 128 := run
  have flag := value.toNat_le
  have number : (UInt8.ofNat (value.toNat * 128 + (count - 1))).toNat =
      value.toNat * 128 + (count - 1) := UInt8.toNat_ofNat_of_lt' (by change _ < 256; omega)
  constructor
  · intro bytes written behind
    cases written
    change EStateM.Result.ok _ behind = .ok (value, count) behind
    rw [number]
    have size : (value.toNat * 128 + (count - 1)) % 128 + 1 = count := by omega
    have same : decide (128 ≤ value.toNat * 128 + (count - 1)) = value := by
      cases value with
      | false => exact decide_eq_false (by rw [Bool.toNat_false]; omega)
      | true => exact decide_eq_true (by rw [Bool.toNat_true]; omega)
    rw [size, same]
  · intro bytes written cut short
    cases written
    obtain rfl : cut = 0 := Nat.lt_one_iff.mp short
    exact ⟨[], rfl⟩

theorem boolCode_lawful : boolCode.Lawful where
  limit_pos := by decide
  settled _ _ := rfl
  takes _ _ := takes_boolHead
  spelled _ input stretch rest accepted := by
    cases input with
    | nil => cases accepted
    | cons record rest =>
      cases accepted
      have below := record.toNat_lt
      refine ⟨⟨Nat.succ_pos _, Nat.mod_lt _ (by decide)⟩, .of_eq (congrArg (· :: rest) ?_)⟩
      apply UInt8.toNat_inj.mp
      rw [UInt8.toNat_ofNat']
      by_cases high : 128 ≤ record.toNat
      · rw [decide_eq_true high, Bool.toNat_true]
        omega
      · rw [decide_eq_false high, Bool.toNat_false]
        omega
  merge _ _ _ _ _ _ _ := Nat.le_add_right 1 1
  fill _ _ _ _ _ _ _ := Nat.le_refl 2

def boolLoop (length : Nat) (done : Array Bool) (_ : Unit) : Decoder (Array Bool) :=
  readBoolRunsOnto length done

theorem boolCode_loops (length : Nat) :
    boolCode.Loops length (fun values _ => values) (boolLoop length) where
  full done _ enough := by
    funext input
    rw [boolLoop, readBoolRunsOnto.eq_def, if_pos enough]
    rfl
  more done state short := by
    funext input
    rw [boolLoop, readBoolRunsOnto.eq_def, if_neg (Nat.not_le_of_lt short)]
    cases input with
    | nil => rfl
    | cons record rest =>
      have read : boolCode.head state (record :: rest) =
        .ok (decide (128 ≤ record.toNat), record.toNat % 128 + 1) rest := rfl
      rw [bind_apply_of_ok read, RunCode.onward_apply]
      rfl

theorem boolCode_encode :
    (fun values : Array Bool => ⟨boolCode.encode () values.toList, none⟩) = writeBoolRuns :=
  funext fun _ =>
    congrArg (Encoding.mk · none) (RunCode.records_eq_flatMap (fun _ => rfl) () _)

theorem contents_bools : Contents False Array.size writeBoolRuns readBoolRuns := by
  rw [← boolCode_encode]
  exact boolCode_lawful.contents boolCode_loops ()

theorem agrees_bools : Agrees False writeBools readBools := contents_bools.measured

theorem agrees_bools2d : Agrees False writeBools2d readBools2d :=
  (Contents.rows fun index => contents_bools.required s!"row {index}").measured

/-- Takes the record of a run of bytes. -/
def byteHead : Decoder (Stretch Int8)
  | size :: value :: rest => .ok (value.toInt8, size.toNat + 1) rest
  | short => .error (.io .endOfInput) short

def byteCode : RunCode Unit Int8 where
  limit := byteRunMax
  record _ := byteRecord
  after _ _ := ()
  head _ := byteHead

theorem takes_byteHead {stretch : Stretch Int8} (run : IsRun byteRunMax stretch) :
    Takes byteHead ⟨byteRecord stretch, none⟩ (pure stretch) := by
  obtain ⟨value, count⟩ := stretch
  obtain ⟨held, fits⟩ : 0 < count ∧ count ≤ 256 := run
  constructor
  · intro bytes written behind
    cases written
    change EStateM.Result.ok (value.toUInt8.toInt8, (UInt8.ofNat (count - 1)).toNat + 1) behind =
      .ok (value, count) behind
    rw [Int8.toInt8_toUInt8, UInt8.toNat_ofNat_of_lt' (by change _ < 256; omega),
      Nat.sub_add_cancel held]
  · intro bytes written cut short
    cases written
    obtain rfl | rfl : cut = 0 ∨ cut = 1 := by
      change cut < 2 at short
      omega
    · exact ⟨[], rfl⟩
    · exact ⟨[_], rfl⟩

theorem byteCode_lawful : byteCode.Lawful where
  limit_pos := by decide
  settled _ _ := rfl
  takes _ _ := takes_byteHead
  spelled _ input stretch rest accepted := by
    cases input with
    | nil => cases accepted
    | cons size input =>
      cases input with
      | nil => cases accepted
      | cons value rest =>
        cases accepted
        refine ⟨⟨Nat.succ_pos _, size.toNat_lt⟩, .of_eq ?_⟩
        change size :: value :: rest =
          UInt8.ofNat (size.toNat + 1 - 1) :: value.toInt8.toUInt8 :: rest
        rw [Nat.add_sub_cancel, UInt8.ofNat_toNat, UInt8.toUInt8_toInt8]
  merge _ _ _ _ _ _ _ := Nat.le_add_right 2 2
  fill _ _ _ _ _ _ _ := Nat.le_refl 4

def byteLoop (length : Nat) (done : Array Int8) (_ : Unit) : Decoder (Array Int8) :=
  readByteRunsOnto length done

theorem byteCode_loops (length : Nat) :
    byteCode.Loops length (fun values _ => values) (byteLoop length) where
  full done _ enough := by
    funext input
    rw [byteLoop, readByteRunsOnto.eq_def, if_pos enough]
    rfl
  more done state short := by
    funext input
    rw [byteLoop, readByteRunsOnto.eq_def, if_neg (Nat.not_le_of_lt short)]
    cases input with
    | nil => rfl
    | cons size input =>
      cases input with
      | nil => rfl
      | cons value rest =>
        have read : byteCode.head state (size :: value :: rest) =
          .ok (value.toInt8, size.toNat + 1) rest := rfl
        rw [bind_apply_of_ok read, RunCode.onward_apply]
        rfl

theorem byteCode_encode :
    (fun values : Array Int8 => ⟨byteCode.encode () values.toList, none⟩) = writeByteRuns :=
  funext fun _ =>
    congrArg (Encoding.mk · none) (RunCode.records_eq_flatMap (fun _ => rfl) () _)

theorem contents_smalls : Contents False Array.size writeByteRuns readByteRuns := by
  rw [← byteCode_encode]
  exact byteCode_lawful.contents byteCode_loops ()

theorem agrees_smalls : Agrees False writeSmalls readSmalls := contents_smalls.measured

theorem agrees_smalls2d : Agrees False writeSmalls2d readSmalls2d :=
  (Contents.rows fun index => contents_smalls.required s!"row {index}").measured

end TableDriven.Binary
