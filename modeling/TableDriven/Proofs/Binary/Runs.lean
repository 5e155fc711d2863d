import TableDriven.Binary.RunLength
import TableDriven.Proofs.Binary.Array

/-! # Runs and their records

Cutting an array into runs is undone by `expand`, and `run_induction` follows it from one run to the
next.  How a run stands in bytes is a `RunCode`: a record may depend on a state that moves on with
the values.  Three things about a code make its arrays agree with their reader.  Its records do;
values read once more leave the state alone, so that it does not matter how they were cut into
records; and a record never costs more than two that hold the same values, so that no records of an
array are shorter than those of its runs (`length_records_runs_le`).
-/

namespace TableDriven.Binary

variable {α : Type}

@[simp] theorem expand_nil : expand ([] : List (Stretch α)) = [] := rfl

@[simp] theorem expand_cons (stretch : Stretch α) (rest : List (Stretch α)) :
    expand (stretch :: rest) = List.replicate stretch.2 stretch.1 ++ expand rest := rfl

section
variable [DecidableEq α] {limit : Nat}

/-- A run of `count` values cannot take the next one as well. -/
def Closes (limit : Nat) (value : α) (count : Nat) (next : List α) : Prop :=
  count = limit ∨ next.head? ≠ some value

omit [DecidableEq α] in
theorem exists_run (positive : 0 < limit) (value : α) (values : List α) :
    ∃ count rest, value :: values = List.replicate count value ++ rest ∧
      0 < count ∧ count ≤ limit ∧ Closes limit value count rest := by
  induction values generalizing limit with
  | nil => exact ⟨1, [], rfl, Nat.one_pos, positive, .inr nofun⟩
  | cons next values ih =>
    by_cases more : next = value ∧ 1 < limit
    · obtain ⟨rfl, room⟩ := more
      have fewer : 0 < limit - 1 := by omega
      obtain ⟨count, rest, split, -, fits, closes⟩ := ih fewer
      refine ⟨count + 1, rest, congrArg (next :: ·) split, Nat.succ_pos _, by omega, ?_⟩
      exact closes.imp (fun full => by omega) id
    · refine ⟨1, next :: values, rfl, Nat.one_pos, positive, ?_⟩
      by_cases same : next = value
      · have tight : ¬1 < limit := fun room => more ⟨same, room⟩
        exact .inl (by omega)
      · exact .inr fun head => same (Option.some.inj head)

omit [DecidableEq α] in
/-- Induction over an array by its runs. -/
@[elab_as_elim]
theorem run_induction (positive : 0 < limit) {motive : List α → Prop} (nil : motive [])
    (run : ∀ value count rest, 0 < count → count ≤ limit → Closes limit value count rest →
      motive rest → motive (List.replicate count value ++ rest))
    (values : List α) : motive values := by
  induction size : values.length using Nat.strongRecOn generalizing values with
  | ind size ih =>
    cases values with
    | nil => exact nil
    | cons value values =>
      obtain ⟨count, rest, split, held, fits, closes⟩ := exists_run positive value values
      rw [split] at size ⊢
      rw [List.length_append, List.length_replicate] at size
      exact run value count rest held fits closes (ih rest.length (by omega) rest rfl)

/-- An open run leaves the closed ones as they are. -/
theorem foldl_extendRun (newest : Stretch α) (older : List (Stretch α)) (values : List α) :
    values.foldl (extendRun limit) (newest :: older) =
      values.foldl (extendRun limit) [newest] ++ older := by
  induction values generalizing newest older with
  | nil => rfl
  | cons value values ih =>
    simp only [List.foldl_cons, extendRun]
    split
    · exact ih _ _
    · rw [ih _ (newest :: older), ih _ [newest], List.append_assoc]
      rfl

theorem foldl_extendRun_replicate {value : α} {count more : Nat} (fits : count + more ≤ limit)
    (rest : List α) :
    (List.replicate more value ++ rest).foldl (extendRun limit) [(value, count)] =
      rest.foldl (extendRun limit) [(value, count + more)] := by
  induction more generalizing count with
  | zero => rfl
  | succ more ih =>
    rw [List.replicate_succ, List.cons_append, List.foldl_cons, extendRun,
      if_pos ⟨rfl, by omega⟩, ih (by omega), Nat.add_right_comm, Nat.add_assoc]

theorem foldl_extendRun_of_closes {value : α} {count : Nat} {rest : List α}
    (closes : Closes limit value count rest) :
    rest.foldl (extendRun limit) [(value, count)] =
      rest.foldl (extendRun limit) [] ++ [(value, count)] := by
  cases rest with
  | nil => rfl
  | cons next rest =>
    have stays : ¬(next = value ∧ count < limit) := by
      rintro ⟨rfl, room⟩
      obtain full | other := closes
      · omega
      · exact other rfl
    rw [List.foldl_cons, extendRun, if_neg stays, foldl_extendRun]
    rfl

theorem runs_replicate_append {value : α} {count : Nat} {rest : List α} (held : 0 < count)
    (fits : count ≤ limit) (closes : Closes limit value count rest) :
    runs limit (List.replicate count value ++ rest) = (value, count) :: runs limit rest := by
  obtain ⟨count, rfl⟩ := Nat.exists_eq_add_of_lt held
  rw [Nat.zero_add] at fits closes ⊢
  rw [runs, List.replicate_succ, List.cons_append, List.foldl_cons]
  change (List.foldl _ [(value, 1)] _).reverse = _
  rw [foldl_extendRun_replicate (by omega), Nat.add_comm 1, foldl_extendRun_of_closes closes,
    List.reverse_append]
  rfl

/-- A stretch that one record may hold. -/
def IsRun (limit : Nat) (stretch : Stretch α) : Prop := 0 < stretch.2 ∧ stretch.2 ≤ limit

theorem expand_runs (positive : 0 < limit) (values : List α) :
    expand (runs limit values) = values := by
  induction values using run_induction positive with
  | nil => rfl
  | run value count rest held fits closes ih =>
    rw [runs_replicate_append held fits closes, expand_cons, ih]

theorem isRun_of_mem_runs (positive : 0 < limit) (values : List α) :
    ∀ stretch ∈ runs limit values, IsRun limit stretch := by
  induction values using run_induction positive with
  | nil => exact nofun
  | run value count rest held fits closes ih =>
    rw [runs_replicate_append held fits closes]
    exact List.forall_mem_cons.mpr ⟨⟨held, fits⟩, ih⟩

end

/-! ## Codes of runs -/

/-- How the runs of an array stand in bytes: how many values a record holds at most, the record of a
run, the state behind a run of a value, and how one record is read. -/
structure RunCode (σ α : Type) where
  limit : Nat
  record : σ → Stretch α → Bytes
  after : σ → α → σ
  head : σ → Decoder (Stretch α)

namespace RunCode

variable {σ β : Type} (code : RunCode σ α)

/-- The records of runs one behind the other. -/
def records : σ → List (Stretch α) → Bytes
  | _, [] => []
  | state, stretch :: rest => code.record state stretch ++ records (code.after state stretch.1) rest

/-- The state behind values. -/
def behind (state : σ) (values : List α) : σ := values.foldl code.after state

/-- What a code of runs needs to agree with its reader.  A value that comes again leaves the state
alone (`settled`), one record costs no more than two that hold the same values (`merge`), and where
two are needed it costs nothing to fill the first of them (`fill`). -/
structure Lawful : Prop where
  limit_pos : 0 < code.limit
  settled : ∀ state value, code.after (code.after state value) value = code.after state value
  takes : ∀ state stretch, IsRun code.limit stretch →
    Takes (code.head state) ⟨code.record state stretch, none⟩ (pure stretch)
  spelled : ∀ state input stretch rest, code.head state input = .ok stretch rest →
    IsRun code.limit stretch ∧ Spelled False input ⟨code.record state stretch, none⟩ rest
  merge : ∀ state value count more, 0 < count → 0 < more → count + more ≤ code.limit →
    (code.record state (value, count + more)).length ≤
      (code.record state (value, count)).length +
        (code.record (code.after state value) (value, more)).length
  fill : ∀ state value count more, count ≤ code.limit → more ≤ code.limit →
    code.limit < count + more →
    (code.record state (value, code.limit)).length +
        (code.record (code.after state value) (value, count + more - code.limit)).length ≤
      (code.record state (value, count)).length +
        (code.record (code.after state value) (value, more)).length

/-- The bytes of an array: the records of its runs. -/
def encode [DecidableEq α] (state : σ) (values : List α) : Bytes :=
  code.records state (runs code.limit values)

variable {code}

theorem records_eq_flatMap {record : Stretch α → Bytes} (same : ∀ state, code.record state = record)
    (state : σ) (stretches : List (Stretch α)) :
    code.records state stretches = stretches.flatMap record := by
  induction stretches generalizing state with
  | nil => rfl
  | cons stretch stretches ih => rw [records, same, ih, List.flatMap_cons]

theorem behind_append (state : σ) (front back : List α) :
    code.behind state (front ++ back) = code.behind (code.behind state front) back :=
  List.foldl_append

theorem Lawful.behind_replicate (lawful : code.Lawful) (state : σ) (value : α) {count : Nat}
    (held : 0 < count) :
    code.behind state (List.replicate count value) = code.after state value := by
  induction count with
  | zero => exact absurd held (Nat.lt_irrefl 0)
  | succ count ih =>
    rw [behind, List.replicate_succ', List.foldl_append]
    by_cases last : count = 0
    · subst last
      rfl
    · change code.after (code.behind state _) value = _
      rw [ih (Nat.pos_of_ne_zero last), lawful.settled]

section
variable [DecidableEq α]

theorem length_encode_append (state : σ) {value : α} {count : Nat} {rest : List α}
    (held : 0 < count) (fits : count ≤ code.limit) (closes : Closes code.limit value count rest) :
    (code.encode state (List.replicate count value ++ rest)).length =
      (code.record state (value, count)).length +
        (code.encode (code.after state value) rest).length := by
  rw [encode, runs_replicate_append held fits closes, records, List.length_append]
  rfl

/-- To put one record in front of an array costs no less than to write the values with it. -/
theorem Lawful.length_encode_append_le (lawful : code.Lawful) (state : σ) (value : α) {count : Nat}
    (values : List α) (held : 0 < count) (fits : count ≤ code.limit) :
    (code.encode state (List.replicate count value ++ values)).length ≤
      (code.record state (value, count)).length +
        (code.encode (code.after state value) values).length := by
  induction values using run_induction lawful.limit_pos generalizing state count with
  | nil => exact Nat.le_of_eq (length_encode_append state held fits (.inr nofun))
  | run next more rest moreHeld moreFits closes ih =>
    by_cases same : next = value
    · subst same
      rw [length_encode_append _ moreHeld moreFits closes, lawful.settled,
        ← List.append_assoc, List.replicate_append_replicate]
      by_cases room : count + more ≤ code.limit
      · -- The record takes the whole run that follows.
        have closes : Closes code.limit next (count + more) rest :=
          closes.imp (fun full => by omega) id
        have merged := lawful.merge state next count more held moreHeld room
        rw [length_encode_append state (by omega) room closes]
        omega
      · -- It takes what it can, and the run is left with the rest.
        have split : count + more = code.limit + (count + more - code.limit) := by omega
        have filled := lawful.fill state next count more fits moreFits (by omega)
        have leftHeld : 0 < count + more - code.limit := by omega
        have leftFits : count + more - code.limit ≤ code.limit := by omega
        have back := ih (code.after state next) leftHeld leftFits
        rw [lawful.settled] at back
        rw [split, ← List.replicate_append_replicate, List.append_assoc,
          length_encode_append state lawful.limit_pos (Nat.le_refl _) (.inl rfl)]
        omega
    · refine Nat.le_of_eq (length_encode_append state held fits (.inr fun head => same ?_))
      obtain ⟨more, rfl⟩ := Nat.exists_eq_add_of_lt moreHeld
      rw [List.replicate_succ] at head
      exact Option.some.inj head

/-- No records of an array are shorter than those of its runs. -/
theorem Lawful.length_records_runs_le (lawful : code.Lawful) (state : σ)
    (stretches : List (Stretch α)) (all : ∀ stretch ∈ stretches, IsRun code.limit stretch) :
    (code.encode state (expand stretches)).length ≤ (code.records state stretches).length := by
  induction stretches generalizing state with
  | nil => exact Nat.le_refl _
  | cons stretch stretches ih =>
    obtain ⟨⟨held, fits⟩, all⟩ := List.forall_mem_cons.mp all
    have front := lawful.length_encode_append_le state stretch.1 (expand stretches) held fits
    have back := ih (code.after state stretch.1) all
    rw [records, List.length_append, expand_cons]
    exact Nat.le_trans front (Nat.add_le_add_left back _)

end

/-- Goes on behind a record: the values of it are in, and no more than `length` of them. -/
def onward (code : RunCode σ α) (length : Nat) (loop : Array α → σ → Decoder β) (done : Array α)
    (state : σ) (stretch : Stretch α) : Decoder β :=
  if length < done.size + stretch.2 then throw (.corrupt (.overrun stretch.2 done.size length))
  else loop (done ++ Array.replicate stretch.2 stretch.1) (code.after state stretch.1)

theorem onward_apply (length : Nat) (loop : Array α → σ → Decoder β) (done : Array α) (state : σ)
    (stretch : Stretch α) (input : Bytes) :
    code.onward length loop done state stretch input =
      if length < done.size + stretch.2 then
        .error (.corrupt (.overrun stretch.2 done.size length)) input
      else
        loop (done ++ Array.replicate stretch.2 stretch.1) (code.after state stretch.1) input := by
  rw [onward]
  split <;> rfl

/-- Records that are read one behind the other, by the runs in them. -/
inductive Heads (code : RunCode σ α) : σ → Bytes → List (Stretch α) → Bytes → Prop where
  | nil (state : σ) (input : Bytes) : Heads code state input [] input
  | cons {state : σ} {input middle rest : Bytes} {stretch : Stretch α}
    {stretches : List (Stretch α)} :
    code.head state input = .ok stretch middle →
      Heads code (code.after state stretch.1) middle stretches rest →
        Heads code state input (stretch :: stretches) rest

/-- The loop reads records behind those in `done` until there are `length` values. -/
structure Loops (code : RunCode σ α) (length : Nat) (answer : Array α → σ → β)
    (loop : Array α → σ → Decoder β) : Prop where
  full : ∀ done state, length ≤ done.size → loop done state = pure (answer done state)
  more : ∀ done state, done.size < length → loop done state =
    code.head state >>= code.onward length loop done state

section
variable {length : Nat} {answer : Array α → σ → β} {loop : Array α → σ → Decoder β}

theorem append_expand_cons (done : Array α) (stretch : Stretch α) (stretches : List (Stretch α)) :
    done ++ (expand (stretch :: stretches)).toArray =
      done ++ Array.replicate stretch.2 stretch.1 ++ (expand stretches).toArray := by
  rw [expand_cons, Array.append_assoc, ← List.append_toArray, List.toArray_replicate]

theorem Lawful.behind_expand_cons (lawful : code.Lawful) (state : σ) {stretch : Stretch α}
    (held : 0 < stretch.2) (stretches : List (Stretch α)) :
    code.behind state (expand (stretch :: stretches)) =
      code.behind (code.after state stretch.1) (expand stretches) := by
  rw [← lawful.behind_replicate state stretch.1 held, expand_cons, behind_append]

theorem Loops.takes (loops : code.Loops length answer loop) (lawful : code.Lawful)
    {stretches : List (Stretch α)} (all : ∀ stretch ∈ stretches, IsRun code.limit stretch)
    (done : Array α) (state : σ) (size : done.size + (expand stretches).length = length) :
    Takes (loop done state) ⟨code.records state stretches, none⟩
      (pure (answer (done ++ (expand stretches).toArray)
        (code.behind state (expand stretches)))) := by
  induction stretches generalizing done state with
  | nil =>
    rw [loops.full done state (Nat.le_of_eq size.symm), expand_nil, Array.append_empty]
    exact .nothing
  | cons stretch stretches ih =>
    obtain ⟨⟨held, fits⟩, all⟩ := List.forall_mem_cons.mp all
    rw [expand_cons, List.length_append, List.length_replicate] at size
    have back := ih all (done ++ Array.replicate stretch.2 stretch.1) (code.after state stretch.1)
      (by rw [Array.size_append, Array.size_replicate]; omega)
    rw [loops.more done state (by omega), records, Encoding.mk_append, append_expand_cons,
      lawful.behind_expand_cons state held]
    refine (lawful.takes state stretch ⟨held, fits⟩).bind ?_
    rwa [onward, if_neg (by omega)]

/-- What the loop accepts is a chain of records that hold as many values as there was room for, and
the state in its answer is the one behind these. -/
theorem Loops.heads (loops : code.Loops length answer loop) (lawful : code.Lawful)
    {done : Array α} {state : σ} {input rest : Bytes} {result : β}
    (accepted : loop done state input = .ok result rest) (room : done.size ≤ length) :
    ∃ stretches, code.Heads state input stretches rest ∧
      done.size + (expand stretches).length = length ∧
      result = answer (done ++ (expand stretches).toArray)
        (code.behind state (expand stretches)) := by
  induction left : length - done.size using Nat.strongRecOn
    generalizing done state input with
  | ind left ih =>
    by_cases full : length ≤ done.size
    · rw [loops.full done state full] at accepted
      cases accepted
      refine ⟨[], .nil _ _, Nat.le_antisymm room full, ?_⟩
      rw [expand_nil, Array.append_empty]
      rfl
    · rw [loops.more done state (Nat.lt_of_not_le full)] at accepted
      obtain ⟨stretch, middle, read, followed⟩ := bind_apply_eq_ok_iff.mp accepted
      obtain ⟨⟨held, -⟩, -⟩ := lawful.spelled state input stretch middle read
      rw [onward_apply] at followed
      split at followed
      next => cases followed
      next whole =>
        have grown : (done ++ Array.replicate stretch.2 stretch.1).size =
            done.size + stretch.2 := by
          rw [Array.size_append, Array.size_replicate]
        obtain ⟨stretches, heads, size, answered⟩ :=
          ih (length - (done.size + stretch.2)) (by omega) followed (by omega) (by omega)
        refine ⟨stretch :: stretches, .cons read heads, ?_, ?_⟩
        · rw [expand_cons, List.length_append, List.length_replicate]
          omega
        · rw [append_expand_cons, lawful.behind_expand_cons state held, answered]

/-- The loop accepts every chain of records that there is room for. -/
theorem Heads.accepted {state : σ} {input rest : Bytes} {stretches : List (Stretch α)}
    (heads : code.Heads state input stretches rest) (loops : code.Loops length answer loop)
    (lawful : code.Lawful) (done : Array α)
    (size : done.size + (expand stretches).length = length) :
    loop done state input = .ok (answer (done ++ (expand stretches).toArray)
      (code.behind state (expand stretches))) rest := by
  induction heads generalizing done with
  | nil state input =>
    rw [loops.full done state (Nat.le_of_eq size.symm), expand_nil, Array.append_empty]
    rfl
  | @cons state input middle rest stretch stretches read _ ih =>
    obtain ⟨⟨held, -⟩, -⟩ := lawful.spelled state input stretch middle read
    rw [expand_cons, List.length_append, List.length_replicate] at size
    rw [loops.more done state (by omega), bind_apply_of_ok read, onward_apply, if_neg (by omega),
      append_expand_cons, lawful.behind_expand_cons state held]
    exact ih _ (by rw [Array.size_append, Array.size_replicate]; omega)

theorem Heads.spelled {state : σ} {input rest : Bytes} {stretches : List (Stretch α)}
    (heads : code.Heads state input stretches rest) (lawful : code.Lawful) :
    (∀ stretch ∈ stretches, IsRun code.limit stretch) ∧
      Spelled False input ⟨code.records state stretches, none⟩ rest := by
  induction heads with
  | nil state input => exact ⟨nofun, .nothing⟩
  | cons read _ ih =>
    obtain ⟨run, front⟩ := lawful.spelled _ _ _ _ read
    exact ⟨List.forall_mem_cons.mpr ⟨run, ih.1⟩, front.append ih.2⟩

variable [DecidableEq α]

/-- An array is read back from the records of its runs, with the state behind its values. -/
theorem Loops.takes_encode {values : Array α} (loops : code.Loops values.size answer loop)
    (lawful : code.Lawful) (state : σ) :
    Takes (loop #[] state) ⟨code.encode state values.toList, none⟩
      (pure (answer values (code.behind state values.toList))) := by
  have taken := loops.takes lawful (isRun_of_mem_runs lawful.limit_pos values.toList) #[] state
    (by rw [expand_runs lawful.limit_pos]; exact Nat.zero_add _)
  rwa [expand_runs lawful.limit_pos, Array.empty_append, Array.toArray_toList] at taken

/-- Whatever records are accepted, the answer is an array with the state behind its values, and the
records of its runs are no longer. -/
theorem Loops.spelled_encode (loops : code.Loops length answer loop) (lawful : code.Lawful)
    {state : σ} {input rest : Bytes} {result : β}
    (accepted : loop #[] state input = .ok result rest) :
    ∃ values : Array α, values.size = length ∧
      result = answer values (code.behind state values.toList) ∧
      Spelled False input ⟨code.encode state values.toList, none⟩ rest := by
  obtain ⟨stretches, heads, size, rfl⟩ := loops.heads lawful accepted (Nat.zero_le length)
  obtain ⟨all, spelled⟩ := heads.spelled lawful
  refine ⟨(expand stretches).toArray, ?_, ?_, ?_⟩
  · rw [List.size_toArray]
    exact (Nat.zero_add _).symm.trans size
  · rw [Array.empty_append]
  · exact spelled.shorten (lawful.length_records_runs_le state stretches all)

/-- An array agrees with a reader that keeps the state behind it to itself. -/
theorem Lawful.contents {loop : Nat → Array α → σ → Decoder (Array α)} (lawful : code.Lawful)
    (loops : ∀ length, code.Loops length (fun values _ => values) (loop length)) (state : σ) :
    Contents False Array.size (fun values => ⟨code.encode state values.toList, none⟩)
      (fun length => loop length #[] state) where
  takes values := (loops values.size).takes_encode lawful state
  spelled length input result rest accepted := by
    obtain ⟨values, size, rfl, spelled⟩ := (loops length).spelled_encode lawful accepted
    exact ⟨size, spelled⟩

end

end RunCode

end TableDriven.Binary
