import TableDriven.Proofs.Binary.Form

/-! # Refusals

What a value is written with are lengths and counts, each with a limit, and for single bytes its
characters.  A writer refuses exactly the values that exceed a limit or hold a character too wide.
It checks before it writes: of a value without rows it writes all or nothing, of rows those before
the first that is refused, behind their number (`Form.Rows`).  So what is stored of a series of
values some of which are refused reads back as the others.
-/

namespace TableDriven.Binary

open TableDriven.Text

/-- A length or count, and the most that its form has room for. -/
structure Measure where
  size : Nat
  limit : Nat
  deriving DecidableEq, Inhabited

namespace Measure

def isKept (measure : Measure) : Bool := measure.size ≤ measure.limit

def ofLength (length : Nat) : Measure := ⟨length, longLengthMax⟩

def ofUtf (text : String) : Measure := ⟨(Utf8.encode text).length, utfLengthMax⟩

/-- The number of rows and then the measures of the rows. -/
def ofRows (row : α → Measure) (rows : Array α) : List Measure :=
  ofLength rows.size :: rows.toList.map row

end Measure

namespace Form

/-- The lengths and counts that a value is written with, in their order. -/
def measures : (form : Form) → form.Value → List Measure
  | word _ => fun _ => []
  | bytes _ => fun _ => []
  | count _ => fun count => [⟨count, countMax⟩]
  | length => fun length => (length.map .ofLength).toList
  | requiredLength _ => fun length => [.ofLength length]
  | array _ => fun values => (values.map fun values => .ofLength values.size).toList
  | array2d _ => fun rows => rows.elim [] (Measure.ofRows fun row => .ofLength row.size)
  | utf => fun text => [.ofUtf text]
  | byteString => fun text => (text.map fun text => .ofLength text.toList.length).toList
  | charString => fun text => (text.map fun text => .ofLength (utf16Of text).size).toList
  | strings => fun texts => texts.elim [] (Measure.ofRows .ofUtf)
  | bools => fun values => (values.map fun values => .ofLength values.size).toList
  | smalls => fun values => (values.map fun values => .ofLength values.size).toList
  | shorts => fun values => (values.map fun values => .ofLength values.size).toList
  | signedShorts => fun values => (values.map fun values => .ofLength values.size).toList
  | bools2d => fun rows => rows.elim [] (Measure.ofRows fun row => .ofLength row.size)
  | smalls2d => fun rows => rows.elim [] (Measure.ofRows fun row => .ofLength row.size)
  | shorts2d => fun rows => rows.elim [] (Measure.ofRows fun row => .ofLength row.size)

/-- The first character of a text in single bytes that does not fit one. -/
def wide : (form : Form) → form.Value → Option Char
  | byteString => fun text => text.bind fun text => text.toList.find? fun char => 0xFF < char.toNat
  | _ => fun _ => none

/-- Whether a value has a spelling in the form. -/
def fits (form : Form) (value : form.Value) : Bool :=
  (form.wide value).isNone && (form.measures value).all Measure.isKept

/-- Whether the values of the form are rows or texts with measures of their own. -/
def isNested : Form → Bool
  | array2d _ | strings | bools2d | smalls2d | shorts2d => true
  | _ => false

/-- The first `rows` of the rows of a value that has some. -/
def cut (rows : Nat) : (form : Form) → form.Value → form.Value
  | array2d _ => Option.map (Array.take · rows)
  | strings => Option.map (Array.take · rows)
  | bools2d => Option.map (Array.take · rows)
  | smalls2d => Option.map (Array.take · rows)
  | shorts2d => Option.map (Array.take · rows)
  | _ => id

/-- Why a value has no spelling in the form: the character that is too wide, or a measure that
exceeds its limit. -/
inductive Refuses (form : Form) (value : form.Value) : CodecFault → Prop where
  | unencodable {char : Char} : form.wide value = some char →
    Refuses form value (.unencodable char)
  | tooLong {measure : Measure} : measure ∈ form.measures value → measure.isKept = false →
    Refuses form value (.tooLong measure.size)

end Form

/-! ## Parts that keep to a limit -/

/-- The encoding is in full if the measure keeps to its limit, and else nothing but a refusal. -/
inductive Guards (measure : Measure) : Encoding → Prop where
  | whole {bytes : Bytes} : measure.isKept = true → Guards measure ⟨bytes, none⟩
  | refused : measure.isKept = false → Guards measure (.refuse (.tooLong measure.size))

theorem guards_length (length : Nat) : Guards (.ofLength length) (writeLength (some length)) := by
  rw [writeLength]
  split
  next short =>
    have below : shortLengthMax ≤ longLengthMax := by decide
    exact .whole (decide_eq_true (Nat.le_trans short below))
  next =>
    split
    next kept => exact .whole (decide_eq_true kept)
    next exceeds => exact .refused (decide_eq_false exceeds)

theorem exists_writeLength {length : Nat} (fits : length ≤ longLengthMax) :
    ∃ bytes, writeLength (some length) = ⟨bytes, none⟩ := by
  have guards := guards_length length
  generalize writeLength (some length) = written at guards
  cases guards with
  | @whole bytes _ => exact ⟨bytes, rfl⟩
  | refused exceeds => exact absurd fits (of_decide_eq_false exceeds)

theorem guards_count (count : Nat) : Guards ⟨count, countMax⟩ (writeCount count) := by
  rw [writeCount]
  split
  next kept => exact .whole (decide_eq_true kept)
  next exceeds => exact .refused (decide_eq_false exceeds)

theorem guards_utf (text : String) : Guards (.ofUtf text) (writeUtf text) := by
  rw [writeUtf]
  split
  next kept => exact .whole (decide_eq_true kept)
  next exceeds => exact .refused (decide_eq_false exceeds)

/-- What stands behind a part and is in full makes one part with it. -/
theorem Guards.append {measure : Measure} {first : Encoding} (guards : Guards measure first)
    (content : Bytes) : Guards measure (first ++ ⟨content, none⟩) := by
  cases guards with
  | whole kept => exact .whole kept
  | refused exceeds => exact .refused exceeds

theorem guards_measured {size : α → Nat} {content : α → Encoding} {value : α}
    (whole : (content value).refusal = none) :
    Guards (.ofLength (size value)) (writeMeasured size content (some value)) := by
  have split : content value = ⟨(content value).bytes, none⟩ := by rw [← whole]
  rw [writeMeasured, split]
  exact (guards_length (size value)).append _

/-- A measure and what is written under it. -/
abbrev Part := Measure × Encoding

/-- Of parts one behind the other, those before the first that exceeds its limit are in full, and it
ends them. -/
theorem concat_guards {parts : List Part} (guards : ∀ part ∈ parts, Guards part.1 part.2) :
    ∃ bytes, Encoding.concat (parts.map Prod.snd) =
        ⟨bytes, ((parts.map Prod.fst).find? fun measure => !measure.isKept).map fun measure =>
          .tooLong measure.size⟩ ∧
      Encoding.concat ((parts.map Prod.snd).take
        ((parts.map Prod.fst).takeWhile Measure.isKept).length) = ⟨bytes, none⟩ := by
  induction parts with
  | nil => exact ⟨[], rfl, rfl⟩
  | cons part parts ih =>
    obtain ⟨measure, encoding⟩ := part
    obtain ⟨guard, guards⟩ := List.forall_mem_cons.mp guards
    obtain ⟨behind, whole, front⟩ := ih guards
    change Guards measure encoding at guard
    simp only [List.map_cons, Encoding.concat_cons]
    cases guard with
    | @whole bytes kept =>
      refine ⟨bytes ++ behind, ?_, ?_⟩
      · rw [whole, List.find?_cons_of_neg (by simp [kept])]
        rfl
      · rw [List.takeWhile_cons_of_pos kept, List.length_cons, List.take_succ_cons,
          Encoding.concat_cons, front]
        rfl
    | refused exceeds =>
      refine ⟨[], ?_, ?_⟩
      · rw [List.find?_cons_of_pos (by simp [exceeds])]
        rfl
      · rw [List.takeWhile_cons_of_neg (by simp [exceeds])]
        rfl

namespace Form

/-- Written in full if it fits, and else refused before anything of it is written. -/
def WritesAtOnce (form : Form) (value : form.Value) : Prop :=
  (form.fits value = true ∧ (form.write value).refusal = none) ∨
    (form.fits value = false ∧ ∃ cause, form.Refuses value cause ∧
      form.write value = .refuse cause)

/-- A value that is refused for its one measure at most. -/
theorem writesAtOnce_of_guards {form : Form} {value : form.Value} {measure : Measure}
    (only : form.measures value = [measure]) (narrow : form.wide value = none)
    (guards : Guards measure (form.write value)) : form.WritesAtOnce value := by
  have same : form.fits value = measure.isKept := by
    rw [fits, only, narrow]
    exact Bool.and_true _
  rw [WritesAtOnce, same]
  generalize wrote : form.write value = written at guards
  cases guards with
  | whole kept => exact .inl ⟨kept, rfl⟩
  | refused exceeds =>
    exact .inr ⟨exceeds, _, .tooLong (only ▸ List.mem_singleton_self _) exceeds, rfl⟩

theorem writesAtOnce_byteString (text : String) : byteString.WritesAtOnce (some text) := by
  cases found : text.toList.find? fun char => 0xFF < char.toNat with
  | none =>
    have narrow : IsNarrow text.toList := by
      intro char member
      simpa using List.find?_eq_none.mp found char member
    refine writesAtOnce_of_guards rfl found ?_
    change Guards _ (writeByteString (some text))
    rw [writeByteString_of_narrow narrow]
    exact guards_measured rfl
  | some char =>
    have wide : byteString.wide (some text) = some char := found
    have unfit : byteString.fits (some text) = false := by
      change ((byteString.wide (some text)).isNone && _) = false
      rw [wide]
      rfl
    refine .inr ⟨unfit, _, .unencodable wide, ?_⟩
    change writeByteString (some text) = _
    simp only [writeByteString, Option.bind_some, found]

theorem write_plain {form : Form} (plain : form.isNested = false) (value : form.Value) :
    form.WritesAtOnce value := by
  cases form with
  | word type => exact .inl ⟨rfl, rfl⟩
  | bytes size => exact .inl ⟨rfl, rfl⟩
  | count what => exact writesAtOnce_of_guards rfl rfl (guards_count value)
  | length =>
    cases value with
    | none => exact .inl ⟨rfl, rfl⟩
    | some length => exact writesAtOnce_of_guards rfl rfl (guards_length length)
  | requiredLength what => exact writesAtOnce_of_guards rfl rfl (guards_length value)
  | utf => exact writesAtOnce_of_guards rfl rfl (guards_utf value)
  | byteString =>
    cases value with
    | none => exact .inl ⟨rfl, rfl⟩
    | some text => exact writesAtOnce_byteString text
  | array type =>
    cases value with
    | none => exact .inl ⟨rfl, rfl⟩
    | some values => exact writesAtOnce_of_guards rfl rfl (guards_measured rfl)
  | charString =>
    cases value with
    | none => exact .inl ⟨rfl, rfl⟩
    | some text => exact writesAtOnce_of_guards rfl rfl (guards_measured rfl)
  | bools =>
    cases value with
    | none => exact .inl ⟨rfl, rfl⟩
    | some values => exact writesAtOnce_of_guards rfl rfl (guards_measured rfl)
  | smalls =>
    cases value with
    | none => exact .inl ⟨rfl, rfl⟩
    | some values => exact writesAtOnce_of_guards rfl rfl (guards_measured rfl)
  | shorts =>
    cases value with
    | none => exact .inl ⟨rfl, rfl⟩
    | some values => exact writesAtOnce_of_guards rfl rfl (guards_measured rfl)
  | signedShorts =>
    cases value with
    | none => exact .inl ⟨rfl, rfl⟩
    | some values =>
      have size : Measure.ofLength values.size = Measure.ofLength (unsigned values).size :=
        congrArg Measure.ofLength (Array.size_map).symm
      exact writesAtOnce_of_guards (congrArg (fun measure => [measure]) size) rfl
        (guards_measured rfl)
  | array2d | strings | bools2d | smalls2d | shorts2d => cases plain

end Form

/-! ## Rows -/

/-- Rows are written part by part, each under its own measure, and the first of them are written as
they would be alone. -/
structure Rowwise (row : α → Measure) (content : Array α → Encoding)
    (parts : List α → List Part) : Prop where
  content_eq : ∀ rows, content rows = .concat ((parts rows.toList).map Prod.snd)
  measured : ∀ rows, (parts rows).map Prod.fst = rows.map row
  guards : ∀ rows, ∀ part ∈ parts rows, Guards part.1 part.2
  first : ∀ rows count, parts (rows.take count) = (parts rows).take count

theorem rowwise_map {row : α → Measure} {write : α → Encoding}
    (guards : ∀ value, Guards (row value) (write value)) :
    Rowwise row (writeRows write) (List.map fun value => (row value, write value)) where
  content_eq rows := by
    rw [writeRows, List.map_map]
    rfl
  measured rows := by
    rw [List.map_map]
    rfl
  guards rows part member := by
    obtain ⟨value, -, rfl⟩ := List.mem_map.mp member
    exact guards value
  first rows count := List.map_take

def shortParts (escape : Escape) : List (Array UInt16) → List Part
  | [] => []
  | row :: rows =>
    (.ofLength row.size,
      writeLength (some row.size) ++ ⟨shortCode.encode escape row.toList, none⟩) ::
        shortParts (shortCode.behind escape row.toList) rows

theorem rowwise_shortParts :
    Rowwise (fun row => .ofLength row.size) writeShortRows (shortParts .initial) where
  content_eq rows := by
    rw [writeShortRows_eq]
    generalize Escape.initial = escape
    induction rows.toList generalizing escape with
    | nil => rfl
    | cons row rows ih => rw [shortRows, ih]; rfl
  measured rows := by
    generalize Escape.initial = escape
    induction rows generalizing escape with
    | nil => rfl
    | cons row rows ih => rw [shortParts, List.map_cons, ih, List.map_cons]
  guards rows := by
    generalize Escape.initial = escape
    induction rows generalizing escape with
    | nil => exact List.forall_mem_nil _
    | cons row rows ih =>
      exact List.forall_mem_cons.mpr ⟨(guards_length row.size).append _, ih _⟩
  first rows count := by
    generalize Escape.initial = escape
    induction rows generalizing escape count with
    | nil => rw [List.take_nil, shortParts, List.take_nil]
    | cons row rows ih =>
      cases count with
      | zero => rfl
      | succ count => rw [List.take_succ_cons, shortParts, ih, shortParts, List.take_succ_cons]

namespace Form

/-- A value is its number of rows and behind it the parts of the rows. -/
structure IsRows (form : Form) (value : form.Value) (parts : List Part) : Prop where
  measures : form.measures value = .ofLength parts.length :: parts.map Prod.fst
  narrow : form.wide value = none
  guards : ∀ part ∈ parts, Guards part.1 part.2
  write : form.write value = writeLength (some parts.length) ++ .concat (parts.map Prod.snd)
  cut : ∀ count, form.write (form.cut count value) =
    writeLength (some (parts.take count).length) ++ .concat ((parts.map Prod.snd).take count)

theorem isRows {form : Form} {value : form.Value} {row : α → Measure} {content : Array α → Encoding}
    {parts : List α → List Part} {rows : Array α} (rowwise : Rowwise row content parts)
    (measures : form.measures value = Measure.ofRows row rows) (narrow : form.wide value = none)
    (write : form.write value = writeMeasured Array.size content (some rows))
    (cut : ∀ count, form.write (form.cut count value) =
      writeMeasured Array.size content (some (rows.take count))) :
    form.IsRows value (parts rows.toList) := by
  have number (rows : List α) : (parts rows).length = rows.length := by
    have mapped := congrArg List.length (rowwise.measured rows)
    rwa [List.length_map, List.length_map] at mapped
  have written (rows : Array α) : writeMeasured Array.size content (some rows) =
      writeLength (some (parts rows.toList).length) ++
        .concat ((parts rows.toList).map Prod.snd) := by
    rw [number, Array.length_toList, ← rowwise.content_eq]
    rfl
  constructor
  · rw [measures, rowwise.measured, number, Array.length_toList]
    rfl
  · exact narrow
  · exact rowwise.guards rows.toList
  · rw [write, written]
  · intro count
    have first : (rows.take count).toList = rows.toList.take count := by simp
    rw [cut, written, first, rowwise.first, List.map_take]

/-- A value that may have rows is null, or its rows. -/
theorem null_or_rows {form : Form} (nested : form.isNested = true) (value : form.Value) :
    (form.fits value = true ∧ (form.write value).refusal = none) ∨
      ∃ parts, form.IsRows value parts := by
  have length {α : Type} (row : Array α) {content : Array α → Encoding}
      (whole : (content row).refusal = none) :
      Guards (.ofLength row.size) (writeMeasured Array.size content (some row)) :=
    guards_measured whole
  cases form with
  | array2d type =>
    cases value with
    | none => exact .inl ⟨rfl, rfl⟩
    | some rows =>
      exact .inr ⟨_, isRows (rowwise_map fun row => length row rfl) rfl rfl rfl fun _ => rfl⟩
  | strings =>
    cases value with
    | none => exact .inl ⟨rfl, rfl⟩
    | some texts => exact .inr ⟨_, isRows (rowwise_map guards_utf) rfl rfl rfl fun _ => rfl⟩
  | bools2d =>
    cases value with
    | none => exact .inl ⟨rfl, rfl⟩
    | some rows =>
      exact .inr ⟨_, isRows (rowwise_map fun row => length row rfl) rfl rfl rfl fun _ => rfl⟩
  | smalls2d =>
    cases value with
    | none => exact .inl ⟨rfl, rfl⟩
    | some rows =>
      exact .inr ⟨_, isRows (rowwise_map fun row => length row rfl) rfl rfl rfl fun _ => rfl⟩
  | shorts2d =>
    cases value with
    | none => exact .inl ⟨rfl, rfl⟩
    | some rows => exact .inr ⟨_, isRows rowwise_shortParts rfl rfl rfl fun _ => rfl⟩
  | word _ | bytes _ | count _ | length | requiredLength _ | array _ | utf | byteString | charString
  | bools | smalls | shorts | signedShorts => cases nested

/-- What a refused value with rows leaves behind: nothing if it has too many rows, and else their
number and the rows before the first that exceeds its limit, which stand behind it as they would
alone. -/
inductive Leaves (form : Form) (value : form.Value) : Bytes → Prop where
  | nothing {number : Measure} {rows : List Measure} :
    form.measures value = number :: rows → number.isKept = false → Leaves form value []
  | rows {number : Measure} {rows : List Measure} {front alone whole : Bytes} :
    form.measures value = number :: rows → number.isKept = true →
    (rows.takeWhile Measure.isKept).length < rows.length →
    (writeLength (some number.size)).toExcept = .ok front →
    (writeLength (some (rows.takeWhile Measure.isKept).length)).toExcept = .ok alone →
    (form.write (form.cut (rows.takeWhile Measure.isKept).length value)).toExcept =
      .ok (alone ++ whole) →
    Leaves form value (front ++ whole)

theorem find?_exceeds {measures : List Measure} (fits : measures.all Measure.isKept = false) :
    ∃ measure ∈ measures, measure.isKept = false ∧
      (measures.find? fun measure => !measure.isKept) = some measure ∧
      (measures.takeWhile Measure.isKept).length < measures.length := by
  induction measures with
  | nil => cases fits
  | cons measure measures ih =>
    cases kept : measure.isKept with
    | false =>
      refine ⟨measure, List.mem_cons_self, kept, List.find?_cons_of_pos (by simp [kept]), ?_⟩
      rw [List.takeWhile_cons_of_neg (by simp [kept])]
      exact Nat.succ_pos _
    | true =>
      rw [List.all_cons, kept, Bool.true_and] at fits
      obtain ⟨found, member, exceeds, same, fewer⟩ := ih fits
      refine ⟨found, List.mem_cons_of_mem _ member, exceeds, ?_, ?_⟩
      · rw [List.find?_cons_of_neg (by simp [kept]), same]
      · rw [List.takeWhile_cons_of_pos kept]
        exact Nat.succ_lt_succ fewer

/-- Rows one of which exceeds its limit are written up to that one. -/
theorem IsRows.leaves {form : Form} {value : form.Value} {parts : List Part}
    (rows : form.IsRows value parts) (number : parts.length ≤ longLengthMax)
    (exceeded : (parts.map Prod.fst).all Measure.isKept = false) :
    ∃ cause left, form.Refuses value cause ∧ form.Leaves value left ∧
      form.write value = ⟨left, some cause⟩ := by
  obtain ⟨measure, member, exceeds, found, fewer⟩ := find?_exceeds exceeded
  obtain ⟨bytes, whole, complete⟩ := concat_guards rows.guards
  have cut := rows.cut ((parts.map Prod.fst).takeWhile Measure.isKept).length
  have less := Nat.le_of_lt (Nat.lt_of_lt_of_eq fewer (List.length_map _))
  obtain ⟨front, outer⟩ := exists_writeLength number
  obtain ⟨alone, inner⟩ := exists_writeLength (Nat.le_trans less number)
  rw [complete, List.length_take, Nat.min_eq_left less, inner] at cut
  refine ⟨.tooLong measure.size, front ++ bytes, .tooLong ?_ exceeds, ?_, ?_⟩
  · rw [rows.measures]
    exact List.mem_cons_of_mem _ member
  · exact .rows rows.measures (decide_eq_true number) fewer (congrArg Encoding.toExcept outer)
      (congrArg Encoding.toExcept inner) (congrArg Encoding.toExcept cut)
  · rw [rows.write, outer, whole, found]
    rfl

/-- A value with rows is written in full if it fits, and else up to the row that exceeds its
limit. -/
theorem write_rows {form : Form} (nested : form.isNested = true) (value : form.Value) :
    (form.fits value = true ∧ (form.write value).refusal = none) ∨
      (form.fits value = false ∧ ∃ cause left, form.Refuses value cause ∧
        form.Leaves value left ∧ form.write value = ⟨left, some cause⟩) := by
  obtain null | ⟨parts, rows⟩ := null_or_rows nested value
  · exact .inl null
  have fits : form.fits value =
      ((Measure.ofLength parts.length).isKept && (parts.map Prod.fst).all Measure.isKept) := by
    rw [Form.fits, rows.narrow, rows.measures]
    rfl
  rw [fits]
  cases kept : (Measure.ofLength parts.length).isKept with
  | false =>
    have outer : writeLength (some parts.length) = .refuse (.tooLong parts.length) := by
      have guards := guards_length parts.length
      generalize writeLength (some parts.length) = written at guards
      cases guards with
      | whole fits => rw [kept] at fits; cases fits
      | refused exceeds => rfl
    refine .inr ⟨rfl, _, [], .tooLong ?_ kept, .nothing rows.measures kept, ?_⟩
    · rw [rows.measures]
      exact List.mem_cons_self
    · rw [rows.write, outer]
      rfl
  | true =>
    have number : parts.length ≤ longLengthMax := of_decide_eq_true kept
    cases every : (parts.map Prod.fst).all Measure.isKept with
    | false => exact .inr ⟨rfl, rows.leaves number every⟩
    | true =>
      have none : ((parts.map Prod.fst).find? fun measure => !measure.isKept) = none := by
        simpa using every
      obtain ⟨bytes, whole, -⟩ := concat_guards rows.guards
      obtain ⟨front, outer⟩ := exists_writeLength number
      refine .inl ⟨rfl, ?_⟩
      rw [rows.write, outer, whole, none]
      rfl

end Form

def Item.fits (item : Item) : Bool := item.form.fits item.value

namespace Sink

/-- Stores what can be stored of each item, and says which were stored in full. -/
def storeEach : Sink → List Item → List Item × Sink
  | sink, [] => ([], sink)
  | sink, item :: items =>
    match sink.absorb (item.form.write item.value) with
    | (none, after) => (item :: (after.storeEach items).1, (after.storeEach items).2)
    | (some _, after) => after.storeEach items

theorem absorb_endless (stored : Bytes) (encoding : Encoding) :
    (⟨stored, none⟩ : Sink).absorb encoding =
      (encoding.refusal, ⟨stored ++ encoding.bytes, none⟩) := by
  rw [absorb]
  exact if_pos (Nat.le_refl _)

end Sink

/-- What is stored of each of a series of items is what is stored of those that fit, and these are
read back. -/
theorem storeEach_eq {items : List Item}
    (whole : ∀ item ∈ items, item.form.isNested = true → item.fits = true) (stored : Bytes) :
    ∃ bytes, (⟨stored, none⟩ : Sink).storeEach items =
        (items.filter Item.fits, ⟨stored ++ bytes, none⟩) ∧
      (Encoding.concat ((items.filter Item.fits).map fun item =>
        item.form.write item.value)).toExcept = .ok bytes := by
  induction items generalizing stored with
  | nil => exact ⟨[], by rw [Sink.storeEach, List.append_nil]; rfl, rfl⟩
  | cons item items ih =>
    obtain ⟨first, whole⟩ := List.forall_mem_cons.mp whole
    rw [Sink.storeEach, Sink.absorb_endless]
    have written : (item.fits = true ∧ (item.form.write item.value).refusal = none) ∨
        (item.fits = false ∧ ∃ cause, item.form.write item.value = .refuse cause) := by
      cases nested : item.form.isNested with
      | false =>
        obtain fits | ⟨misfits, cause, -, refused⟩ := Form.write_plain nested item.value
        · exact .inl fits
        · exact .inr ⟨misfits, cause, refused⟩
      | true =>
        obtain fits | ⟨misfits, -⟩ := Form.write_rows nested item.value
        · exact .inl fits
        · exact absurd (first nested) (Bool.eq_false_iff.mp misfits)
    obtain ⟨fits, accepted⟩ | ⟨misfits, cause, refused⟩ := written
    · obtain ⟨bytes, same, back⟩ := ih whole (stored ++ (item.form.write item.value).bytes)
      refine ⟨(item.form.write item.value).bytes ++ bytes, ?_, ?_⟩
      · rw [accepted, List.filter_cons_of_pos fits, ← List.append_assoc]
        simp only [same]
      · rw [List.filter_cons_of_pos fits]
        exact Encoding.toExcept_append_eq_ok_iff.mpr
          ⟨_, bytes, Encoding.toExcept_of_unrefused accepted, back, rfl⟩
    · obtain ⟨bytes, same, back⟩ := ih whole stored
      refine ⟨bytes, ?_, ?_⟩
      · rw [refused, List.filter_cons_of_neg (by simp [misfits])]
        change Sink.storeEach ⟨stored ++ [], none⟩ items = _
        rw [List.append_nil, same]
      · rwa [List.filter_cons_of_neg (by simp [misfits])]

/-- A sink that takes any number of bytes refuses a value exactly if it exceeds a limit of its form,
and names that limit or the character that is too wide.  A refused value without rows leaves the
sink as it was, and refused rows leave their number and the rows before the refused one behind.  So
of a series of values whose rows are not refused, the accepted ones are read back. -/
theorem refusals (sink : Sink) (endless : sink.capacity = none) :
    (∀ item : Item,
      ((sink.absorb (item.form.write item.value)).1 = none ↔ item.fits = true) ∧
      (∀ cause, (sink.absorb (item.form.write item.value)).1 = some cause →
        item.form.Refuses item.value cause) ∧
      (item.fits = false → item.form.isNested = false →
        (sink.absorb (item.form.write item.value)).2 = sink) ∧
      (item.fits = false → item.form.isNested = true →
        ∃ left, item.form.Leaves item.value left ∧
          (sink.absorb (item.form.write item.value)).2 =
            { sink with stored := sink.stored ++ left })) ∧
    ∀ items : List Item, (∀ item ∈ items, item.form.isNested = true → item.fits = true) →
      ∃ bytes, sink.storeEach items =
          (items.filter Item.fits, { sink with stored := sink.stored ++ bytes }) ∧
        ∀ behind, readItems ((items.filter Item.fits).map Item.form) (bytes ++ behind) =
          .ok (items.filter Item.fits) behind := by
  obtain ⟨stored, capacity⟩ := sink
  cases endless
  refine ⟨fun item => ?_, fun items whole => ?_⟩
  · rw [Sink.absorb_endless]
    cases nested : item.form.isNested with
    | false =>
      obtain ⟨fits, written⟩ | ⟨misfits, cause, refuses, refused⟩ :=
        Form.write_plain nested item.value
      · rw [written, Item.fits, fits]
        exact ⟨by simp, nofun, nofun, nofun⟩
      · rw [refused, Item.fits, misfits]
        refine ⟨by simp [Encoding.refuse], fun other same => ?_, fun _ _ => ?_, nofun⟩
        · cases same
          exact refuses
        · exact congrArg (Sink.mk · none) (List.append_nil stored)
    | true =>
      obtain ⟨fits, written⟩ | ⟨misfits, cause, left, refuses, leaves, refused⟩ :=
        Form.write_rows nested item.value
      · rw [written, Item.fits, fits]
        exact ⟨by simp, nofun, nofun, nofun⟩
      · rw [refused, Item.fits, misfits]
        refine ⟨by simp, fun other same => ?_, nofun, fun _ _ => ⟨left, leaves, rfl⟩⟩
        cases same
        exact refuses
  · obtain ⟨bytes, same, written⟩ := storeEach_eq whole stored
    exact ⟨bytes, same, (takes_items _).whole bytes written⟩

/-- A text that no single bytes spell, a count and a length that are too large, and values in
between that fit. -/
def mixed : List Item :=
  [⟨.byteString, some "€"⟩, ⟨.shorts2d, some #[#[0x8100, 0x8100], #[0x81]]⟩,
    ⟨.count "states", (0x80000000 : Nat)⟩, ⟨.byteString, some "é"⟩,
    ⟨.length, some (0x7FFF0000 : Nat)⟩, ⟨.strings, some #["", "€"]⟩]

/-- Two rows, the first of which fits. -/
def before (row : Array UInt8) : Option (Array (Array UInt8)) := some #[#[1, 2], row]

def oversized : Array UInt8 := Array.replicate 0x7FFF0000 0

theorem refusals_mixed :
    mixed.map Item.fits = [false, true, false, true, false, true] ∧
    (∃ bytes, ((Sink.empty none).storeEach mixed) = (mixed.filter Item.fits, ⟨bytes, none⟩) ∧
      ∀ behind, readItems ((mixed.filter Item.fits).map Item.form) (bytes ++ behind) =
        .ok (mixed.filter Item.fits) behind) ∧
    ∃ left, (Form.array2d .u8).Leaves (before oversized) left ∧
      ((Sink.empty none).absorb (writeArray2d (before oversized))).2 = ⟨left, none⟩ := by
  obtain ⟨each, series⟩ := refusals (.empty none) rfl
  have misfits (row : Array UInt8) (long : longLengthMax < row.size) :
      Item.fits ⟨.array2d .u8, before row⟩ = false := by
    have exceeded : (Measure.ofLength row.size).isKept = false :=
      decide_eq_false (Nat.not_le_of_lt long)
    change (true && ((Measure.ofLength 2).isKept &&
      ((Measure.ofLength 2).isKept && ((Measure.ofLength row.size).isKept && true)))) = false
    rw [exceeded]
    decide
  have large : Item.fits ⟨.array2d .u8, before oversized⟩ = false :=
    misfits _ (by rw [oversized, Array.size_replicate]; decide)
  refine ⟨by decide +kernel, ?_, ?_⟩
  · obtain ⟨bytes, same, back⟩ := series mixed (by decide +kernel)
    exact ⟨bytes, same, back⟩
  · exact (each ⟨.array2d .u8, before oversized⟩).2.2.2 large rfl

end TableDriven.Binary
