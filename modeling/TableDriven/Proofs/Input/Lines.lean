import Mathlib.Data.List.TakeWhile
import TableDriven.Input.Chars
import TableDriven.Proofs.Input.Offers
import TableDriven.Proofs.Scanner.Fuel

/-! # Lines

The lines of a text, each with its line break, and how they are read.  No byte of another character
is a line break, so the bytes up to a line break spell a line (`exists_line`), and reading a line
takes exactly these, wherever chunks end (`readLine_ok`).
-/

namespace TableDriven

namespace LineSource

/-- The lines of a text with their line breaks; only the last one may lack it. -/
def linesOf : List Char → List (List Char)
  | [] => []
  | char :: text =>
    if char = '\n' then ['\n'] :: linesOf text
    else
      match linesOf text with
      | [] => [[char]]
      | line :: lines => (char :: line) :: lines

theorem flatten_linesOf (text : List Char) : (linesOf text).flatten = text := by
  induction text with
  | nil => rfl
  | cons char text ih =>
    rw [linesOf]
    split
    next newline => rw [List.flatten_cons, ih, newline]; rfl
    next =>
      split
      next none => rw [← ih, none]; rfl
      next line lines found =>
        rw [found] at ih
        rw [← ih]
        rfl

theorem linesOf_append {line : List Char} (unbroken : '\n' ∉ line) (text : List Char) :
    linesOf (line ++ '\n' :: text) = (line ++ ['\n']) :: linesOf text := by
  induction line with
  | nil => exact if_pos rfl
  | cons char line ih =>
    obtain ⟨other, unbroken⟩ := List.ne_and_not_mem_of_not_mem_cons unbroken
    rw [List.cons_append, linesOf, if_neg (Ne.symm other), ih unbroken]
    rfl

theorem linesOf_unbroken {line : List Char} (unbroken : '\n' ∉ line) (some : line ≠ []) :
    linesOf line = [line] := by
  induction line with
  | nil => exact absurd rfl some
  | cons char line ih =>
    obtain ⟨other, unbroken⟩ := List.ne_and_not_mem_of_not_mem_cons unbroken
    rw [linesOf, if_neg (Ne.symm other)]
    cases line with
    | nil => rfl
    | cons next line => rw [ih unbroken (List.cons_ne_nil next line)]

theorem encode_ofList (text : List Char) :
    Text.Utf8.encode (String.ofList text) = text.flatMap String.utf8EncodeChar := by
  simp [Text.Utf8.encode, List.utf8Encode]

theorem newline_not_mem_utf8EncodeChar {char : Char} (other : char ≠ '\n') :
    0x0A ∉ String.utf8EncodeChar char := by
  have number : char.val.toNat ≠ 10 := fun same => other (Char.ext (UInt32.toNat_inj.mp same))
  have differs (code : Nat) (small : code < 256) (ne : code ≠ 10) :
      (0x0A : UInt8) ≠ UInt8.ofNat code := by
    intro same
    have equal := congrArg UInt8.toNat same
    rw [UInt8.toNat_ofNat_of_lt' small] at equal
    exact ne equal.symm
  rw [String.utf8EncodeChar]
  split
  next ascii => simpa using differs _ (by omega) number
  next =>
    split
    next =>
      simp only [List.mem_cons, List.not_mem_nil, or_false, not_or]
      exact ⟨differs _ (by omega) (by omega), differs _ (by omega) (by omega)⟩
    next =>
      split
      next =>
        simp only [List.mem_cons, List.not_mem_nil, or_false, not_or]
        exact ⟨differs _ (by omega) (by omega), differs _ (by omega) (by omega),
          differs _ (by omega) (by omega)⟩
      next =>
        simp only [List.mem_cons, List.not_mem_nil, or_false, not_or]
        exact ⟨differs _ (by omega) (by omega), differs _ (by omega) (by omega),
          differs _ (by omega) (by omega), differs _ (by omega) (by omega)⟩

theorem newline_mem_flatMap {text : List Char} :
    0x0A ∈ text.flatMap String.utf8EncodeChar ↔ '\n' ∈ text := by
  rw [List.mem_flatMap]
  constructor
  · rintro ⟨char, member, byte⟩
    by_cases newline : char = '\n'
    · exact newline ▸ member
    · exact absurd byte (newline_not_mem_utf8EncodeChar newline)
  · intro member
    exact ⟨'\n', member, .head _⟩

/-- The bytes of a text up to a line break are those of its first line. -/
theorem exists_line {text : List Char} {body behind : List UInt8} (unbroken : 0x0A ∉ body)
    (spells : text.flatMap String.utf8EncodeChar = body ++ 0x0A :: behind) :
    ∃ line rest, text = line ++ '\n' :: rest ∧ '\n' ∉ line ∧
      line.flatMap String.utf8EncodeChar = body ∧ rest.flatMap String.utf8EncodeChar = behind := by
  induction text generalizing body with
  | nil => simp at spells
  | cons char text ih =>
    rw [List.flatMap_cons] at spells
    by_cases newline : char = '\n'
    · subst newline
      cases body with
      | nil => exact ⟨[], text, rfl, List.not_mem_nil, rfl, (List.cons.inj spells).2⟩
      | cons byte body =>
        have same : 0x0A = byte := (List.cons.inj spells).1
        exact absurd (same ▸ List.mem_cons_self) unbroken
    · have other := newline_not_mem_utf8EncodeChar newline
      have begins : ∃ later, body = String.utf8EncodeChar char ++ later := by
        obtain ⟨later, same, -⟩ | ⟨inside, same, more⟩ := List.append_eq_append_iff.mp spells
        · exact ⟨later, same⟩
        cases inside with
        | nil => exact ⟨[], by rw [same, List.append_nil, List.append_nil]⟩
        | cons byte inside =>
          have found : byte ∈ String.utf8EncodeChar char :=
            same ▸ List.mem_append_right _ List.mem_cons_self
          exact absurd ((List.cons.inj more).1 ▸ found) other
      obtain ⟨later, rfl⟩ := begins
      rw [List.append_assoc] at spells
      obtain ⟨line, rest, rfl, none, same, follows⟩ :=
        ih (fun member => unbroken (List.mem_append_right _ member))
          (List.append_cancel_left spells)
      refine ⟨char :: line, rest, rfl, ?_, by rw [List.flatMap_cons, same], follows⟩
      exact List.not_mem_cons_of_ne_of_not_mem (Ne.symm newline) none

theorem cut_of_some {bytes line held : List UInt8} (found : cut bytes = some (line, held)) :
    ∃ body, 0x0A ∉ body ∧ line = body ++ [0x0A] ∧ bytes = body ++ 0x0A :: held := by
  rw [cut] at found
  split at found
  next => cases found
  next newline rest same =>
    cases found
    have first : newline = 0x0A := by
      have head := List.head?_dropWhile_not (· ≠ (0x0A : UInt8)) bytes
      rw [same] at head
      simpa using head
    refine ⟨bytes.takeWhile (· ≠ 0x0A), fun member => ?_, by rw [first], ?_⟩
    · simpa using List.mem_takeWhile_imp member
    · conv => lhs; rw [← List.takeWhile_append_dropWhile (p := (· ≠ 0x0A)) (l := bytes)]
      rw [same, first]

theorem cut_of_none {bytes : List UInt8} (none : cut bytes = none) : 0x0A ∉ bytes := by
  rw [cut] at none
  split at none
  next nothing =>
    intro member
    simpa using List.dropWhile_eq_nil_iff.mp nothing 0x0A member
  next => cases none

section
variable {ρ : Type} [Reader ρ]

/-- What is read for a line is the bytes up to the next line break, or all that are left if there is
none. -/
theorem readLine_ok {reader : ρ} {before bytes left : List UInt8} {fuel : Nat}
    {answered : Except IoFault (List UInt8 × List UInt8) × ρ} (unbroken : 0x0A ∉ before)
    (offers : Reader.Offers reader (.ofList left))
    (told : readLine fuel reader before bytes = .ok answered) :
    ∃ line held rest later, answered = (.ok (line, held), rest) ∧
      Reader.Offers rest (.ofList later) ∧
      ((∃ body, 0x0A ∉ body ∧ line = body ++ [0x0A] ∧
          before.reverse ++ bytes ++ left = body ++ 0x0A :: (held ++ later)) ∨
        (0x0A ∉ line ∧ before.reverse ++ bytes ++ left = line ∧ held = [] ∧ later = [])) := by
  induction fuel generalizing reader before bytes left with
  | zero => contradiction
  | succ fuel ih =>
    rw [readLine] at told
    cases found : cut bytes with
    | some pieces =>
      obtain ⟨line, held⟩ := pieces
      rw [found] at told
      cases told
      obtain ⟨body, none, rfl, rfl⟩ := cut_of_some found
      refine ⟨_, held, reader, left, rfl, offers, .inl ⟨before.reverse ++ body, ?_, ?_, ?_⟩⟩
      · rw [List.mem_append, List.mem_reverse]
        exact not_or.mpr ⟨unbroken, none⟩
      · rw [List.append_assoc]
      · simp only [List.append_assoc, List.cons_append]
    | none =>
      rw [found] at told
      have none := cut_of_none found
      have still : 0x0A ∉ bytes.reverse ++ before := by
        rw [List.mem_append, List.mem_reverse]
        exact not_or.mpr ⟨none, unbroken⟩
      obtain ⟨answer, insisted, told⟩ := bind_eq_ok_iff.mp told
      obtain ⟨chunk, rest, rfl, -, begins, ends, goesOn⟩ := offers.insist (by decide) insisted
      rw [Content.take_ofList] at begins
      rw [Content.drop_ofList] at goesOn
      cases chunk with
      | nil =>
        have nothing : left = [] := by simpa using ends rfl
        subst nothing
        cases told
        refine ⟨_, [], rest, [], rfl, goesOn, .inr ⟨?_, ?_, rfl, rfl⟩⟩
        · rwa [List.mem_reverse]
        · simp
      | cons byte chunk =>
        obtain ⟨line, held, last, later, same, offers, cases⟩ := ih still goesOn told
        have whole : before.reverse ++ bytes ++ left =
            (bytes.reverse ++ before).reverse ++ (byte :: chunk) ++
              left.drop (byte :: chunk).length := by
          conv => lhs; rw [← List.take_append_drop (byte :: chunk).length left, begins]
          simp
        rw [whole]
        exact ⟨line, held, last, later, same, offers, cases⟩

/-- A line is read in the end if the reader is never interrupted for ever. -/
theorem exists_readLine {reader : ρ} {before bytes left : List UInt8}
    (responds : Reader.Responds reader) (offers : Reader.Offers reader (.ofList left)) :
    ∃ fuel answered, readLine fuel reader before bytes = .ok answered ∧
      Reader.Responds answered.2 := by
  induction size : left.length using Nat.strongRecOn generalizing reader before bytes left with
  | ind count ih =>
  cases found : cut bytes with
  | some pieces =>
    obtain ⟨line, held⟩ := pieces
    exact ⟨1, (.ok (before.reverse ++ line, held), reader), by rw [readLine, found], responds⟩
  | none =>
    have free : 0 < readAhead := by decide
    obtain ⟨fuel, answer, rest, insisted, responds⟩ := responds.insist free
    obtain ⟨chunk, rest, same, -, begins, ends, goesOn⟩ := offers.insist free insisted
    cases same
    cases chunk with
    | nil =>
      refine ⟨fuel + 1, (.ok ((bytes.reverse ++ before).reverse, []), rest), ?_, responds⟩
      rw [readLine, found]
      simp only [insisted, ok_bind]
      rfl
    | cons byte chunk =>
      rw [Content.take_ofList] at begins
      rw [Content.drop_ofList] at goesOn
      have some : 0 < left.length := by
        have shorter := congrArg List.length begins
        rw [List.length_take, List.length_cons] at shorter
        omega
      have fewer : (left.drop (byte :: chunk).length).length < count := by
        rw [List.length_drop, List.length_cons]
        omega
      obtain ⟨more, answered, read, responds⟩ := @ih _ fewer rest (bytes.reverse ++ before)
        (byte :: chunk) _ responds goesOn rfl
      refine ⟨max fuel more + 1, answered, ?_, responds⟩
      rw [readLine, found]
      simp only [Reader.insist_mono insisted (Nat.le_max_left fuel more), ok_bind]
      exact readLine_mono read (Nat.le_max_right fuel more)

end

end LineSource

end TableDriven
