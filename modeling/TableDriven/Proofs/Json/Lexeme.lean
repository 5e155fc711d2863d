import Mathlib.Tactic.IntervalCases
import TableDriven.Json.Lexeme

/-! # Lexemes that were written are read

Reading the bytes of lexemes gives these lexemes, if no number is followed by another number or a
word (`ofBytes?_render`).  A number is still open behind its last byte, so `Lexer.after` says where
reading stands behind lexemes, the newest first, and the invariant goes from each to the next.
-/

namespace TableDriven.Json

open TableDriven.Text

namespace Lexer

variable {lexer : Lexer} {done : List Lexeme}

/-- Reads some bytes. -/
def read (lexer : Lexer) (bytes : List UInt8) : Option Lexer := bytes.foldlM step lexer

theorem read_append (lexer : Lexer) (first second : List UInt8) :
    lexer.read (first ++ second) = (lexer.read first).bind fun next => next.read second :=
  List.foldlM_append

theorem read_cons (lexer : Lexer) (byte : UInt8) (rest : List UInt8) :
    lexer.read (byte :: rest) = (lexer.step byte).bind fun next => next.read rest :=
  rfl

theorem read_singleton (lexer : Lexer) (byte : UInt8) : lexer.read [byte] = lexer.step byte := by
  rw [read_cons]
  cases lexer.step byte <;> rfl

end Lexer

/-- The decimal digits of a number. -/
def decimal (number : Nat) : List UInt8 :=
  (Nat.toDigits 10 number).map fun char => UInt8.ofNat char.toNat

theorem ascii_toString_ofNat (number : Nat) : ascii (toString (number : Int)) = decimal number :=
  congrArg (List.map _) Nat.toList_repr

theorem ascii_toString_negSucc (number : Nat) :
    ascii (toString (Int.negSucc number)) = 0x2D :: decimal (number + 1) := by
  have signed : toString (Int.negSucc number) = "-" ++ (number + 1).repr := rfl
  rw [signed, ascii, String.toList_append, List.map_append, Nat.toList_repr]
  rfl

theorem decimal_of_ten_le {number : Nat} (large : 10 ≤ number) :
    decimal number = decimal (number / 10) ++
      [UInt8.ofNat (Nat.digitChar (number % 10)).toNat] := by
  rw [decimal, Nat.toDigits_of_base_le (by decide) large, List.map_append]
  rfl

theorem digit?_digitChar {digit : Nat} (small : digit < 10) :
    digit? (UInt8.ofNat digit.digitChar.toNat) = some digit := by
  revert digit
  decide

/-- The digits of a positive number are read from wherever its first digit opens a number. -/
theorem read_decimal {first : Lexer} {done : List Lexeme} {negative : Bool}
    (opens : ∀ digit, 0 < digit → digit < 10 →
      first.step (UInt8.ofNat digit.digitChar.toNat) = some ⟨done, .number .digits negative digit⟩)
    {number : Nat} (positive : 0 < number) :
    first.read (decimal number) = some ⟨done, .number .digits negative number⟩ := by
  induction number using Nat.strongRecOn with
  | ind number ih =>
    by_cases small : number < 10
    · have single : decimal number = [UInt8.ofNat number.digitChar.toNat] := by
        rw [decimal, Nat.toDigits_of_lt_base small]
        rfl
      rw [single, Lexer.read_singleton, opens number positive small]
    · have last := digit?_digitChar (Nat.mod_lt number (by decide : 0 < 10))
      rw [decimal_of_ten_le (by omega), Lexer.read_append, ih (number / 10) (by omega) (by omega)]
      rw [Option.bind_some, Lexer.read_singleton]
      simp only [Lexer.step, NumberPhase.next?, last, Option.isSome_some, if_true, Option.getD_some]
      congr
      omega

/-- What holds of each of the control characters. -/
@[elab_as_elim] theorem control_cases {motive : UInt8 → Prop} {byte : UInt8}
    (control : byte < 0x20) (each : ∀ number, number < 32 → motive (UInt8.ofNat number)) :
    motive byte := by
  have found := each byte.toNat control
  rwa [UInt8.ofNat_toNat] at found

theorem Piece.ofByte_of_plain {byte : UInt8} (plain : ¬ byte < 0x20) :
    Piece.ofByte byte = .byte byte := by
  simp [Piece.ofByte, plain]

theorem read_piece (byte : UInt8) (done : List Lexeme) (read : List Piece) :
    (⟨done, .text read⟩ : Lexer).read (Piece.ofByte byte).render =
      some ⟨done, .text (Piece.ofByte byte :: read)⟩ := by
  by_cases control : byte < 0x20
  · refine control_cases control fun number small => ?_
    interval_cases number <;> rfl
  by_cases quote : byte = 0x22
  · subst quote
    rfl
  by_cases backslash : byte = 0x5C
  · subst backslash
    rfl
  -- Any other byte is written as it is.
  have other (mark : UInt8) (low : mark < 0x20) : byte ≠ mark := by
    rintro rfl
    exact control low
  have rendered : (Piece.byte byte).render = [byte] := by
    simp only [Piece.render, if_neg quote, if_neg backslash, if_neg (other 0x08 (by decide)),
      if_neg (other 0x09 (by decide)), if_neg (other 0x0A (by decide)),
      if_neg (other 0x0C (by decide)), if_neg (other 0x0D (by decide))]
  rw [Piece.ofByte_of_plain control, rendered, Lexer.read_singleton]
  simp only [Lexer.step, if_neg quote, if_neg backslash, if_neg control]

theorem read_pieces (bytes : List UInt8) (done : List Lexeme) (read : List Piece) :
    (⟨done, .text read⟩ : Lexer).read ((bytes.map Piece.ofByte).flatMap Piece.render) =
      some ⟨done, .text ((bytes.map Piece.ofByte).reverse ++ read)⟩ := by
  induction bytes generalizing read with
  | nil => rfl
  | cons byte bytes ih =>
    rw [List.map_cons, List.flatMap_cons, Lexer.read_append, read_piece, Option.bind_some, ih]
    simp

/-! ## Lexemes -/

/-- A text is written in the pieces that it has by itself. -/
def Lexeme.IsWritten : Lexeme → Prop
  | .text written => ∃ text, written = pieces text
  | _ => True

def Lexeme.IsNumber : Lexeme → Prop
  | .integer _ | .inexact => True
  | _ => False

/-- A lexeme of one byte that ends a number. -/
def Lexeme.IsMark : Lexeme → Prop
  | .closeObject | .closeArray | .comma => True
  | _ => False

namespace Lexer

/-- Where reading stands behind a lexeme. -/
def behind (done : List Lexeme) : Lexeme → Lexer
  | .integer value =>
    ⟨done, .number (if value = 0 then .zero else .digits) (decide (value < 0)) value.natAbs⟩
  | .inexact => ⟨done, .number .zero true 0⟩
  | lexeme => ⟨lexeme :: done, .outside⟩

/-- Where reading stands behind lexemes, the newest first. -/
def after : List Lexeme → Lexer
  | [] => ⟨[], .outside⟩
  | lexeme :: done => behind done lexeme

end Lexer

theorem step_digit (digit : Nat) (positive : 0 < digit) (small : digit < 10) (done : List Lexeme) :
    (⟨done, .outside⟩ : Lexer).step (UInt8.ofNat digit.digitChar.toNat) =
      some ⟨done, .number .digits false digit⟩ := by
  interval_cases digit <;> rfl

theorem step_minus_digit (digit : Nat) (positive : 0 < digit) (small : digit < 10)
    (done : List Lexeme) :
    (⟨done, .number .minus true 0⟩ : Lexer).step (UInt8.ofNat digit.digitChar.toNat) =
      some ⟨done, .number .digits true digit⟩ := by
  interval_cases digit <;> rfl

theorem read_integer (value : Int) (done : List Lexeme) :
    (⟨done, .outside⟩ : Lexer).read (Lexeme.integer value).render =
      some (Lexer.behind done (.integer value)) := by
  cases value with
  | ofNat number =>
    rw [Lexeme.render, Int.ofNat_eq_natCast, ascii_toString_ofNat]
    obtain rfl | positive := Nat.eq_zero_or_pos number
    · rfl
    · rw [read_decimal (fun digit positive small => step_digit digit positive small done) positive]
      simp [Lexer.behind, Nat.pos_iff_ne_zero.mp positive]
  | negSucc number =>
    have opened : (⟨done, .outside⟩ : Lexer).step 0x2D = some ⟨done, .number .minus true 0⟩ := rfl
    have placed : Lexer.behind done (.integer (Int.negSucc number)) =
        ⟨done, .number .digits true (number + 1)⟩ := by
      simp [Lexer.behind, Int.negSucc_ne_zero, Int.negSucc_lt_zero]
    rw [Lexeme.render, ascii_toString_negSucc, Lexer.read_cons, opened, Option.bind_some, placed]
    exact read_decimal (fun digit positive small => step_minus_digit digit positive small done)
      (Nat.succ_pos number)

/-- A lexeme is read where no other is open. -/
theorem read_lexeme {lexeme : Lexeme} (written : lexeme.IsWritten) (done : List Lexeme) :
    (⟨done, .outside⟩ : Lexer).read lexeme.render = some (Lexer.behind done lexeme) := by
  cases lexeme with
  | integer value => exact read_integer value done
  | text pieces =>
    obtain ⟨text, rfl⟩ := written
    have opened : (⟨done, .outside⟩ : Lexer).step 0x22 = some ⟨done, .text []⟩ := rfl
    rw [Lexeme.render, List.cons_append, Lexer.read_cons, opened, Option.bind_some,
      Lexer.read_append, Json.pieces, read_pieces, Option.bind_some, Lexer.read_singleton]
    simp [Lexer.step, Lexer.behind]
  | bool value => cases value <;> rfl
  | openObject | closeObject | openArray | closeArray | comma | colon | null | inexact => rfl

/-- The number that was read when it ends. -/
theorem lexeme?_integer (value : Int) :
    (if value = 0 then NumberPhase.zero else .digits).lexeme? (decide (value < 0)) value.natAbs =
      some (.integer value) := by
  by_cases zero : value = 0
  · subst zero
    rfl
  · rw [if_neg zero, NumberPhase.lexeme?]
    by_cases negative : value < 0
    · have magnitude : -(value.natAbs : Int) = value := by omega
      simp only [negative, decide_true, if_true, Int.natAbs_eq_zero, zero, if_false, magnitude]
    · have magnitude : (value.natAbs : Int) = value := by omega
      simp only [negative, decide_false, Bool.false_eq_true, if_false, magnitude]

/-- A number ends where a mark comes. -/
theorem read_mark {lexeme mark : Lexeme} (number : lexeme.IsNumber) (isMark : mark.IsMark)
    (done : List Lexeme) :
    (Lexer.behind done lexeme).read mark.render = some (Lexer.behind (lexeme :: done) mark) := by
  cases lexeme with
  | integer value =>
    have ended (phase : NumberPhase) (among : phase = .zero ∨ phase = .digits) (negative : Bool)
        (magnitude : Nat) (told : phase.lexeme? negative magnitude = some (.integer value)) :
        (⟨done, .number phase negative magnitude⟩ : Lexer).read mark.render =
          some (Lexer.behind (.integer value :: done) mark) := by
      cases mark with
      | closeObject | closeArray | comma =>
        obtain rfl | rfl := among
        all_goals
          rw [Lexeme.render, Lexer.read_singleton]
          show (do Lexer.start ((← NumberPhase.lexeme? _ negative magnitude) :: done) _) = _
          rw [told]
          rfl
      | _ => cases isMark
    refine ended _ ?_ _ _ (lexeme?_integer value)
    split <;> simp
  | inexact =>
    cases mark with
    | closeObject | closeArray | comma => rfl
    | _ => cases isMark
  | _ => cases number

/-- Lexemes, the newest first, of which none runs into the next. -/
inductive Spaced : List Lexeme → Prop where
  | nil : Spaced []
  | cons {lexeme : Lexeme} {done : List Lexeme} (written : lexeme.IsWritten)
      (apart : ∀ last ∈ done.head?, last.IsNumber → lexeme.IsMark) (spaced : Spaced done) :
      Spaced (lexeme :: done)

theorem read_after {lexeme : Lexeme} {done : List Lexeme} (written : lexeme.IsWritten)
    (apart : ∀ last ∈ done.head?, last.IsNumber → lexeme.IsMark) :
    (Lexer.after done).read lexeme.render = some (Lexer.behind done lexeme) := by
  cases done with
  | nil => exact read_lexeme written []
  | cons last done =>
    by_cases number : last.IsNumber
    · exact read_mark number (apart last rfl number) done
    · have settled : Lexer.after (last :: done) = ⟨last :: done, .outside⟩ := by
        cases last with
        | integer | inexact => exact absurd trivial number
        | _ => rfl
      rw [settled]
      exact read_lexeme written _

theorem read_spaced {newest : List Lexeme} (spaced : Spaced newest) :
    (⟨[], .outside⟩ : Lexer).read (render newest.reverse) = some (Lexer.after newest) := by
  induction spaced with
  | nil => rfl
  | @cons lexeme done written apart spaced ih =>
    rw [List.reverse_cons, render, List.flatMap_append, Lexer.read_append]
    rw [render] at ih
    rw [ih, Option.bind_some, List.flatMap_singleton]
    exact read_after written apart

theorem finish_after (newest : List Lexeme) :
    (Lexer.after newest).finish = some newest.reverse := by
  cases newest with
  | nil => rfl
  | cons lexeme done =>
    cases lexeme with
    | integer value =>
      show (do return ((← NumberPhase.lexeme? _ _ _) :: done).reverse) = _
      rw [lexeme?_integer value]
      rfl
    | _ => rfl

/-- What was written of lexemes is read as these. -/
theorem ofBytes?_render {newest : List Lexeme} (spaced : Spaced newest) :
    Lexeme.ofBytes? (render newest.reverse) = some newest.reverse := by
  have read : (render newest.reverse).foldlM Lexer.step ⟨[], .outside⟩ =
      some (Lexer.after newest) := read_spaced spaced
  rw [Lexeme.ofBytes?, read]
  exact finish_after newest

end TableDriven.Json
