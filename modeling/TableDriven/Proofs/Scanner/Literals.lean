import TableDriven.Proofs.Lexicon.LiteralMatch
import TableDriven.Proofs.Scanner.Tiling

/-! # Scanning literals

A scanner over a table of literals and without factories does what a matcher does that knows nothing
of tables: at each place it takes the longest literal that fits, the first of them if there are
several, delivers its text and leaves its context in the input, and skips one byte if none fits.
-/

namespace TableDriven.Scanner

/-- What becomes of a piece of input. -/
inductive Outcome (U : Type) where
  | token (number : Nat) (text : List U)
  | discarded (text : List U)
  | unmatched (unit : U)
  deriving DecidableEq, Inhabited

namespace Event

def outcome? : Event U V → Option (Outcome U)
  | .delivered text token => some (.token token.number text)
  | .discarded text _ => some (.discarded text)
  | .unmatched unit _ => some (.unmatched unit)
  | .offered .. | .ended .. => none

/-- What becomes of the input, piece by piece. -/
def outcomes (events : List (Event U V)) : List (Outcome U) := events.filterMap outcome?

/-- Every token that is not the last has consumed something. -/
theorem length_tokens_le {events : List (Event U V)} (goesOn : ∀ event ∈ events, ¬ event.IsEnd)
    (pieces : ∀ event ∈ events, event.IsPiece → event.text ≠ []) :
    (tokens events).length ≤ (texts events).length := by
  induction events with
  | nil => exact Nat.le_refl 0
  | cons event rest ih =>
    have behind := ih (fun event member => goesOn event (.tail _ member))
      fun event member => pieces event (.tail _ member)
    have split : event :: rest = [event] ++ rest := rfl
    rw [split, tokens_append, texts_append, List.length_append, List.length_append,
      tokens_singleton, texts_singleton]
    refine Nat.add_le_add ?_ behind
    cases event with
    | delivered text token => exact List.length_pos_iff.mpr (pieces _ (.head _) trivial)
    | ended => exact absurd trivial (goesOn _ (.head _))
    | offered | discarded | unmatched => exact Nat.zero_le _

@[simp] theorem outcomes_append (first second : List (Event U V)) :
    outcomes (first ++ second) = outcomes first ++ outcomes second :=
  List.filterMap_append

end Event

end Scanner

namespace Literal

open Scanner (Outcome)

/-- The number that a literal is delivered by. -/
def delivered (literal : Literal) (index : Nat) : Nat :=
  if 0 ≤ literal.param.toInt then literal.param.toInt.toNat else index

/-- What becomes of an input if the longest literal is taken at each place. -/
def naive (literals : List Literal) : List UInt8 → List (Outcome UInt8)
  | [] => []
  | byte :: rest =>
    match longest? literals (byte :: rest) with
    -- The text is not empty: `byte` is its first.
    | some (literal, index) =>
      .token (literal.delivered index) literal.textBytes ::
        naive literals (rest.drop (literal.textBytes.length - 1))
    | none => .unmatched byte :: naive literals rest
termination_by units => units.length

variable {literals : List Literal} {units : List UInt8}

theorem naive_of_some {literal : Literal} {index : Nat}
    (taken : longest? literals units = some (literal, index)) :
    naive literals units = .token (literal.delivered index) literal.textBytes ::
      naive literals (units.drop literal.textBytes.length) := by
  have text := (fits_iff.mp (longest_of_longest? taken).fits).1
  cases units with
  | nil =>
    have begins := (fits_iff.mp (longest_of_longest? taken).fits).2
    exact absurd (List.append_eq_nil_iff.mp (List.prefix_nil.mp begins)).1 text
  | cons byte rest =>
    obtain ⟨more, length⟩ := Nat.exists_eq_succ_of_ne_zero (mt List.length_eq_zero_iff.mp text)
    rw [naive, taken]
    simp only [length, Nat.succ_sub_one, Nat.succ_eq_add_one, List.drop_succ_cons]

theorem naive_of_none {byte : UInt8} {rest : List UInt8}
    (none : longest? literals (byte :: rest) = none) :
    naive literals (byte :: rest) = .unmatched byte :: naive literals rest := by
  rw [naive, none]

theorem param_ofLiterals {literal : Literal} {index : Nat}
    (found : literals[index]? = some literal) :
    Scanner.defaultNumber index ((Lexicon.ofLiterals literals).param index).value =
      literal.delivered index := by
  have param : (Lexicon.ofLiterals literals).param index = .ok literal.param.toInt := by
    simp [Lexicon.param, Lexicon.ofLiterals, Run.lookup, found]
  rw [param, Scanner.defaultNumber, delivered, Run.value]
  by_cases negative : literal.param.toInt < 0
  · rw [if_pos negative, if_neg (Int.not_le.mpr negative)]
  · rw [if_neg negative, if_pos (Int.not_lt.mp negative)]

end Literal

namespace Scanner

open Literal (naive longest?)

section
variable [ScanUnit U] [TokenFactory φ U V ε] {scanner after : Scanner σ φ U ε} {bound : Nat}
  {tried : List (Nat × Trail U)} {events : List (Event U V)} {choice : Option (Choice V)}

/-- A candidate is assembled. -/
def assembled (scanner : Scanner σ φ U ε) (candidate : Lexicon.Candidate) : Choice V :=
  .token candidate.length
    (defaultNumber candidate.token (scanner.lexicon.param candidate.token).value) none

omit [ScanUnit U] in
theorem Rules.alone {token length : Nat} (rules : scanner.Rules token length choice after)
    (alone : scanner.factory? token = none) :
    after = scanner ∧ choice = some (scanner.assembled ⟨token, length⟩) := by
  cases rules with
  | assembled => exact ⟨rfl, rfl⟩
  | ruled found => cases alone.symm.trans found

/-- Without factories, the first candidate is taken. -/
theorem Tries.alone (tries : Tries tried scanner events choice after) (ready : scanner.Ready)
    (along : scanner.lexicon.Along scanner.start bound tried)
    (alone : ∀ token, scanner.factory? token = none) :
    after = scanner ∧ choice =
      (matching scanner.lexicon scanner.condition tried).head?.map scanner.assembled := by
  induction tries with
  | done => exact ⟨rfl, rfl⟩
  | absent fails _ ih =>
    obtain ⟨-, -, state, traced⟩ := along _ _ (.head _)
    have length := matchLength_eq ready traced fails
    rw [matching, List.filterMap_cons, length]
    exact ih ready along.tail alone
  | rejected _ ruled =>
    obtain ⟨-, taken⟩ := (rules_of_consult ruled).alone (alone _)
    cases taken
  | taken fits ruled =>
    obtain ⟨-, -, state, traced⟩ := along _ _ (.head _)
    have length := matchLength_eq ready traced fits
    rw [matching, List.filterMap_cons, length]
    exact (rules_of_consult ruled).alone (alone _)

end

/-! ## Rounds -/

/-- A scanner over a table of literals, without factories. -/
structure Bare (literals : List Literal) (scanner : Scanner σ φ UInt8 ε) : Prop where
  lexicon : scanner.lexicon = .ofLiterals literals
  condition : scanner.condition = 0
  alone : ∀ token, scanner.factory? token = none

theorem Bare.congr {literals : List Literal} {scanner other : Scanner σ φ UInt8 ε}
    (bare : Bare literals scanner) (lexicon : other.bearing.lexicon = scanner.lexicon)
    (condition : other.bearing.condition = scanner.condition)
    (factories : other.bearing.factories = scanner.factories) : Bare literals other where
  lexicon := lexicon.trans bare.lexicon
  condition := condition.trans bare.condition
  alone token := by
    change other.factories = scanner.factories at factories
    rw [factory?, factories]
    exact bare.alone token

variable {literals : List Literal} {scanner middle after : Scanner σ φ UInt8 ε} {units : List UInt8}
  {events more : List (Event UInt8 V)} {piece : Piece UInt8 V}

/-- What becomes of an input, and what would become of the rest of it, is what the matcher does. -/
structure Matches (literals : List Literal) (units : List UInt8) (events : List (Event UInt8 V))
    (after : Scanner σ φ UInt8 ε) : Prop where
  bare : Bare literals after
  outcomes : Event.outcomes events ++ naive literals (units.drop (Event.texts events).length) =
    naive literals units

theorem Matches.append (first : Matches literals units events middle)
    (second : Matches literals (units.drop (Event.texts events).length) more after) :
    Matches literals units (events ++ more) after where
  bare := second.bare
  outcomes := by
    rw [Event.outcomes_append, Event.texts_append, List.length_append, List.append_assoc,
      ← List.drop_drop, second.outcomes, first.outcomes]

variable [TokenFactory φ UInt8 V ε]

/-- On its trail, a scanner of literals takes the longest that the input begins with. -/
theorem Tries.longest {looked ruled : Scanner σ φ UInt8 ε} {trail : Trail UInt8}
    {choice : Option (Choice V)}
    (tries : Tries (looked.lexicon.attempts trail) looked events choice ruled)
    (reaches : looked.Reaches (.ofList units) trail) (few : Literal.Few literals)
    (bare : Bare literals looked) (ready : looked.Ready) :
    ruled = looked ∧ choice = (longest? literals units).map fun entry =>
      .token entry.1.textBytes.length (entry.1.delivered entry.2) none := by
  obtain ⟨same, chosen⟩ := tries.alone ready reaches.along bare.alone
  rw [reaches.matching_attempts, bare.lexicon, bare.condition] at chosen
  refine ⟨same, chosen.trans ?_⟩
  cases taken : longest? literals units with
  | none =>
    rw [Literal.candidates_eq_nil few fun literal => Literal.fits_eq_false_of_longest? taken]
    rfl
  | some entry =>
    have best := Literal.longest_of_longest? taken
    rw [Literal.head?_candidates few best, Option.map_some, Option.map_some, assembled,
      bare.lexicon, Literal.param_ofLiterals best.found]

theorem Tries.outcomes_eq {tried : List (Nat × Trail UInt8)} {choice : Option (Choice V)}
    (tries : Tries tried scanner events choice after) : Event.outcomes events = [] := by
  refine List.filterMap_eq_nil_iff.mpr fun event member => ?_
  obtain ⟨candidate, isAsked, rfl, -⟩ := tries.offered_of_mem member
  rfl

variable [UnitSource σ UInt8 ε]

theorem Resolved.matches (resolved : Resolved (.ofList units) scanner events piece after)
    (few : Literal.Few literals) (bare : Bare literals scanner) (ready : scanner.Ready) :
    Matches literals units events after := by
  cases resolved with
  | ended nothing has bearing =>
    have spent : units = [] := by simpa using nothing
    subst spent
    exact {
      bare := bare.congr (by rw [bearing]; rfl) (by rw [bearing]; rfl) (by rw [bearing]; rfl)
      outcomes := rfl }
  | @piece looked ruled after trail tried choice something reaches looks _ tries bearing _ full
      settled =>
    have lexicon : looked.lexicon = scanner.lexicon := congrArg Bearing.lexicon looks.bearing
    have bareStill : Bare literals looked := bare.congr (congrArg Bearing.lexicon looks.bearing)
      (congrArg Bearing.condition looks.bearing) (congrArg Bearing.factories looks.bearing)
    have silent := tries.outcomes_eq
    have text := looked.bearing.text_event full
    have texts := tries.texts_eq
    obtain ⟨rfl, chosen⟩ := Tries.longest (lexicon ▸ tries) (reaches.of_bearing looks.bearing) few
      bareStill (ready.of_bearing looks.bearing)
    refine ⟨bareStill.congr (by rw [settled.bearing]; rfl) (by rw [settled.bearing]; rfl)
      (by rw [settled.bearing]; rfl), ?_⟩
    rw [Event.outcomes_append, silent, List.nil_append, Event.texts_append, texts, List.nil_append,
      Event.texts_singleton, text, full, Content.take_ofList]
    cases taken : longest? literals units with
    | none =>
      rw [taken] at chosen
      subst chosen
      cases units with
      | nil => simp at something
      | cons byte rest =>
        rw [Literal.naive_of_none taken]
        rfl
    | some entry =>
      rw [taken] at chosen
      subst chosen
      obtain ⟨-, begins⟩ := Literal.fits_iff.mp (Literal.longest_of_longest? taken).fits
      have consumes : units.take entry.1.textBytes.length = entry.1.textBytes :=
        (List.prefix_iff_eq_take.mp ((List.prefix_append _ _).trans begins)).symm
      rw [Literal.naive_of_some taken]
      simp only [consumed, Choice.length, consumes, Option.map_some]
      rfl

variable [LawfulUnitSource σ UInt8 ε]

theorem Pulls.matches {token : Token V} (pulls : scanner.Pulls events token after)
    (few : Literal.Few literals) (bare : Bare literals scanner) (has : scanner.Has (.ofList units))
    (ready : scanner.Ready) : Matches literals units events after := by
  induction pulls generalizing units with
  | last scans _ => exact (scans.resolved has ready).matches few bare ready
  | further scans _ _ ih =>
    have resolved := scans.resolved has ready
    have tiled := resolved.tiled ready
    have first := resolved.matches few bare ready
    have rest := tiled.has
    rw [Content.drop_ofList] at rest
    exact first.append (ih first.bare rest tiled.ready)

theorem Calls.matches {tokens : List (Token V)} (calls : scanner.Calls tokens events after)
    (few : Literal.Few literals) (bare : Bare literals scanner) (has : scanner.Has (.ofList units))
    (ready : scanner.Ready) : Matches literals units events after := by
  induction calls generalizing units with
  | done => exact ⟨bare, rfl⟩
  | call _ pulls _ ih =>
    have tiled := pulls.tiled has ready
    have first := pulls.matches few bare has ready
    have rest := tiled.has
    rw [Content.drop_ofList] at rest
    exact first.append (ih first.bare rest tiled.ready)

/-- The table of some literals passes the check if the numbers suffice for it, and a scanner over it
without factories does what the matcher does: it delivers as many tokens as one asks for, what
becomes of the input is what the matcher makes of it, to the end once there are more tokens than
bytes, and the client is told of the same. -/
theorem calls_match_literals (few : Literal.Few literals) :
    (Lexicon.ofLiterals literals).check = .ok () ∧
    ∀ (scanner : Scanner σ φ UInt8 ε) (source : σ) (file : Option String) (units : List UInt8),
      scanner.lexicon = .ofLiterals literals → (∀ token, scanner.factory? token = none) →
      UnitSource.Delivers ε source (.ofList units) →
      (∀ count, ∃ (tokens : List (Token V)) (events : List (Event UInt8 V))
        (last : Scanner σ φ UInt8 ε),
        (scanner.openSource source file).Calls tokens events last ∧ tokens.length = count) ∧
      ∀ (tokens : List (Token V)) (events : List (Event UInt8 V)) (last : Scanner σ φ UInt8 ε),
        (scanner.openSource source file).Calls tokens events last →
        Event.tokens events = tokens ∧
        last.reports = (scanner.openSource source file).reports ++ Event.reports events ∧
        Event.outcomes events <+: naive literals units ∧
        ((∃ event ∈ events, event.IsEnd) → Event.outcomes events = naive literals units) ∧
        (units.length < tokens.length → ∃ event ∈ events, event.IsEnd) := by
  have checked := Literal.checked_ofLiterals few
  refine ⟨Lexicon.check_eq_ok_iff.mpr checked, fun scanner source file units table alone delivers =>
    ?_⟩
  have has := has_openSource scanner file delivers
  have bearing := bearing_openSource scanner source file
  have ready : (scanner.openSource source file).Ready := ready_openSource (table ▸ checked)
  have factories : (scanner.openSource source file).factories = scanner.factories :=
    congrArg Bearing.factories bearing
  have bare : Bare literals (scanner.openSource source file) :=
    ⟨(congrArg Bearing.lexicon bearing).trans table, congrArg Bearing.condition bearing,
      fun token => by rw [factory?, factories]; exact alone token⟩
  refine ⟨fun count => calls_ok units has ready count, fun tokens events last calls => ?_⟩
  have tiled := calls.tiled has ready
  have outcomes := (calls.matches few bare has ready).outcomes
  refine ⟨tiled.tokens, tiled.reports, ⟨_, outcomes⟩, ?_, fun many => ?_⟩
  · rintro ⟨event, member, ends⟩
    have spent := Stream'.Seq.ofList_injective (tiled.tiles.whole event member ends)
    rwa [← spent, List.drop_length, naive, List.append_nil] at outcomes
  · by_contra goesOn
    have tokens := Event.length_tokens_le (fun event member ends => goesOn ⟨event, member, ends⟩)
      tiled.tiles.pieces
    have texts := congrArg List.length tiled.tiles.begins
    rw [Content.take_ofList, List.length_take] at texts
    rw [tiled.tokens] at tokens
    omega

/-- Literals that begin or consist alike, one without a text and one with a number of its own. -/
def overlapping : List Literal :=
  [⟨"a", some "b", -1⟩, ⟨"ab", none, -1⟩, ⟨"a", none, -1⟩, ⟨"", some "a", -1⟩, ⟨"x", none, 7⟩]

theorem few_overlapping : Literal.Few overlapping :=
  ⟨by decide, by decide +kernel, by decide +kernel⟩

theorem naive_overlapping : naive overlapping [97, 98, 97, 120, 98] =
    [.token 0 [97], .unmatched 98, .token 2 [97], .token 7 [120], .unmatched 98] := by
  have first : longest? overlapping [97, 98, 97, 120, 98] = some (⟨"a", some "b", -1⟩, 0) := by
    decide +kernel
  have second : longest? overlapping [98, 97, 120, 98] = none := by decide +kernel
  have third : longest? overlapping [97, 120, 98] = some (⟨"a", none, -1⟩, 2) := by decide +kernel
  have fourth : longest? overlapping [120, 98] = some (⟨"x", none, 7⟩, 4) := by decide +kernel
  have fifth : longest? overlapping [98] = none := by decide +kernel
  rw [naive, first]
  change Outcome.token 0 [97] :: naive overlapping [98, 97, 120, 98] = _
  rw [naive, second, naive, third]
  change Outcome.token 0 [97] :: .unmatched 98 :: .token 2 [97] :: naive overlapping [120, 98] = _
  rw [naive, fourth]
  change _ :: _ :: _ :: .token 7 [120] :: naive overlapping [98] = _
  rw [naive, fifth, naive]

theorem calls_match_literals_overlapping :
    Literal.Few overlapping ∧
    UnitSource.Delivers Empty (Script.ofSteps [.read [97, 98, 97], .line [(120 : UInt8), 98]])
      (.ofList [97, 98, 97, 120, 98]) ∧
    ∃ tokens events last,
      ((create (.ofLiterals overlapping) 9 0 8 : Scanner (Script UInt8) Calculator.Spelling UInt8
        Empty).openSource (.ofSteps [.read [97, 98, 97], .line [120, 98]]) none).Calls tokens events
          last ∧
      Event.outcomes events =
        [.token 0 [97], .unmatched 98, .token 2 [97], .token 7 [120], .unmatched 98] := by
  have delivers : UnitSource.Delivers Empty
      (Script.ofSteps [.read [97, 98, 97], .line [(120 : UInt8), 98]])
      (.ofList [97, 98, 97, 120, 98]) := Script.delivers (by decide)
  obtain ⟨answers, matched⟩ := (calls_match_literals few_overlapping).2
    (create (.ofLiterals overlapping) 9 0 8 :
      Scanner (Script UInt8) Calculator.Spelling UInt8 Empty) _ none _ rfl (fun token => by
      simp only [factory?, create, Array.getElem?_replicate]
      split <;> rfl) delivers
  obtain ⟨tokens, events, last, calls, length⟩ := answers 6
  obtain ⟨-, -, -, whole, ends⟩ := matched tokens events last calls
  exact ⟨few_overlapping, delivers, tokens, events, last, calls,
    (whole (ends (by simp [length]))).trans naive_overlapping⟩

end Scanner

end TableDriven
