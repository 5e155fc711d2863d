import Mathlib.Data.List.MinMax
import TableDriven.Proofs.Lexicon.Candidates
import TableDriven.Proofs.Lexicon.LiteralTable

/-! # What a table of literals finds

A walk over a trie of texts is in the state of what it has read.  So the tokens behind a text are
the literals that consist of it (`tokensBehind_ofLiterals`), and a context is found where its own
literal has it and nowhere else (`lengthOf_ofLiterals`), whichever states literals share.  The first
candidate that an input begins with is therefore the longest literal that fits, and of these the
first (`head?_candidates`).
-/

namespace TableDriven

namespace Literal

variable {literals : List Literal}

theorem category?_ofLiterals (literals : List Literal) (byte : UInt8) :
    (Lexicon.ofLiterals literals).category? (ScanUnit.ordinal byte) =
      some (category (alphabet literals) byte) := by
  have below := category_le (alphabet literals) byte
  have letters := length_alphabet_le literals
  have small : (UInt16.ofNat (category (alphabet literals) byte)).toNat =
      category (alphabet literals) byte :=
    UInt16.toNat_ofNat_of_lt' (by simp only [UInt16.size]; omega)
  simpa [Lexicon.category?, Lexicon.ofLiterals, ScanUnit.ordinal, byte.toNat_lt] using small

/-- A walk over a trie of texts stays in the states of their beginnings. -/
theorem walk_trieOf {texts : List (List UInt8)} {contexts : Nat} {tokens splits : List (Nat × Nat)}
    (known : ∀ text ∈ texts, ∀ byte ∈ text, byte ∈ alphabet literals)
    (few : (trieOf (alphabet literals) texts).size < UInt16.size) {done : List UInt8}
    (found : stateOf (alphabet literals) texts done ≠ 0) (units : List UInt8) :
    (Lexicon.ofLiterals literals).walk
        ((trieOf (alphabet literals) texts).automaton contexts tokens splits)
        (stateOf (alphabet literals) texts done) units =
      if stateOf (alphabet literals) texts (done ++ units) = 0 then none
      else some (stateOf (alphabet literals) texts (done ++ units)) := by
  induction units generalizing done with
  | nil => simp [found]
  | cons byte rest ih =>
    obtain ⟨all, represents, wide, -⟩ := represents_trieOf (alphabet literals) texts
    have within :
        category (alphabet literals) byte < (trieOf (alphabet literals) texts).categories :=
      wide ▸ Nat.lt_succ_of_le (category_le (alphabet literals) byte)
    have next : ((trieOf (alphabet literals) texts).automaton contexts tokens splits).next
        (stateOf (alphabet literals) texts done) (category (alphabet literals) byte) =
          .ok (stateOf (alphabet literals) texts (done ++ [byte])) := by
      rw [stateOf, stateOf, spell_append]
      exact Trie.next_automaton few represents _ within
    have split : done ++ byte :: rest = done ++ [byte] ++ rest := List.append_cons ..
    rw [Lexicon.walk_cons, Lexicon.step?, category?_ofLiterals, split]
    simp only [next, Run.value, Automaton.invalidState]
    by_cases ends : stateOf (alphabet literals) texts (done ++ [byte]) = 0
    · rw [if_pos ends, if_pos (stateOf_append_eq_zero known ends rest), Option.bind_none]
    · rw [if_neg ends, Option.bind_some, ih ends]

/-! ## What is found -/

theorem letters_of_mem {entry : Numbered} (member : entry ∈ numbered literals) {byte : UInt8}
    (within : byte ∈ entry.wholeBytes) : byte ∈ alphabet literals :=
  mem_alphabet_iff.mpr ⟨entry.literal, List.mem_of_getElem? (mem_numbered member), within⟩

theorem letters_wholes : ∀ text ∈ wholes literals, ∀ byte ∈ text, byte ∈ alphabet literals := by
  simp only [wholes, List.forall_mem_map]
  exact fun entry member byte => letters_of_mem member

theorem letters_backs : ∀ text ∈ backs literals, ∀ byte ∈ text, byte ∈ alphabet literals := by
  simp only [backs, List.forall_mem_map]
  intro entry member byte within
  exact letters_of_mem (List.mem_of_mem_filter member)
    (List.mem_append_right _ (List.mem_reverse.mp within))

section
variable (few : Few literals)
include few

theorem stateBehind_ofLiterals (units : List UInt8) :
    (Lexicon.ofLiterals literals).stateBehind 0 units =
      if stateOf (alphabet literals) (wholes literals) units = 0 then none
      else some (stateOf (alphabet literals) (wholes literals) units) := by
  have root : stateOf (alphabet literals) (wholes literals) [] ≠ 0 :=
    (stateOf_ne_zero_iff letters_wholes).mpr (.inl rfl)
  rw [Lexicon.stateBehind, forward_ofLiterals]
  exact walk_trieOf letters_wholes few.size_forward root units

theorem stateBefore_ofLiterals (behind : List UInt8) :
    (Lexicon.ofLiterals literals).stateBefore 0 behind =
      if stateOf (alphabet literals) (backs literals) behind.reverse = 0 then none
      else some (stateOf (alphabet literals) (backs literals) behind.reverse) := by
  have root : stateOf (alphabet literals) (backs literals) [] ≠ 0 :=
    (stateOf_ne_zero_iff letters_backs).mpr (.inl rfl)
  rw [Lexicon.stateBefore, reverse_ofLiterals]
  exact walk_trieOf letters_backs few.size_reverse root behind.reverse

theorem forward_code (bytes : List UInt8) :
    (Lexicon.ofLiterals literals).forward.code
        (stateOf (alphabet literals) (wholes literals) bytes) =
      .ok (stateOf (alphabet literals) (wholes literals) bytes) := by
  rw [forward_ofLiterals]
  exact Trie.code_automaton few.size_forward (stateOf_lt ..)

theorem reverse_code (bytes : List UInt8) :
    (Lexicon.ofLiterals literals).reverse.code
        (stateOf (alphabet literals) (backs literals) bytes) =
      .ok (stateOf (alphabet literals) (backs literals) bytes) := by
  rw [reverse_ofLiterals]
  exact Trie.code_automaton few.size_reverse (stateOf_lt ..)

theorem forward_tokens (bytes : List UInt8) :
    (Lexicon.ofLiterals literals).forward.tokens
        (stateOf (alphabet literals) (wholes literals) bytes) =
      .ok (Trie.valuesOf (recognized literals)
        (stateOf (alphabet literals) (wholes literals) bytes)) := by
  rw [forward_ofLiterals]
  exact Trie.tokens_automaton (pairwise_recognized literals)
    (fun entry member => (lt_of_mem_recognized member).trans_le few.tokens) (stateOf_lt ..)

/-- The tokens behind a text are the literals that it consists of, in order. -/
theorem tokensBehind_ofLiterals (units : List UInt8) :
    (Lexicon.ofLiterals literals).tokensBehind 0 units =
      ((numbered literals).filter (·.wholeBytes = units)).map Numbered.token := by
  rw [Lexicon.tokensBehind, stateBehind_ofLiterals few]
  by_cases none : stateOf (alphabet literals) (wholes literals) units = 0
  · have nowhere : (numbered literals).filter (·.wholeBytes = units) = [] := by
      refine List.filter_eq_nil_iff.mpr fun entry member same => ?_
      have whole : units ∈ wholes literals := of_decide_eq_true same ▸ List.mem_map_of_mem member
      exact (stateOf_ne_zero_iff letters_wholes).mpr (.inr ⟨units, whole, List.prefix_rfl⟩) none
    rw [if_pos none, nowhere]
    rfl
  · have same (entry : Numbered) : (stateOf (alphabet literals) (wholes literals) entry.wholeBytes =
        stateOf (alphabet literals) (wholes literals) units) ↔ entry.wholeBytes = units :=
      ⟨fun same => (stateOf_inj letters_wholes none same.symm).symm, fun same => same ▸ rfl⟩
    have values : Trie.valuesOf (recognized literals)
        (stateOf (alphabet literals) (wholes literals) units) =
          ((numbered literals).filter (·.wholeBytes = units)).map Numbered.token := by
      rw [Trie.valuesOf, recognized, List.filter_map, List.map_map]
      refine congrArg (List.map Numbered.token) (List.filter_congr fun entry _ => ?_)
      exact decide_eq_decide.mpr (same entry)
    have code := forward_code few units
    have tokens := forward_tokens few units
    simp only [if_neg none, code, tokens, Run.value, values]

/-- A literal has the context that it is numbered with. -/
theorem context?_ofLiterals {entry : Numbered} (member : entry ∈ numbered literals) :
    (Lexicon.ofLiterals literals).context? entry.token = .ok entry.context := by
  have found : (number 0 0 literals)[entry.token]? = some entry := getElem?_numbered member
  cases given : entry.context with
  | none => simp [Lexicon.context?, Lexicon.ofLiterals, Run.lookup, found, given]
  | some own =>
    have value := toInt_context few.tokens member given
    have number : (Int32.ofNat own).toNatClampNeg = own := by
      rw [← Int32.toNat_toInt, value, Int.toNat_natCast]
    simp [Lexicon.context?, Lexicon.ofLiterals, Run.lookup, found, given, value, number]

section
variable {entry : Numbered} {own : Nat} (member : entry ∈ numbered literals)
  (given : entry.context = some own)
include member given

omit few in
/-- A context belongs to the state of its own literal only. -/
theorem mem_contextStates_iff {texts : List (List UInt8)} {bytes : Numbered → List UInt8}
    (known : ∀ text ∈ texts, ∀ byte ∈ text, byte ∈ alphabet literals) {text : List UInt8}
    (found : stateOf (alphabet literals) texts text ≠ 0) :
    (stateOf (alphabet literals) texts text, own) ∈ contextStates (trieOf (alphabet literals) texts)
        (spell (alphabet literals)) bytes (numbered literals) ↔ text = bytes entry := by
  simp only [contextStates, List.mem_filterMap, Option.map_eq_some_iff, Prod.mk.injEq]
  constructor
  · rintro ⟨other, listed, own, theirs, same, rfl⟩
    rw [eq_of_context member listed given theirs]
    exact stateOf_inj known found same.symm
  · rintro rfl
    exact ⟨entry, member, own, given, rfl, rfl⟩

/-- A text may end before a context if it is the text of its literal. -/
theorem forward_splits (text : List UInt8) :
    (((Lexicon.ofLiterals literals).stateBehind 0 text).any fun state =>
        ((Lexicon.ofLiterals literals).forward.splits
          ((Lexicon.ofLiterals literals).forward.code state).value own).value) =
      decide (text = entry.literal.textBytes) := by
  rw [stateBehind_ofLiterals few]
  split
  next none =>
    have different : text ≠ entry.literal.textBytes := by
      rintro rfl
      exact (stateOf_ne_zero_iff letters_wholes).mpr
        (.inr ⟨_, List.mem_map_of_mem member, List.prefix_append _ _⟩) none
    rw [Option.any_none, decide_eq_false different]
  next found =>
    have splits : (Lexicon.ofLiterals literals).forward.splits
        (stateOf (alphabet literals) (wholes literals) text) own = .ok (decide
          ((stateOf (alphabet literals) (wholes literals) text, own) ∈ textEnds literals)) := by
      rw [forward_ofLiterals]
      exact Trie.splits_automaton (stateOf_lt ..) (lt_contextTotal member given)
    rw [Option.any_some, forward_code few]
    simp only [Run.value, splits]
    exact decide_eq_decide.mpr (mem_contextStates_iff member given letters_wholes found)

/-- A context may begin where it is that of its literal. -/
theorem reverse_splits (behind : List UInt8) :
    (((Lexicon.ofLiterals literals).stateBefore 0 behind).any fun state =>
        ((Lexicon.ofLiterals literals).reverse.splits
          ((Lexicon.ofLiterals literals).reverse.code state).value own).value) =
      decide (behind = entry.literal.contextBytes) := by
  rw [stateBefore_ofLiterals few]
  split
  next none =>
    have different : behind ≠ entry.literal.contextBytes := by
      rintro rfl
      have listed : entry.backBytes ∈ backs literals :=
        List.mem_map_of_mem (List.mem_filter.mpr ⟨member, by simp [given]⟩)
      exact (stateOf_ne_zero_iff letters_backs).mpr (.inr ⟨_, listed, List.prefix_rfl⟩) none
    rw [Option.any_none, decide_eq_false different]
  next found =>
    have splits : (Lexicon.ofLiterals literals).reverse.splits
        (stateOf (alphabet literals) (backs literals) behind.reverse) own = .ok (decide
          ((stateOf (alphabet literals) (backs literals) behind.reverse, own) ∈
            contextEnds literals)) := by
      rw [reverse_ofLiterals]
      exact Trie.splits_automaton (stateOf_lt ..) (lt_contextTotal member given)
    rw [Option.any_some, reverse_code few]
    simp only [Run.value, splits]
    refine decide_eq_decide.mpr ((mem_contextStates_iff member given letters_backs found).trans ?_)
    exact List.reverse_inj

end

/-- What a literal consists of divides where its text ends, unless that is empty. -/
theorem lengthOf_ofLiterals {entry : Numbered} (member : entry ∈ numbered literals)
    (nonempty : entry.wholeBytes ≠ []) :
    (Lexicon.ofLiterals literals).lengthOf 0 entry.token entry.wholeBytes =
      if entry.literal.textBytes = [] then none else some entry.literal.textBytes.length := by
  rw [Lexicon.lengthOf, context?_ofLiterals few member]
  simp only [Run.value]
  cases given : entry.context with
  | none =>
    have bare := contextBytes_eq_nil member given
    have same : entry.wholeBytes = entry.literal.textBytes := by
      rw [Numbered.wholeBytes, bare, List.append_nil]
    rw [same] at nonempty ⊢
    rw [if_neg nonempty]
  | some own =>
    have divides (length : Nat) (within : length ≤ entry.wholeBytes.length) :
        (Lexicon.ofLiterals literals).endsBefore 0 own (entry.wholeBytes.take length)
          (entry.wholeBytes.drop length) = decide (length = entry.literal.textBytes.length) := by
      rw [Lexicon.endsBefore, forward_splits few member given, reverse_splits few member given,
        ← Bool.decide_and, decide_eq_decide]
      constructor
      · rintro ⟨text, -⟩
        simpa [within] using congrArg List.length text
      · rintro rfl
        exact ⟨List.take_left, List.drop_left⟩
    have within : entry.literal.textBytes.length ≤ entry.wholeBytes.length :=
      (List.prefix_append _ _).length_le
    by_cases empty : entry.literal.textBytes = []
    · rw [if_pos empty]
      refine find?_downFrom_eq_none_iff.mpr fun length positive short => ?_
      rw [divides length short, empty]
      exact decide_eq_false (Nat.ne_of_gt positive)
    · have positive := List.length_pos_iff.mpr empty
      rw [if_neg empty]
      refine find?_downFrom_eq_some_iff.mpr
        ⟨⟨positive, within, by simp [divides _ within]⟩, fun length longer short => ?_⟩
      rw [divides length short]
      exact decide_eq_false (Nat.ne_of_gt longer)

end

/-- Whether `units` begin with the text of a literal, which is not empty, and its context. -/
def fits (literal : Literal) (units : List UInt8) : Bool :=
  literal.textBytes ≠ [] && literal.wholeBytes.isPrefixOf units

theorem fits_iff {literal : Literal} {units : List UInt8} :
    literal.fits units = true ↔ literal.textBytes ≠ [] ∧ literal.wholeBytes <+: units := by
  simp [fits]

/-- Of the literals that `units` begin with, the one whose text and context are longest, the first
of them if there are several; and its index. -/
def longest? (literals : List Literal) (units : List UInt8) : Option (Literal × Nat) :=
  (literals.zipIdx.filter fun entry => entry.1.fits units).argmax fun entry =>
    entry.1.wholeBytes.length

/-- The literal at `index` is the longest and, of its length, the first that `units` begin with. -/
structure Longest (literals : List Literal) (units : List UInt8) (index : Nat)
    (literal : Literal) : Prop where
  found : literals[index]? = some literal
  fits : literal.fits units = true
  longest : ∀ (other : Nat) (rival : Literal), literals[other]? = some rival →
    rival.fits units = true → rival.wholeBytes.length ≤ literal.wholeBytes.length
  first : ∀ (other : Nat) (rival : Literal), literals[other]? = some rival →
    rival.fits units = true → rival.wholeBytes.length = literal.wholeBytes.length → index ≤ other

theorem mem_matching {units : List UInt8} {literal : Literal} {index : Nat} :
    (literal, index) ∈ literals.zipIdx.filter (fun entry => entry.1.fits units) ↔
      literals[index]? = some literal ∧ literal.fits units = true := by
  rw [List.mem_filter, List.mem_zipIdx_iff_getElem?]

/-- In a list with ascending keys, what comes first has the lower key. -/
theorem le_of_idxOf_le [DecidableEq α] {items : List α} {key : α → Nat}
    (ascending : (items.map key).Pairwise (· < ·)) {first second : α} (one : first ∈ items)
    (two : second ∈ items) (before : items.idxOf first ≤ items.idxOf second) :
    key first ≤ key second := by
  have inside := List.idxOf_lt_length_of_mem one
  have within := List.idxOf_lt_length_of_mem two
  obtain same | less := Nat.eq_or_lt_of_le before
  · rw [(List.idxOf_inj one).mp same]
  · have apart :=
      List.pairwise_iff_getElem.mp (List.pairwise_map.mp ascending) _ _ inside within less
    rw [List.getElem_idxOf, List.getElem_idxOf] at apart
    exact Nat.le_of_lt apart

theorem longest_of_longest? {units : List UInt8} {literal : Literal} {index : Nat}
    (taken : longest? literals units = some (literal, index)) :
    Longest literals units index literal := by
  obtain ⟨member, longest, first⟩ := List.argmax_eq_some_iff.mp taken
  have ascending : ((literals.zipIdx.filter fun entry => entry.1.fits units).map
      Prod.snd).Pairwise (· < ·) := by
    refine List.Pairwise.sublist (List.filter_sublist.map Prod.snd) ?_
    rw [List.zipIdx_map_snd]
    exact List.pairwise_lt_range'
  obtain ⟨found, fits⟩ := mem_matching.mp member
  refine ⟨found, fits, fun other rival listed begins => ?_,
    fun other rival listed begins same => ?_⟩
  · exact longest (rival, other) (mem_matching.mpr ⟨listed, begins⟩)
  · have among := mem_matching.mpr ⟨listed, begins⟩
    exact le_of_idxOf_le ascending member among
      (first (rival, other) among (Nat.le_of_eq same.symm))

theorem fits_eq_false_of_longest? {units : List UInt8} (none : longest? literals units = none)
    {literal : Literal} (member : literal ∈ literals) : literal.fits units = false := by
  obtain ⟨index, found⟩ := List.mem_iff_getElem?.mp member
  have nothing := List.argmax_eq_none.mp none
  by_contra begins
  have among := mem_matching.mpr ⟨found, Bool.not_eq_false _ ▸ begins⟩
  rw [nothing] at among
  cases among

/-- The candidate that a literal makes; one without a text makes none. -/
def candidate? (entry : Numbered) : Option Lexicon.Candidate :=
  if entry.literal.textBytes = [] then none
  else some ⟨entry.token, entry.literal.textBytes.length⟩

/-- Of the literals that consist of a beginning of the input, those that fit make candidates. -/
theorem candidate?_eq_none {entry : Numbered} {units : List UInt8}
    (begins : entry.wholeBytes <+: units) (misses : entry.literal.fits units ≠ true) :
    candidate? entry = none := by
  have empty : entry.literal.textBytes = [] := by
    by_contra some
    exact misses (fits_iff.mpr ⟨some, begins⟩)
  rw [candidate?, if_pos empty]

/-- No literal of some length makes a candidate if none of that length fits. -/
theorem filterMap_candidate?_eq_nil {entries : List Numbered} {units : List UInt8} {length : Nat}
    (misses : ∀ entry ∈ entries, entry.wholeBytes = units.take length →
      entry.literal.fits units ≠ true) :
    (entries.filter (·.wholeBytes = units.take length)).filterMap candidate? = [] := by
  refine List.filterMap_eq_nil_iff.mpr fun entry listed => ?_
  obtain ⟨member, same⟩ := List.mem_filter.mp listed
  have whole : entry.wholeBytes = units.take length := of_decide_eq_true same
  exact candidate?_eq_none (whole ▸ List.take_prefix length units) (misses entry member whole)

section
variable (few : Few literals) {units : List UInt8}
include few

/-- The candidates are the literals that the input begins with, the longest first and those of one
length in order. -/
theorem candidates_ofLiterals (units : List UInt8) :
    (Lexicon.ofLiterals literals).candidates 0 units =
      (downFrom ((Lexicon.ofLiterals literals).reach 0 units)).flatMap fun length =>
        ((numbered literals).filter (·.wholeBytes = units.take length)).filterMap candidate? := by
  refine List.flatMap_congr fun length member => ?_
  obtain ⟨positive, within⟩ := mem_downFrom_iff.mp member
  have inside := within.trans (Lexicon.reach_le units)
  rw [tokensBehind_ofLiterals few, List.filterMap_map]
  refine List.filterMap_congr fun entry listed => ?_
  obtain ⟨known, same⟩ := List.mem_filter.mp listed
  have whole : entry.wholeBytes = units.take length := of_decide_eq_true same
  have nonempty : entry.wholeBytes ≠ [] := by
    rw [whole, ← List.length_pos_iff, List.length_take]
    omega
  rw [Function.comp_apply, ← whole, lengthOf_ofLiterals few known nonempty, candidate?]
  split <;> rfl

theorem candidates_eq_nil (none : ∀ literal ∈ literals, literal.fits units = false) :
    (Lexicon.ofLiterals literals).candidates 0 units = [] := by
  rw [candidates_ofLiterals few, List.flatMap_eq_nil_iff]
  intro length _
  refine filterMap_candidate?_eq_nil fun entry member _ => ?_
  rw [none entry.literal (List.mem_of_getElem? (mem_numbered member))]
  exact Bool.false_ne_true

/-- The first candidate is the longest literal. -/
theorem head?_candidates {index : Nat} {literal : Literal}
    (best : Longest literals units index literal) :
    ((Lexicon.ofLiterals literals).candidates 0 units).head? =
      some ⟨index, literal.textBytes.length⟩ := by
  obtain ⟨entry, member, rfl, rfl⟩ := exists_numbered best.found
  obtain ⟨text, begins⟩ := fits_iff.mp best.fits
  have whole : units.take entry.wholeBytes.length = entry.wholeBytes :=
    (List.prefix_iff_eq_take.mp begins).symm
  have positive : 1 ≤ entry.wholeBytes.length := by
    have := List.length_pos_iff.mpr text
    simp only [Numbered.wholeBytes, List.length_append]
    omega
  rw [candidates_ofLiterals few, List.head?_flatMap]
  refine findSome?_downFrom positive ?_ ?_ fun length longer within => ?_
  · refine Lexicon.le_reach positive begins.length_le ?_
    have spelled : stateOf (alphabet literals) (wholes literals) entry.wholeBytes ≠ 0 :=
      (stateOf_ne_zero_iff letters_wholes).mpr
        (.inr ⟨_, List.mem_map_of_mem member, List.prefix_rfl⟩)
    rw [whole, stateBehind_ofLiterals few, if_neg spelled]
    rfl
  · -- Literals in front of this one would come first.
    obtain ⟨before, behind, split⟩ := List.append_of_mem member
    have ordered := pairwise_token literals
    rw [split, List.pairwise_append] at ordered
    have none : (before.filter (·.wholeBytes = units.take entry.wholeBytes.length)).filterMap
        candidate? = [] := by
      refine filterMap_candidate?_eq_nil fun other early same fits => ?_
      have listed := mem_numbered (split ▸ List.mem_append_left _ early)
      have length := congrArg List.length (same.trans whole)
      exact Nat.not_le_of_lt (ordered.2.2 other early entry (.head _))
        (best.first other.token other.literal listed fits length)
    rw [split, List.filter_append, List.filterMap_append, none]
    simp [whole, candidate?, text]
  · have none : ((numbered literals).filter (·.wholeBytes = units.take length)).filterMap
        candidate? = [] := by
      refine filterMap_candidate?_eq_nil fun other listed same fits => ?_
      have most : other.wholeBytes.length ≤ entry.wholeBytes.length :=
        best.longest other.token other.literal (mem_numbered listed) fits
      have inside := within.trans (Lexicon.reach_le units)
      rw [same, List.length_take, Nat.min_eq_left inside] at most
      exact Nat.not_le_of_lt longer most
    rw [none]
    rfl

end

end Literal

end TableDriven
