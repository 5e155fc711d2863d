import Mathlib.Data.List.Perm.Subperm
import TableDriven.Lexicon.Literal
import TableDriven.Proofs.Lexicon.TrieAutomaton

/-! # The table of literals

Each byte of a literal has a category of its own, so that a path of categories spells one text, and
the two tries stand for the beginnings of what the literals consist of and of their contexts, read
backwards.  `checked_ofLiterals` says that the table passes the check if the numbers suffice for the
literals and for the states of both tries.
-/

namespace TableDriven

namespace Literal

variable {literals : List Literal}

/-- The text of a literal and its context behind it. -/
def wholeBytes (literal : Literal) : List UInt8 := literal.textBytes ++ literal.contextBytes

theorem nodup_eraseDups (items : List UInt8) : items.eraseDups.Nodup := by
  cases items with
  | nil => simp
  | cons item rest =>
    rw [List.eraseDups_cons, List.nodup_cons]
    exact ⟨by simp, nodup_eraseDups _⟩
termination_by items.length
decreasing_by
  exact Nat.lt_succ_of_le (List.length_filter_le _ _)

theorem mem_alphabet_iff {byte : UInt8} :
    byte ∈ alphabet literals ↔ ∃ literal ∈ literals, byte ∈ literal.wholeBytes := by
  simp [alphabet, wholeBytes]

theorem length_alphabet_le (literals : List Literal) : (alphabet literals).length ≤ 256 := by
  have distinct : ((alphabet literals).map UInt8.toNat).Nodup :=
    (nodup_eraseDups _).map fun _ _ => UInt8.toNat_inj.mp
  have bytes : (alphabet literals).map UInt8.toNat ⊆ List.range 256 := by
    intro number member
    obtain ⟨byte, -, rfl⟩ := List.mem_map.mp member
    exact List.mem_range.mpr byte.toNat_lt
  simpa using (List.Nodup.subperm distinct bytes).length_le

/-- The path that a text takes. -/
def spell (letters bytes : List UInt8) : Path := bytes.map (category letters)

theorem category_le (letters : List UInt8) (byte : UInt8) :
    category letters byte ≤ letters.length :=
  place_le letters byte

theorem spell_append (letters first second : List UInt8) :
    spell letters (first ++ second) = spell letters first ++ spell letters second :=
  List.map_append

/-- Texts of letters have paths of their own. -/
theorem spell_inj {letters bytes other : List UInt8} (known : ∀ byte ∈ bytes, byte ∈ letters)
    (same : spell letters bytes = spell letters other) : bytes = other := by
  induction bytes generalizing other with
  | nil => exact (List.map_eq_nil_iff.mp same.symm).symm
  | cons byte rest ih =>
    cases other with
    | nil => cases same
    | cons second more =>
      obtain ⟨first, others⟩ := List.cons.inj same
      rw [place_inj (known byte (.head _)) first,
        ih (fun byte member => known byte (.tail _ member)) others]

theorem spell_prefix_iff {letters bytes whole : List UInt8}
    (known : ∀ byte ∈ whole, byte ∈ letters) :
    spell letters bytes <+: spell letters whole ↔ bytes <+: whole := by
  constructor
  · rintro ⟨rest, same⟩
    have part := congrArg (List.take bytes.length) same
    rw [List.take_left' (by simp [spell]), spell, spell, ← List.map_take] at part
    rw [← spell_inj (fun byte member => known byte (List.mem_of_mem_take member)) part.symm]
    exact List.take_prefix _ _
  · rintro ⟨rest, rfl⟩
    exact ⟨spell letters rest, (spell_append ..).symm⟩

theorem spell_lt {letters bytes : List UInt8} :
    ∀ category ∈ spell letters bytes, category < letters.length + 1 := by
  intro number member
  obtain ⟨byte, -, rfl⟩ := List.mem_map.mp member
  exact Nat.lt_succ_of_le (category_le letters byte)

/-- The trie of some texts. -/
def trieOf (letters : List UInt8) (texts : List (List UInt8)) : Trie :=
  Trie.ofPaths (letters.length + 1) (texts.map (spell letters))

/-- The state of a text, or 0. -/
def stateOf (letters : List UInt8) (texts : List (List UInt8)) (bytes : List UInt8) : Nat :=
  (trieOf letters texts).find (spell letters bytes)

theorem represents_trieOf (letters : List UInt8) (texts : List (List UInt8)) :
    ∃ all, (trieOf letters texts).Represents all ∧
      (trieOf letters texts).categories = letters.length + 1 ∧
      ∀ path, path ∈ all ↔ path = [] ∨ ∃ text ∈ texts, path <+: spell letters text := by
  have within : ∀ path ∈ texts.map (spell letters), ∀ category ∈ path,
      category < letters.length + 1 := by
    simp only [List.forall_mem_map]
    exact fun _ _ => spell_lt
  simpa only [trieOf, List.mem_map, exists_exists_and_eq_and] using Trie.represents_ofPaths within

theorem stateOf_lt (letters : List UInt8) (texts : List (List UInt8)) (bytes : List UInt8) :
    stateOf letters texts bytes < (trieOf letters texts).size := by
  obtain ⟨all, represents, -⟩ := represents_trieOf letters texts
  exact represents.find_lt _

section
variable {letters : List UInt8} {texts : List (List UInt8)}
  (known : ∀ text ∈ texts, ∀ byte ∈ text, byte ∈ letters)
include known

/-- The states of the trie are the beginnings of the texts. -/
theorem stateOf_ne_zero_iff {bytes : List UInt8} :
    stateOf letters texts bytes ≠ 0 ↔ bytes = [] ∨ ∃ text ∈ texts, bytes <+: text := by
  obtain ⟨all, represents, -, every⟩ := represents_trieOf letters texts
  rw [stateOf, represents.find_ne_zero_iff, every]
  refine or_congr List.map_eq_nil_iff (exists_congr fun text => and_congr_right fun member => ?_)
  exact spell_prefix_iff (known text member)

/-- What is longer than no beginning is none. -/
theorem stateOf_append_eq_zero {first : List UInt8} (none : stateOf letters texts first = 0)
    (second : List UInt8) : stateOf letters texts (first ++ second) = 0 := by
  by_contra found
  obtain nothing | ⟨text, member, begins⟩ := (stateOf_ne_zero_iff known).mp found
  · exact (stateOf_ne_zero_iff known).mpr (.inl (List.append_eq_nil_iff.mp nothing).1) none
  · exact (stateOf_ne_zero_iff known).mpr
      (.inr ⟨text, member, (List.prefix_append first second).trans begins⟩) none

theorem stateOf_inj {bytes other : List UInt8} (found : stateOf letters texts bytes ≠ 0)
    (same : stateOf letters texts bytes = stateOf letters texts other) : bytes = other := by
  obtain ⟨all, represents, -⟩ := represents_trieOf letters texts
  refine spell_inj (fun byte member => ?_) (represents.find_inj found same)
  obtain rfl | ⟨text, listed, begins⟩ := (stateOf_ne_zero_iff known).mp found
  · cases member
  · exact known text listed byte (begins.subset member)

end

/-- The literals with their numbers. -/
def numbered (literals : List Literal) : List Numbered := number 0 0 literals

theorem map_number (token context : Nat) :
    (number token context literals).map (fun entry => (entry.literal, entry.token)) =
      literals.zipIdx token := by
  induction literals generalizing token context with
  | nil => rfl
  | cons literal rest ih =>
    unfold number
    split <;> rw [List.map_cons, ih, List.zipIdx_cons]

/-- An entry has a number for its context if the literal has one, from `context` on, and all of
them are different. -/
theorem context_of_mem {token context : Nat} {entry : Numbered}
    (member : entry ∈ number token context literals) :
    entry.context.isSome = entry.literal.context.isSome ∧
      ∀ own ∈ entry.context, context ≤ own ∧
        own < context + ((number token context literals).filter (·.context.isSome)).length := by
  induction literals generalizing token context with
  | nil => cases member
  | cons literal rest ih =>
    unfold number at member ⊢
    split at member
    next text given =>
      cases member with
      | head => simp [given]
      | tail _ member =>
        obtain ⟨same, bounds⟩ := ih member
        refine ⟨same, fun own found => ?_⟩
        have := bounds own found
        simp only [Option.isSome_some, List.filter_cons_of_pos, List.length_cons]
        omega
    next given =>
      cases member with
      | head => simp [given]
      | tail _ member => simpa using ih member

theorem pairwise_number (token context : Nat) :
    (number token context literals).Pairwise fun entry other =>
      ∀ own ∈ entry.context, own ∉ other.context := by
  induction literals generalizing token context with
  | nil => exact .nil
  | cons literal rest ih =>
    unfold number
    split
    · refine List.pairwise_cons.mpr ⟨fun other member own mine theirs => ?_, ih ..⟩
      have later := ((context_of_mem member).2 own theirs).1
      cases mine
      omega
    · exact List.pairwise_cons.mpr ⟨fun other member own mine => (by cases mine), ih ..⟩

theorem pairwise_numbered (literals : List Literal) :
    (numbered literals).Pairwise fun entry other => ∀ own ∈ entry.context, own ∉ other.context :=
  pairwise_number 0 0

/-- No two literals share a context. -/
theorem eq_of_context {entry other : Numbered} {own : Nat} (first : entry ∈ numbered literals)
    (second : other ∈ numbered literals) (mine : entry.context = some own)
    (theirs : other.context = some own) : entry = other := by
  have apart := List.pairwise_iff_getElem.mp (pairwise_numbered literals)
  obtain ⟨index, inside, rfl⟩ := List.mem_iff_getElem.mp first
  obtain ⟨place, within, rfl⟩ := List.mem_iff_getElem.mp second
  obtain before | rfl | behind := Nat.lt_trichotomy index place
  · exact absurd theirs (apart _ _ inside within before own mine)
  · rfl
  · exact absurd mine (apart _ _ within inside behind own theirs)

theorem contextBytes_eq_nil {entry : Numbered} (member : entry ∈ numbered literals)
    (none : entry.context = none) : entry.literal.contextBytes = [] := by
  have missing := (context_of_mem member).1
  rw [none, Option.isSome_none, eq_comm, Option.isSome_eq_false_iff, Option.isNone_iff_eq_none]
    at missing
  rw [contextBytes, missing]
  rfl

/-! ## The table -/

/-- The texts of the forward automaton. -/
def wholes (literals : List Literal) : List (List UInt8) :=
  (numbered literals).map Numbered.wholeBytes

/-- The texts of the reverse automaton. -/
def backs (literals : List Literal) : List (List UInt8) :=
  ((numbered literals).filter (·.context.isSome)).map Numbered.backBytes

def forwardTrie (literals : List Literal) : Trie := trieOf (alphabet literals) (wholes literals)

def reverseTrie (literals : List Literal) : Trie := trieOf (alphabet literals) (backs literals)

/-- How many contexts there are. -/
def contextTotal (literals : List Literal) : Nat :=
  ((numbered literals).filter (·.context.isSome)).length

/-- The tokens and the states that they are recognized in. -/
def recognized (literals : List Literal) : List (Nat × Nat) :=
  (numbered literals).map fun entry =>
    ((forwardTrie literals).find (spell (alphabet literals) entry.wholeBytes), entry.token)

/-- The contexts and the states that their texts end in. -/
def textEnds (literals : List Literal) : List (Nat × Nat) :=
  contextStates (forwardTrie literals) (spell (alphabet literals))
    (fun entry => entry.literal.textBytes) (numbered literals)

/-- The contexts and the states that they end in, read backwards. -/
def contextEnds (literals : List Literal) : List (Nat × Nat) :=
  contextStates (reverseTrie literals) (spell (alphabet literals)) Numbered.backBytes
    (numbered literals)

/-- There are no more literals than tokens have numbers, and no more states than states do. -/
structure Few (literals : List Literal) : Prop where
  tokens : literals.length ≤ 65536
  forward : (Lexicon.ofLiterals literals).forward.stateCount ≤ 65535
  reverse : (Lexicon.ofLiterals literals).reverse.stateCount ≤ 65535

theorem spell_eq (literals : List Literal) :
    (fun bytes : List UInt8 => bytes.map fun byte => (((List.range 256).map fun byte =>
      category (alphabet literals) (UInt8.ofNat byte)).toArray).getD byte.toNat 0) =
      spell (alphabet literals) := by
  funext bytes
  refine List.map_congr_left fun byte _ => ?_
  simp [Array.getD_eq_getD_getElem?, byte.toNat_lt]

theorem forward_ofLiterals (literals : List Literal) :
    (Lexicon.ofLiterals literals).forward = (forwardTrie literals).automaton (contextTotal literals)
      (recognized literals) (textEnds literals) := by
  rw [Lexicon.ofLiterals, recognized, textEnds, forwardTrie, trieOf, wholes, List.map_map]
  simp only [spell_eq]
  rfl

theorem reverse_ofLiterals (literals : List Literal) :
    (Lexicon.ofLiterals literals).reverse = (reverseTrie literals).automaton (contextTotal literals)
      [] (contextEnds literals) := by
  rw [Lexicon.ofLiterals, contextEnds, reverseTrie, trieOf, backs, List.map_map]
  simp only [spell_eq]
  rfl

theorem map_numbered (literals : List Literal) :
    (numbered literals).map (fun entry => (entry.literal, entry.token)) = literals.zipIdx :=
  map_number 0 0

theorem length_numbered (literals : List Literal) :
    (numbered literals).length = literals.length := by
  simpa using congrArg List.length (map_numbered literals)

theorem map_token_numbered (literals : List Literal) :
    (numbered literals).map Numbered.token = List.range literals.length := by
  have tokens := congrArg (List.map Prod.snd) (map_numbered literals)
  rwa [List.map_map, List.zipIdx_map_snd, ← List.range_eq_range'] at tokens

theorem map_recognized (literals : List Literal) :
    (recognized literals).map Prod.snd = List.range literals.length := by
  rw [← map_token_numbered, recognized, List.map_map]
  rfl

theorem pairwise_recognized (literals : List Literal) :
    ((recognized literals).map Prod.snd).Pairwise (· < ·) :=
  map_recognized literals ▸ List.pairwise_lt_range

theorem lt_of_mem_recognized {entry : Nat × Nat} (member : entry ∈ recognized literals) :
    entry.2 < literals.length :=
  List.mem_range.mp (map_recognized literals ▸ List.mem_map_of_mem member)

theorem getElem?_numbered {entry : Numbered} (member : entry ∈ numbered literals) :
    (numbered literals)[entry.token]? = some entry := by
  obtain ⟨index, found⟩ := List.mem_iff_getElem?.mp member
  have token := congrArg (·[index]?) (map_token_numbered literals)
  simp only [List.getElem?_map, found, Option.map_some] at token
  obtain ⟨inside, same⟩ := List.getElem?_eq_some_iff.mp token.symm
  rw [List.getElem_range] at same
  exact same ▸ found

theorem mem_numbered {entry : Numbered} (member : entry ∈ numbered literals) :
    literals[entry.token]? = some entry.literal := by
  have listed := List.mem_map_of_mem (f := fun entry => (entry.literal, entry.token)) member
  rw [map_numbered] at listed
  exact List.mem_zipIdx_iff_getElem?.mp listed

theorem exists_numbered {index : Nat} {literal : Literal}
    (found : literals[index]? = some literal) :
    ∃ entry ∈ numbered literals, entry.literal = literal ∧ entry.token = index := by
  have listed : (literal, index) ∈ literals.zipIdx := List.mem_zipIdx_iff_getElem?.mpr found
  rw [← map_numbered] at listed
  obtain ⟨entry, member, same⟩ := List.mem_map.mp listed
  exact ⟨entry, member, (Prod.mk.inj same).1, (Prod.mk.inj same).2⟩

theorem pairwise_token (literals : List Literal) :
    (numbered literals).Pairwise fun entry other => entry.token < other.token :=
  List.pairwise_map.mp (map_token_numbered literals ▸ List.pairwise_lt_range)

theorem contextTotal_le (literals : List Literal) : contextTotal literals ≤ literals.length :=
  length_numbered literals ▸ List.length_filter_le _ _

theorem lt_contextTotal {entry : Numbered} {own : Nat} (member : entry ∈ numbered literals)
    (given : entry.context = some own) : own < contextTotal literals := by
  simpa [contextTotal, numbered] using ((context_of_mem member).2 own given).2

theorem toInt_context {entry : Numbered} {own : Nat} (few : literals.length ≤ 65536)
    (member : entry ∈ numbered literals) (given : entry.context = some own) :
    (Int32.ofNat own).toInt = own := by
  have below := lt_contextTotal member given
  have contexts := contextTotal_le literals
  exact Int32.toInt_ofNat_of_lt (by omega)

/-- The sizes of the table. -/
def frameOf (literals : List Literal) : Automaton.Frame :=
  ⟨(alphabet literals).length + 1, 1, contextTotal literals, literals.length⟩

theorem frame_ofLiterals (few : literals.length ≤ 65536) :
    (Lexicon.ofLiterals literals).frame = frameOf literals := by
  have letters := length_alphabet_le literals
  have contexts := contextTotal_le literals
  have wide :
      (UInt64.ofNat ((alphabet literals).length + 1)).toNat = (alphabet literals).length + 1 :=
    UInt64.toNat_ofNat_of_lt' (by simp only [UInt64.size]; omega)
  have total : (UInt64.ofNat (contextTotal literals)).toNat = contextTotal literals :=
    UInt64.toNat_ofNat_of_lt' (by simp only [UInt64.size]; omega)
  have tokens : (Lexicon.ofLiterals literals).tokenCount = literals.length := by
    simp [Lexicon.ofLiterals, Lexicon.tokenCount]
  rw [Lexicon.frame, tokens]
  exact congrArg₂ (fun categories contexts => Automaton.Frame.mk categories 1 contexts _) wide total

section
variable (few : Few literals)
include few

theorem Few.size_forward : (forwardTrie literals).size < UInt16.size := by
  have forward := few.forward
  rw [forward_ofLiterals, Trie.stateCount_automaton] at forward
  exact Nat.lt_succ_of_le forward

theorem Few.size_reverse : (reverseTrie literals).size < UInt16.size := by
  have reverse := few.reverse
  rw [reverse_ofLiterals, Trie.stateCount_automaton] at reverse
  exact Nat.lt_succ_of_le reverse

theorem Few.checked_forward :
    ((forwardTrie literals).automaton (frameOf literals).contexts (recognized literals)
      (textEnds literals)).Checked (frameOf literals) := by
  obtain ⟨all, represents, wide, -⟩ := represents_trieOf (alphabet literals) (wholes literals)
  exact Trie.checked_automaton represents few.size_forward wide.symm rfl
    (pairwise_recognized literals) few.tokens fun _ => lt_of_mem_recognized

theorem Few.checked_reverse :
    ((reverseTrie literals).automaton (frameOf literals).contexts [] (contextEnds literals)).Checked
      (frameOf literals) := by
  obtain ⟨all, represents, wide, -⟩ := represents_trieOf (alphabet literals) (backs literals)
  exact Trie.checked_automaton represents few.size_reverse wide.symm rfl .nil few.tokens (by simp)

theorem checked_ofLiterals : (Lexicon.ofLiterals literals).Checked := by
  have frame := frame_ofLiterals few.tokens
  have letters := length_alphabet_le literals
  refine {
    categories_pos := by rw [frame]; exact Nat.succ_pos _
    conditions_pos := Nat.one_pos
    category_lt := fun unit word found => ?_
    contexts_size := ?_
    names_size := .inr ?_
    context := fun token word found => ?_
    forward := by rw [frame, forward_ofLiterals]; exact few.checked_forward
    reverse := by rw [frame, reverse_ofLiterals]; exact few.checked_reverse }
  · simp only [Lexicon.ofLiterals, List.map_toArray, List.map_map, List.getElem?_toArray,
      List.getElem?_map] at found
    obtain ⟨byte, -, rfl⟩ := Option.map_eq_some_iff.mp found
    have below := category_le (alphabet literals) (UInt8.ofNat byte)
    rw [frame, Function.comp_apply,
      UInt16.toNat_ofNat_of_lt' (by simp only [UInt16.size]; omega)]
    exact Nat.lt_succ_of_le below
  · have size : (number 0 0 literals).length = literals.length := length_numbered literals
    simpa [Lexicon.ofLiterals, Lexicon.tokenCount] using size
  · simp [Lexicon.ofLiterals, Lexicon.tokenCount]
  · simp only [Lexicon.ofLiterals, List.getElem?_toArray, List.getElem?_map] at found
    obtain ⟨entry, listed, rfl⟩ := Option.map_eq_some_iff.mp found
    have member := List.mem_of_getElem? listed
    cases given : entry.context with
    | none => exact .inl rfl
    | some own =>
      have value := toInt_context few.tokens member given
      have size : (Lexicon.ofLiterals literals).contexts = contextTotal literals :=
        congrArg Automaton.Frame.contexts frame
      refine .inr ⟨by simp [value], ?_⟩
      rw [size]
      simpa [value] using lt_contextTotal member given

end

end Literal

end TableDriven
