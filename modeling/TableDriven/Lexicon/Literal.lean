import TableDriven.Lexicon.Trie
import TableDriven.Text.Utf8

/-! # Scanner tables for literal tokens

A literal token is a fixed text with an optional fixed right context.  Both automata are tries:
the forward one of the texts, each followed by its context, the reverse one of the contexts read
backwards.
-/

namespace TableDriven

/-- A token with a fixed text.  Its context must follow the text but is not part of the token; its
param is the number to deliver it by, or a negative one for its own. -/
structure Literal where
  text : String
  context : Option String := none
  param : Int32 := -1
  deriving DecidableEq, Inhabited

namespace Literal

def textBytes (literal : Literal) : List UInt8 := Text.Utf8.encode literal.text

def contextBytes (literal : Literal) : List UInt8 := Text.Utf8.encode (literal.context.getD "")

/-- The name of a literal: its text, and its context if it has one. -/
def name (literal : Literal) : String :=
  match literal.context with
  | some context => literal.text ++ "/" ++ context
  | none => literal.text

/-- The bytes of all literals in the order in which they first appear. -/
def alphabet (literals : List Literal) : List UInt8 :=
  (literals.flatMap fun literal => literal.textBytes ++ literal.contextBytes).eraseDups

/-- The category of a byte: its place in the alphabet, counted from 1, or 0. -/
def category (alphabet : List UInt8) (byte : UInt8) : Nat :=
  if byte ∈ alphabet then alphabet.idxOf byte + 1 else 0

/-- A literal with its token number and, if it has a context, the number of that. -/
structure Numbered where
  literal : Literal
  token : Nat
  context : Option Nat
  deriving Inhabited

/-- Literals in order, the first of them numbered `token`; contexts are numbered from `context`. -/
def number (token context : Nat) : List Literal → List Numbered
  | [] => []
  | literal :: rest =>
    match literal.context with
    | some _ => ⟨literal, token, some context⟩ :: number (token + 1) (context + 1) rest
    | none => ⟨literal, token, none⟩ :: number (token + 1) context rest

def Numbered.wholeBytes (entry : Numbered) : List UInt8 :=
  entry.literal.textBytes ++ entry.literal.contextBytes

def Numbered.backBytes (entry : Numbered) : List UInt8 := entry.literal.contextBytes.reverse

/-- The state behind `bytes entry` for each of the entries that has a context, and the context's
number. -/
def contextStates (trie : Trie) (path : List UInt8 → Path) (bytes : Numbered → List UInt8)
    (entries : List Numbered) : List (Nat × Nat) :=
  entries.filterMap fun entry =>
    entry.context.map fun context => (trie.find (path (bytes entry)), context)

end Literal

namespace Lexicon

open Literal

/-- The scanner table for bytes whose token `i` is the `i`-th literal.  Bytes in no literal share
category 0, which leads nowhere. -/
def ofLiterals (literals : List Literal) : Lexicon :=
  let letters := alphabet literals
  let categories := letters.length + 1
  let table := ((List.range 256).map fun byte => category letters (UInt8.ofNat byte)).toArray
  let path := fun bytes : List UInt8 => bytes.map fun byte => table.getD byte.toNat 0
  let entries := number 0 0 literals
  let behind := entries.filter fun entry => entry.context.isSome
  let contexts := behind.length
  let forward := Trie.ofPaths categories (entries.map fun entry => path entry.wholeBytes)
  let reverse := Trie.ofPaths categories (behind.map fun entry => path entry.backBytes)
  let tokens := entries.map fun entry => (forward.find (path entry.wholeBytes), entry.token)
  {
    categoryCount := UInt64.ofNat categories
    categories := table.map UInt16.ofNat
    tokenParams := (literals.map Literal.param).toArray
    tokenContexts := (entries.map fun entry =>
      match entry.context with
      | some context => Int32.ofNat context
      | none => -1).toArray
    tokenNames := (literals.map Literal.name).toArray
    conditionCount := 1
    contextCount := UInt64.ofNat contexts
    forward := forward.automaton contexts tokens
      (contextStates forward path (fun entry => entry.literal.textBytes) entries)
    reverse := reverse.automaton contexts []
      (contextStates reverse path Numbered.backBytes entries)
  }

end Lexicon

end TableDriven
