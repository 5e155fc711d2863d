import TableDriven.Json.Lexeme

/-! # JSON values

A value is a tree; `Value.lexemes` writes one down and `Value.ofLexemes?` builds one from its
lexemes with a stack of the containers that are still open, so that values may be nested to any
depth.  `Coded` types have a JSON form: integers in the range of their type, truth values, texts,
and arrays of these.
-/

namespace TableDriven.Json

/-- A JSON value.  A number is inexact if it has a fraction, an exponent, or a sign before zero. -/
inductive Value where
  | null
  | bool (value : Bool)
  | integer (value : Int)
  | inexact
  | text (pieces : List Piece)
  | array (items : List Value)
  | object (members : List (List Piece × Value))
  deriving Inhabited

/-- The lexemes before the next item: those in `done`, newest first, and a comma unless the item
is the first. -/
def separated (first : Bool) (done : List Lexeme) : List Lexeme :=
  if first then done else .comma :: done

mutual
/-- The lexemes of a value behind those in `done`, newest first. -/
def Value.onto (done : List Lexeme) : Value → List Lexeme
  | .null => .null :: done
  | .bool value => .bool value :: done
  | .integer value => .integer value :: done
  | .inexact => .inexact :: done
  | .text pieces => .text pieces :: done
  | .array items => .closeArray :: itemsOnto true (.openArray :: done) items
  | .object members => .closeObject :: membersOnto true (.openObject :: done) members

/-- The lexemes of an array's items behind those in `done`, newest first. -/
def itemsOnto (first : Bool) (done : List Lexeme) : List Value → List Lexeme
  | [] => done
  | item :: rest => itemsOnto false (item.onto (separated first done)) rest

/-- The lexemes of an object's members behind those in `done`, newest first. -/
def membersOnto (first : Bool) (done : List Lexeme) :
    List (List Piece × Value) → List Lexeme
  | [] => done
  | (key, value) :: rest =>
    membersOnto false (value.onto (.colon :: .text key :: separated first done)) rest
end

def Value.lexemes (value : Value) : List Lexeme := (value.onto []).reverse

def Value.render (value : Value) : List UInt8 := Json.render value.lexemes

/-- A container that is still open, with its content newest first.  A `member` awaits the value of
its key. -/
inductive OpenValue where
  | array (items : List Value)
  | object (members : List (List Piece × Value))
  | member (members : List (List Piece × Value)) (key : List Piece)
  deriving Inhabited

/-- What may come next.  A separator is a comma or the end of the innermost container; behind the
whole value nothing may come. -/
inductive Expected where
  | value
  | valueOrEnd
  | key
  | keyOrEnd
  | colon
  | separator
  | nothing (whole : Value)
  deriving Inhabited

/-- A value under construction: the open containers, innermost first, and what comes next. -/
structure Builder where
  containers : List OpenValue
  expected : Expected
  deriving Inhabited

namespace Builder

def put (containers : List OpenValue) (value : Value) : Option Builder :=
  match containers with
  | [] => some ⟨[], .nothing value⟩
  | .array items :: outer => some ⟨.array (value :: items) :: outer, .separator⟩
  | .member members key :: outer => some ⟨.object ((key, value) :: members) :: outer, .separator⟩
  | .object _ :: _ => none

def value (containers : List OpenValue) : Lexeme → Option Builder
  | .openObject => some ⟨.object [] :: containers, .keyOrEnd⟩
  | .openArray => some ⟨.array [] :: containers, .valueOrEnd⟩
  | .null => put containers .null
  | .bool value => put containers (.bool value)
  | .integer value => put containers (.integer value)
  | .inexact => put containers .inexact
  | .text pieces => put containers (.text pieces)
  | .closeObject | .closeArray | .comma | .colon => none

def close (containers : List OpenValue) : Lexeme → Option Builder
  | .closeArray =>
    match containers with
    | .array items :: outer => put outer (.array items.reverse)
    | _ => none
  | .closeObject =>
    match containers with
    | .object members :: outer => put outer (.object members.reverse)
    | _ => none
  | _ => none

def key (containers : List OpenValue) : Lexeme → Option Builder
  | .text pieces =>
    match containers with
    | .object members :: outer => some ⟨.member members pieces :: outer, .colon⟩
    | _ => none
  | _ => none

/-- Goes on to the next item of the innermost container. -/
def next (containers : List OpenValue) : Option Builder :=
  match containers with
  | .array _ :: _ => some ⟨containers, .value⟩
  | .object _ :: _ => some ⟨containers, .key⟩
  | _ => none

/-- Takes one lexeme. -/
def step (builder : Builder) (lexeme : Lexeme) : Option Builder :=
  let containers := builder.containers
  match builder.expected with
  | .value => value containers lexeme
  | .valueOrEnd => if lexeme = .closeArray then close containers lexeme else value containers lexeme
  | .key => key containers lexeme
  | .keyOrEnd => if lexeme = .closeObject then close containers lexeme else key containers lexeme
  | .colon => if lexeme = .colon then some ⟨containers, .value⟩ else none
  | .separator => if lexeme = .comma then next containers else close containers lexeme
  | .nothing _ => none

def finish (builder : Builder) : Option Value :=
  match builder.expected with
  | .nothing whole => some whole
  | _ => none

end Builder

/-- The value that lexemes spell; `none` if they spell none or more than one. -/
def Value.ofLexemes? (lexemes : List Lexeme) : Option Value := do
  (← lexemes.foldlM Builder.step ⟨[], .value⟩).finish

def Value.ofBytes? (bytes : List UInt8) : Option Value := do
  Value.ofLexemes? (← Lexeme.ofBytes? bytes)

/-- A type whose values have a JSON form. -/
class Coded (α : Type) where
  toValue : α → Value
  ofValue? : Value → Option α

/-- The integer that a value is, if it lies from `low` up to but not including `high`. -/
def Value.integerIn? (low high : Int) : Value → Option Int
  | .integer value => if low ≤ value ∧ value < high then some value else none
  | _ => none

instance : Coded UInt16 where
  toValue number := .integer number.toNat
  ofValue? value := (value.integerIn? 0 0x10000).map fun number => UInt16.ofNat number.toNat

instance : Coded UInt32 where
  toValue number := .integer number.toNat
  ofValue? value := (value.integerIn? 0 0x100000000).map fun number => UInt32.ofNat number.toNat

instance : Coded UInt64 where
  toValue number := .integer number.toNat
  ofValue? value :=
    (value.integerIn? 0 0x10000000000000000).map fun number => UInt64.ofNat number.toNat

instance : Coded Int32 where
  toValue number := .integer number.toInt
  ofValue? value := (value.integerIn? (-0x80000000) 0x80000000).map Int32.ofInt

instance : Coded Bool where
  toValue flag := .bool flag
  ofValue?
    | .bool flag => some flag
    | _ => none

instance : Coded String where
  toValue text := .text (pieces text)
  ofValue?
    | .text pieces => spelled? pieces
    | _ => none

instance [Coded α] : Coded (Array α) where
  toValue items := .array (items.toList.map Coded.toValue)
  ofValue?
    | .array items => (items.mapM Coded.ofValue?).map List.toArray
    | _ => none

def Value.record (members : List (String × Value)) : Value :=
  .object (members.map fun (key, value) => (pieces key, value))

/-- The value of the one member called `name`. -/
def member? (members : List (String × Value)) (name : String) : Option Value :=
  match members.filter fun member => member.1 = name with
  | [member] => some member.2
  | _ => none

/-- The values of a record's fields in the order of `names`.  The record is an object that has
each field once, among others, or an array of exactly its fields. -/
def Value.fields? (names : List String) : Value → Option (List Value)
  | .object members => do
    let members ← members.mapM fun (key, value) => (spelled? key).map fun name => (name, value)
    names.mapM (member? members)
  | .array items => if items.length = names.length then some items else none
  | _ => none

end TableDriven.Json
