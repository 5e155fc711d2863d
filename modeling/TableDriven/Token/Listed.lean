import TableDriven.Token.Source

/-! # Listed tokens

A token source that replays a list and then delivers its end-of-file token for ever.
-/

namespace TableDriven

/-- Tokens to replay. -/
structure Listed (V : Type) where
  tokens : List (Token V)
  eof : Token Unit
  isClosed : Bool
  deriving Inhabited

namespace Listed

/-- Where the end of file stands behind `tokens`: one column behind the last of them. -/
def eofPosition (tokens : List (Token V)) : Position :=
  match tokens.getLast? with
  | some last => ⟨last.position.line, last.position.column + 1⟩
  | none => .origin

/-- A source of `tokens`, which ends in tokens numbered `eofSymbol`. -/
def ofTokens (tokens : List (Token V)) (eofSymbol : Nat) : Listed V :=
  ⟨tokens, ⟨eofSymbol, none, none, eofPosition tokens⟩, false⟩

def ofSymbols (symbols : List (Nat × Option V)) (eofSymbol : Nat) : Listed V :=
  ofTokens
    ((symbols.zipIdx 1).map fun ((number, value), column) => ⟨number, value, none, ⟨1, column⟩⟩)
    eofSymbol

/-- The next token and the rest. -/
def next (listed : Listed V) : Token V × Listed V :=
  match listed.tokens with
  | [] => (listed.eof.withoutValue, listed)
  | token :: rest => (token, { listed with tokens := rest })

def close (listed : Listed V) : Listed V := { listed with tokens := [], isClosed := true }

instance : TokenSource (Listed V) V ε where
  next _ listed := let (token, rest) := listed.next; .ok ⟨.ok token, rest, []⟩
  close _ := []

instance : LawfulTokenSource (Listed V) V ε where
  next_mono pulled _ := pulled

end Listed

end TableDriven
