import TableDriven.Text.Printable

/-! # Quoted text

Characters and texts between quotes, as log lines and messages show them: the common controls by
their short escapes, the quote and the backslash behind a backslash, every other character that
does not print as itself by its number.
-/

namespace TableDriven.Text.Quoted

open TableDriven.Text.Printable (isPrintable)

/-- A character by its number, in lower-case hexadecimal without padding. -/
def numbered (char : Char) : String :=
  "\\u\x7b" ++ String.ofList (Nat.toDigits 16 char.toNat) ++ "\x7d"

/-- A character as it stands between two `quote`s. -/
def escaped (quote char : Char) : String :=
  if char = '\x00' then "\\0"
  else if char = '\t' then "\\t"
  else if char = '\n' then "\\n"
  else if char = '\r' then "\\r"
  else if char = '\\' then "\\\\"
  else if char = quote then String.ofList ['\\', quote]
  else if isPrintable char then char.toString
  else numbered char

def ofChar (char : Char) : String := "'" ++ escaped '\'' char ++ "'"

def ofString (text : String) : String :=
  "\"" ++ String.join (text.toList.map (escaped '"')) ++ "\""

def bracketed (items : List String) : String := "[" ++ ", ".intercalate items ++ "]"

end TableDriven.Text.Quoted
