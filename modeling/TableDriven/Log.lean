/-! # Log entries

What the components report about their work, beside their answers.  An entry has a level; a
reader of the log asks for a level and gets the entries that are at least that severe.
-/

namespace TableDriven.Log

/-- How severe an entry is. -/
inductive Level where
  | error
  | warn
  | info
  | debug
  | trace
  deriving DecidableEq, Inhabited

namespace Level

/-- The place of a level in the order of severity, the most severe first. -/
def rank : Level → Nat
  | .error => 1
  | .warn => 2
  | .info => 3
  | .debug => 4
  | .trace => 5

def name : Level → String
  | .error => "ERROR"
  | .warn => "WARN"
  | .info => "INFO"
  | .debug => "DEBUG"
  | .trace => "TRACE"

end Level

/-- One line of the log. -/
structure Entry where
  level : Level
  text : String
  deriving DecidableEq, Inhabited

/-- The entries that are at least as severe as `level`, in order. -/
def upTo (level : Level) (entries : List Entry) : List Entry :=
  entries.filter fun entry => entry.level.rank ≤ level.rank

end TableDriven.Log
