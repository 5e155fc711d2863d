import TableDriven.Binary.Basic
import TableDriven.Dialogue

/-! # Sessions

A program that is run from a command line is a dialogue with what surrounds it: it asks for
files, variables and the time, and it has text printed.  A program that fails says what it was
doing and why.
-/

namespace TableDriven

open TableDriven.Binary (Bytes)

/-- What a program asks for. -/
inductive Request where
  | read (path : String)
  | write (path : String) (bytes : Bytes)
  | makeDirectories (path : String)
  | print (text : String)
  | environment (name : String)
  | clock
  deriving DecidableEq, Inhabited

/-- What answers a request. -/
def Request.Reply : Request → Type
  | .read _ => Except IoFault Bytes
  | .write _ _ => Except IoFault Unit
  | .makeDirectories _ => Except IoFault Unit
  | .print _ => Unit
  | .environment _ => Option String
  | .clock => Nat

/-- A computation that makes requests. -/
abbrev Session := Dialogue Request Request.Reply

/-- Why a program failed: what it was doing, and the causes, each that of the one before. -/
structure Failure where
  message : String
  causes : List String
  deriving DecidableEq, Inhabited

namespace Failure

/-- A cause on lines of its own: `mark` stands before the first of them and `margin` before each
of the others. -/
def causeBlock (mark margin cause : String) : String :=
  mark ++ ("\n" ++ margin).intercalate (cause.splitOn "\n") ++ "\n"

/-- The lines that list the causes; they are numbered if there are several. -/
def causeLines : List String → String
  | [] => ""
  | [cause] => "\nCaused by:\n" ++ causeBlock "    " "    " cause
  | causes => "\nCaused by:\n" ++ String.join (causes.zipIdx.map fun (cause, index) =>
      causeBlock s!"    {index}: " "       " cause)

def report (failure : Failure) : String :=
  "Error: " ++ failure.message ++ "\n" ++ causeLines failure.causes

end Failure

/-- A session that may fail. -/
abbrev Program := ExceptT Failure Session

namespace Program

def ask (request : Request) : Program request.Reply := ExceptT.lift (Dialogue.question request)

def contents (path : String) : Program (Except IoFault Bytes) := ask (.read path)

def makeDirectories (path : String) : Program (Except IoFault Unit) := ask (.makeDirectories path)

def environment (name : String) : Program (Option String) := ask (.environment name)

def now : Program Nat := ask .clock

def line (text : String) : Program Unit := ask (.print (text ++ "\n"))

/-- A result, or the failure to do `what`. -/
def doing (what : String) (causes : ε → List String) : Except ε α → Program α
  | .ok result => pure result
  | .error fault => throw ⟨what, causes fault⟩

def ioCauses (cause : IoFault) : List String := [cause.message]

/-- The exit code of a program, and what it says when it fails. -/
def outcome : Except Failure Unit → UInt32 × String
  | .ok () => (0, "")
  | .error failure => (1, failure.report)

end Program

end TableDriven
