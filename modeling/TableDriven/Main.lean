import TableDriven.Command.Calculate
import TableDriven.Command.Publish
import TableDriven.Command.Summarize

/-! # The command line

Runs a program against the real files, variables and clock.  The first argument chooses it:
`summarize`, `publish`, or otherwise the calculation of what the arguments name.
-/

namespace TableDriven

/-- The cause of a failed input or output.  Code 21 tells a directory where a file is wanted from
a file where a directory is. -/
def IoFault.ofError : IO.Error → IoFault
  | .noFileOrDirectory .. => .missing
  | .alreadyExists .. => .alreadyThere
  | .inappropriateType _ code _ => if code = 21 then .isDirectory else .notDirectory
  | .invalidArgument _ code _ =>
    if code = 36 then .nameTooLong else .told "Invalid argument (os error 22)"
  | .permissionDenied .. => .told "Permission denied (os error 13)"
  | error => .told (toString error)

def attempt (action : IO α) : IO (Except IoFault α) := do
  match ← action.toBaseIO with
  | .ok result => return .ok result
  | .error error => return .error (IoFault.ofError error)

def live : (request : Request) → IO request.Reply
  | .read path => attempt do return (← IO.FS.readBinFile path).toList
  | .write path bytes => attempt (IO.FS.writeBinFile path (ByteArray.mk bytes.toArray))
  | .makeDirectories path => attempt (IO.FS.createDirAll path)
  | .print text => do
    (← IO.getStdout).putStr text
  | .environment name => IO.getEnv name
  | .clock => IO.monoNanosNow

def runLive : Session α → IO α
  | .done result => return result
  | .ask request next => do runLive (next (← live request))

def program : List String → Program Unit
  | "summarize" :: rest => Command.summarize rest
  | "publish" :: rest => Command.publish rest
  | arguments => Command.calculate arguments

end TableDriven

/-- Runs the program; answers its exit code. -/
def main (arguments : List String) : IO UInt32 := do
  let (code, message) := TableDriven.Program.outcome
    (← TableDriven.runLive (TableDriven.program arguments))
  (← IO.getStderr).putStr message
  return code
