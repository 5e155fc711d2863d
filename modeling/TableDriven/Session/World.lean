import TableDriven.FileTree
import TableDriven.Session.Basic

/-! # Sessions over a described world

A session can be run over a value: a file tree and variables, with the printed text kept and the
time standing still.
-/

namespace TableDriven

/-- What surrounds a program.  The texts that were printed stand last one first. -/
structure World where
  files : FileTree
  environment : List (String × String)
  printed : List String
  deriving DecidableEq, Inhabited

namespace World

def output (world : World) : String := String.join world.printed.reverse

def change (world : World) : Except IoFault FileTree → Except IoFault Unit × World
  | .ok files => (.ok (), { world with files })
  | .error cause => (.error cause, world)

/-- Answers a request. -/
def answer : (request : Request) → World → request.Reply × World
  | .read path, world => (world.files.read path, world)
  | .write path bytes, world => world.change (world.files.write path bytes)
  | .makeDirectories path, world => world.change (world.files.makeDirectories path)
  | .print text, world => ((), { world with printed := text :: world.printed })
  | .environment name, world => (world.environment.lookup name, world)
  | .clock, world => ((0 : Nat), world)

/-- Answers every request of a session. -/
def run : Session α → World → α × World
  | .done result, world => (result, world)
  | .ask request next, world =>
    let (reply, world) := answer request world
    run (next reply) world

end World

end TableDriven
