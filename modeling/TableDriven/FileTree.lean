import TableDriven.Fault

/-! # File trees

Files and directories by their places.  A place lists the names on the way from the top of the
tree, and a path is a text that leads to a place: names between slashes, where `.` stays in a
directory and `..` goes back.  A path that a slash opens starts at the top and every other one at
`home`; a slash at the end asks for a directory.
-/

namespace TableDriven

/-- What stands at a place. -/
inductive FileNode where
  | file (bytes : List UInt8)
  | directory
  deriving DecidableEq, Inhabited

/-- A tree of files.  The top and `home` are always directories. -/
structure FileTree where
  nodes : List (List String × FileNode)
  deriving DecidableEq, Inhabited

namespace FileTree

/-- The directory that a program works in: it has no name, so that no path leads back into it. -/
def home : List String := [""]

def empty : FileTree := ⟨[]⟩

/-- A path taken apart: whether a slash opens it, its names, and whether a slash ends it.  Slashes
next to each other hold no name. -/
structure Route where
  fromTop : Bool
  names : List String
  closed : Bool
  deriving DecidableEq, Inhabited

namespace Route

def ofPath (path : String) : Route where
  fromTop := path.startsWith "/"
  names := (path.splitOn "/").filter (· ≠ "")
  closed := path.endsWith "/"

/-- Takes apart a path that must lead somewhere: it is not empty and has at most 4095 bytes. -/
def parse (path : String) : Except IoFault Route :=
  if path = "" then .error .missing
  else if 4095 < path.utf8ByteSize then .error .nameTooLong
  else .ok (ofPath path)

def start (route : Route) : List String := if route.fromTop then [] else home

/-- The routes to the directories above the last name, the nearest first. -/
def above (route : Route) : List Route :=
  let names := route.names.filter (· ≠ ".")
  (List.range (names.length - 1)).reverse.map fun count =>
    { route with names := names.take (count + 1), closed := false }

end Route

/-- Whether a name stands for a directory that is there, itself or the one above. -/
def isDots (name : String) : Bool := name = "." ∨ name = ".."

variable (tree : FileTree)

def find? (place : List String) : Option FileNode :=
  if place = [] ∨ place = home then some .directory
  else (tree.nodes.find? fun node => node.1 = place).map Prod.snd

def put (place : List String) (node : FileNode) : FileTree :=
  ⟨(place, node) :: tree.nodes.filter fun other => other.1 ≠ place⟩

/-- Where a name leads from a place, which must be a directory.  A name has at most 255 bytes. -/
def step (place : List String) (name : String) : Except IoFault (List String) :=
  match tree.find? place with
  | none => .error .missing
  | some (.file _) => .error .notDirectory
  | some .directory =>
    if name = "." then .ok place
    else if name = ".." then .ok place.dropLast
    else if 255 < name.utf8ByteSize then .error .nameTooLong
    else .ok (place ++ [name])

/-- The place that a route leads to; what is there may be missing. -/
def walk (route : Route) : Except IoFault (List String) :=
  (if route.closed then route.names ++ ["."] else route.names).foldlM tree.step route.start

/-- The directory that holds the last name of a route, and that name, which is `.` at the top. -/
def holder (route : Route) : Except IoFault (List String × String) := do
  let place ← (route.names.dropLast ++ ["."]).foldlM tree.step route.start
  return (place, route.names.getLast?.getD ".")

def isDirectory (route : Route) : Bool :=
  match tree.walk route with
  | .ok place => tree.find? place = some .directory
  | .error _ => false

def read (path : String) : Except IoFault (List UInt8) := do
  match tree.find? (← tree.walk (← Route.parse path)) with
  | none => throw .missing
  | some .directory => throw .isDirectory
  | some (.file bytes) => return bytes

/-- Makes a file, or replaces what it held.  A slash at the end is refused even behind the name
of a file. -/
def write (path : String) (bytes : List UInt8) : Except IoFault FileTree := do
  let route ← Route.parse path
  let (place, name) ← tree.holder route
  if route.closed ∨ isDots name then throw .isDirectory
  let place ← tree.step place name
  if tree.find? place = some .directory then throw .isDirectory
  return tree.put place (.file bytes)

def makeDirectory (route : Route) : Except IoFault FileTree := do
  let (place, name) ← tree.holder route
  if isDots name then throw .alreadyThere
  let place ← tree.step place name
  if (tree.find? place).isSome then throw .alreadyThere
  return tree.put place .directory

def ensureDirectory (route : Route) : Except IoFault FileTree :=
  match tree.makeDirectory route with
  | .ok made => .ok made
  | .error cause => if tree.isDirectory route then .ok tree else .error cause

/-- Makes the first directory of a list unless it is there; the others are made before it, if it
is missing what should hold it. -/
def ensureDirectories : List Route → Except IoFault FileTree
  | [] => .ok tree
  | route :: above =>
    match tree.ensureDirectory route with
    | .error .missing => do (← ensureDirectories above).ensureDirectory route
    | made => made

/-- Makes all directories of a path that are missing.  The empty path asks for none. -/
def makeDirectories (path : String) : Except IoFault FileTree := do
  if path = "" then return tree
  let route ← Route.parse path
  tree.ensureDirectories (route :: route.above)

/-- A tree of given files and the directories that hold them.  A path that cannot be made is
left out. -/
def ofFiles (files : List (String × List UInt8)) : FileTree :=
  files.foldl (fun tree (path, bytes) =>
    let made := do
      let tree ← tree.ensureDirectories (Route.ofPath path).above
      tree.write path bytes
    made.toOption.getD tree) empty

end FileTree

end TableDriven
