import TokenStream.Command.Host
import TokenStream.Command.Tree

/-!
A host in memory: a tree of files, the directory that the command runs in, the environment, what was
printed, and a clock that stands still.
-/
namespace TokenStream.Command

structure Snapshot where
  root : Entry
  /-- Names from the top down to the directory that the command runs in. -/
  directory : List String
  environment : List (String × String)
  printed : String
  errors : List String
  clock : Log.Instant

namespace Snapshot

/-- The tree of a machine with nothing in it but the usual directories. -/
def bareTree : Entry :=
  let bare :=
    ["bin", "etc", "home", "lib", "opt", "proc", "root", "run", "sbin", "sys", "usr", "var"]
  .directory (("dev", .directory [("null", .void)])
    :: ("tmp", .directory [("work", .directory [])])
    :: bare.map fun name => (name, .directory []))

/-- A command that is about to run in an empty directory. -/
def empty : Snapshot where
  root := bareTree
  directory := ["tmp", "work"]
  environment := []
  printed := ""
  errors := []
  clock := { text := "1970-01-01T00:00:00+00:00" }

def find (s : Snapshot) (path : String) : Except PathError Spot :=
  follow s.root s.directory path

def put (s : Snapshot) (spot : Spot) (e : Entry) : Snapshot :=
  { s with root := spot.fill e }

def look (s : Snapshot) (path : String) : Found :=
  match s.find path with
  | .error .missing => .missing PathError.missing.reason
  | .error e => .unreadable e.reason
  | .ok spot =>
    match spot.here with
    | none => .missing PathError.missing.reason
    | some (.file contents) => .file contents
    | some .void => .file (.zeros 0)
    | some (.directory _) => .unreadable PathError.isDirectory.reason

def isDirectory (s : Snapshot) (path : String) : Bool :=
  match s.find path with
  | .ok { here := some (.directory _), .. } => true
  | _ => false

def makeDirectory (s : Snapshot) (path : String) : Except PathError Snapshot := do
  let spot ← s.find path
  if spot.here.isSome then throw .alreadyThere
  return s.put spot (.directory [])

/-- Makes the first directory and, as far as it takes them, those after it. What was made stays also
if something fails later. -/
def makeDirectories (s : Snapshot) : List String → Snapshot × Option PathError
  | [] => (s, none)
  | path :: above =>
    let settle (s : Snapshot) (e : PathError) : Snapshot × Option PathError :=
      (s, if e = .alreadyThere ∧ s.isDirectory path then none else some e)
    match s.makeDirectory path with
    | .ok s => (s, none)
    | .error .missing =>
      match makeDirectories s above with
      | (s, some e) => (s, some e)
      | (s, none) =>
        match s.makeDirectory path with
        | .ok s => (s, none)
        | .error e => settle s e
    | .error e => settle s e

/-- Appends text to a file, which is made if it is not there. -/
def append (s : Snapshot) (path text : String) : Except PathError Snapshot := do
  let spot ← s.find path
  match spot.here with
  | none => return s.put spot (.file (.ofText text))
  | some (.file contents) => return s.put spot (.file (contents.append text))
  | some .void => return s
  | some (.directory _) => throw .isDirectory

/-- Makes sure that there is a log file, with the directories it is in. -/
def openLog (s : Snapshot) (path : String) : Snapshot × Option PathError :=
  match s.makeDirectories (directoriesOf path) with
  | (s, some e) => (s, some e)
  | (s, none) =>
    match s.append path "" with
    | .ok s => (s, none)
    | .error e => (s, some e)

/-- Puts an entry under a path, in directories made for it. -/
def addEntry (s : Snapshot) (path : String) (e : Entry) : Snapshot :=
  let s := (s.makeDirectories (directoriesOf path)).1
  match s.find path with
  | .ok spot => s.put spot e
  | .error _ => s

/-- The text of a file, if there is one. -/
def text? (s : Snapshot) (path : String) : Option String :=
  match s.look path with
  | .file contents => contents.text?
  | _ => none

def host : Host (StateM Snapshot) where
  valueOf v := return (← get).environment.lookup v.name
  look path := return (← get).look path
  openLog path := do
    let (s, failed) := (← get).openLog path
    set s
    return failed.map PathError.reason
  appendLine path line := modify fun s =>
    match s.append path (line ++ "\n") with
    | .ok s => s
    | .error _ => s
  print text := modify fun s => { s with printed := s.printed ++ text }
  printError line := modify fun s => { s with errors := s.errors ++ [line] }
  now := return (← get).clock

end Snapshot

end TokenStream.Command
