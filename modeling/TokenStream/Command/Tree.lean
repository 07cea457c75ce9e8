import TokenStream.Found
import TokenStream.Limits
import TokenStream.Text.Cells

/-!
A tree of files in memory, and the way of a path through it. A path is followed name by name, and
each name but the last has to lead to a directory; what the last name leads to may be missing.
-/
namespace TokenStream.Command

/-- Why a path cannot be followed, or does not lead to what is wanted. -/
inductive PathError
  | missing
  | alreadyThere
  | notDirectory
  | isDirectory
  | tooLong
  | nullCharacter
deriving DecidableEq, Repr

def PathError.reason : PathError → String
  | .missing => "No such file or directory (os error 2)"
  | .alreadyThere => "File exists (os error 17)"
  | .notDirectory => "Not a directory (os error 20)"
  | .isDirectory => "Is a directory (os error 21)"
  | .tooLong => "File name too long (os error 36)"
  | .nullCharacter => "file name contained an unexpected NUL byte"

inductive Entry
  | file (contents : Contents)
  /-- Reads as an empty file and forgets what is written to it. -/
  | void
  | directory (entries : List (String × Entry))

/-- Puts an entry under a name of a directory, in place of the one that is there. -/
def Entry.insert (e : Entry) (name : String) (new : Entry) : Entry :=
  match e with
  | .directory entries => .directory ((name, new) :: entries.filter fun e => e.1 != name)
  | _ => e

/-- A place in a tree: what is there, and the directories above it with the names that lead down
from each of them, the nearest first. -/
structure Spot where
  here : Option Entry
  above : List (String × Entry)

namespace Spot

def top (root : Entry) : Spot where
  here := some root
  above := []

/-- Follows one name. Empty names and single dots stay, double dots go up, at the top too. -/
def step (s : Spot) (name : String) : Except PathError Spot :=
  match s.here with
  | none => .error .missing
  | some (.directory entries) =>
    if name = "" ∨ name = "." then .ok s
    else if name = ".." then
      match s.above with
      | [] => .ok s
      | (_, directory) :: above => .ok { here := some directory, above }
    else if Limits.nameBytes < name.utf8ByteSize then .error .tooLong
    else .ok { here := entries.lookup name, above := (name, .directory entries) :: s.above }
  | some _ => .error .notDirectory

/-- The whole tree with an entry put at a place. -/
def fill (s : Spot) (new : Entry) : Entry :=
  s.above.foldl (fun e level => level.2.insert level.1 e) new

end Spot

/-- The names of a path. One that starts with a slash starts with an empty name. -/
def namesOf (path : String) : List String :=
  (Text.cells (· == '/') path.toList).map String.ofList

/-- Where a path leads, from a directory that is known by its names or else from the top. -/
def follow (root : Entry) (directory : List String) (path : String) : Except PathError Spot :=
  if path.toList.contains '\x00' then .error .nullCharacter
  else if path = "" then .error .missing
  else if Limits.pathBytes < path.utf8ByteSize then .error .tooLong
  else if path.startsWith "/" then (namesOf path).foldlM Spot.step (.top root)
  else (directory ++ namesOf path).foldlM Spot.step (.top root)

/-- The paths of the directories that a path passes through, the nearest first. What stays in place
does not count, wherever it stands. -/
def directoriesOf (path : String) : List String :=
  let names := namesOf path
  let ends := (List.range names.length).filter fun n =>
    match names[n]? with
    | some name => name != "" && name != "."
    | none => false
  (ends.map fun n => "/".intercalate (names.take (n + 1))).reverse.drop 1

end TokenStream.Command
