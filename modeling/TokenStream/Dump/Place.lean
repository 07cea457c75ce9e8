/-!
Where a reader or a writer of a dump stands: the current file, the line in it, and for each file
that was left the line it was left at. Reader and writer move in the same way, which is why the
one finds what the other means.
-/
namespace TokenStream.Dump

structure Place where
  file : Option UInt32
  line : UInt32
  remembered : List (UInt32 × UInt32)
deriving DecidableEq, Repr

namespace Place

/-- Before the first file header. -/
def start : Place where
  file := none
  line := 0
  remembered := []

/-- Notes the line of a file in place of the one noted before. -/
def remember (file line : UInt32) (remembered : List (UInt32 × UInt32)) :
    List (UInt32 × UInt32) :=
  (file, line) :: remembered.filter fun entry => entry.1 != file

/-- Leaves the current file, if there is one, and goes on in another where that was left. -/
def enter (p : Place) (file : UInt32) : Place :=
  let remembered := match p.file with
    | some current => remember current p.line p.remembered
    | none => p.remembered
  { file := some file, line := (remembered.lookup file).getD 0, remembered }

def atLine (p : Place) (line : UInt32) : Place :=
  { p with line }

end Place

end TokenStream.Dump
