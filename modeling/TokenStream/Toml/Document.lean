import TokenStream.Toml.Statement

/-!
Documents from statements. A header opens a table once. Keys go into the table opened last; a
dotted key opens tables on its way, to which only dotted keys may add.
-/
namespace TokenStream.Toml

/-- A table with the way it came to be. -/
structure Table where
  origin : Origin
  members : Members

/-- Whether a table was only passed through so far. -/
def Origin.isPassage : Origin → Bool
  | .implied | .dotted => true
  | .header | .inline => false

/-- Changes the table at a path. Tables that are not there yet are made on the way, and of tables
in double brackets the last one is meant. -/
def updateAt (byDots : Bool) (change : Table → Option Table) : Path → Table → Option Table
  | [], t => change t
  | key :: rest, t => do
    let child ← match t.members.lookup key with
      | none =>
        (updateAt byDots change rest { origin := if byDots then .dotted else .implied,
                                       members := [] }).map fun c => .table c.origin c.members
      | some (.table origin members) =>
        if origin = .inline ∨ (byDots ∧ ¬ origin.isPassage) then none
        else (updateAt byDots change rest { origin, members }).map fun c =>
          .table c.origin c.members
      | some (.tables (last :: before)) =>
        (updateAt byDots change rest { origin := .header, members := last }).map fun c =>
          .tables (c.members :: before)
      | some _ => none
    some { t with members := setMember key child t.members }

/-- Opens a table under a header. One that a header inside it implied may be opened still. -/
def openTable (key : String) (t : Table) : Option Table :=
  match t.members.lookup key with
  | none => some { t with members := setMember key (.table .header []) t.members }
  | some (.table .implied members) =>
    some { t with members := setMember key (.table .header members) t.members }
  | some _ => none

/-- Adds one more table under a header in double brackets. -/
def openArrayTable (key : String) (t : Table) : Option Table :=
  match t.members.lookup key with
  | none => some { t with members := setMember key (.tables [[]]) t.members }
  | some (.tables items) =>
    some { t with members := setMember key (.tables ([] :: items)) t.members }
  | some _ => none

/-- Sets a key that the table does not have. A dotted key ends in a table made by dotted keys, a
plain key in one that was opened otherwise. -/
def assignKey (dotted : Bool) (key : String) (value : Value) (t : Table) : Option Table :=
  if decide (t.origin = .dotted) ≠ dotted ∨ (t.members.lookup key).isSome then none
  else some { t with members := setMember key value t.members }

/-- A document under way: all of it, and the path of the table opened last. -/
structure Draft where
  root : Table
  current : Path

def Draft.start : Draft where
  root := { origin := .header, members := [] }
  current := []

def Draft.add (d : Draft) : Statement → Option Draft
  | .header path => do
    let key ← path.getLast?
    let root ← updateAt false (openTable key) path.dropLast d.root
    some { root, current := path }
  | .arrayHeader path => do
    let key ← path.getLast?
    let root ← updateAt false (openArrayTable key) path.dropLast d.root
    some { root, current := path }
  | .assign path value => do
    let key ← path.getLast?
    let dotted := !path.dropLast.isEmpty
    let root ← updateAt false (updateAt true (assignKey dotted key value) path.dropLast)
      d.current d.root
    some { d with root }

/-- The members of a document, if the text is one. -/
def parse? (text : String) : Option Members := do
  let d ← (← statements? text).foldlM Draft.add .start
  some d.root.members

end TokenStream.Toml
