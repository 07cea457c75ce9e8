import TokenStream.Chain.Walk
import TokenStream.Dump.Place

/-!
Chains as dump text. A header opens each stretch of tokens of one file, and a marker stands for
every line up to the one the next token is on.
-/
namespace TokenStream.Dump

/-- File names by index; without a table, or past its end, a file goes by its number. -/
abbrev Names := Option (List String)

def fileLabel (names : Names) (file : UInt32) : String :=
  match names.bind fun table => table[file.toNat]? with
  | some name => name
  | none => toString file

/-- Appends the markers of the lines after `line` up to `target`. -/
def writeMarkers (out : String) (line target : UInt32) : String :=
  (List.range' (line.toNat + 1) (target.toNat - line.toNat)).foldl
    (fun text n => text ++ s!"\n{n}:") out

/-- Appends a token with its variable identity, if it has one and it is asked for. -/
def writeText (out : String) (showVarId : Bool) (t : Token) : String :=
  let out := out ++ " " ++ t.text
  if showVarId && t.varId != 0 then out ++ s!"@{t.varId}" else out

/-- Appends one token after the header and the markers it needs. -/
def writeToken (names : Names) (showVarId : Bool) (p : Place) (out : String) (t : Token) :
    Place × String :=
  let changed := p.file != some t.file
  let p := if changed then p.enter t.file else p
  let out := if changed then out ++ "\n\n##file " ++ fileLabel names t.file else out
  (p.atLine t.line, writeText (writeMarkers out p.line t.line) showVarId t)

/-- The line above a dump. -/
def banner (title : Option String) : String :=
  match title with
  | some text => s!"\n### {text} ###\n"
  | none => ""

end TokenStream.Dump

namespace TokenStream.Chain

/-- Appends the tokens from a node on. -/
def writeFrom (c : Chain) (names : Dump.Names) (showVarId : Bool) :
    Nat → Option Handle → Dump.Place → String → Except Fault String
  | _, none, _, out => .ok out
  | 0, some _, _, _ => .error .endless
  | n + 1, some h, p, out => do
    let here ← c.node h
    let (p, out) := Dump.writeToken names showVarId p out here.token
    writeFrom c names showVarId n here.next p out

/-- The dump of the chain from `start` to the tail. -/
def render (c : Chain) (start : Option Handle) (showVarId : Bool) (title : Option String)
    (names : Dump.Names) : Except Fault String :=
  return (← c.writeFrom names showVarId c.stepLimit start .start (Dump.banner title)) ++ "\n"

end TokenStream.Chain
