import TokenStream.Chain.Walk
import TokenStream.Diagnostic
import TokenStream.Pattern.Element

/-!
Patterns against chains. A pattern that asks for a variable identity needs one: with identity zero
it matches nowhere, and every call reports that once.
-/
namespace TokenStream

/-- An answer and the diagnostics that were raised on the way to it. -/
structure Reported (α : Type) where
  answer : α
  reports : List Diagnostic

namespace Pattern

/-- Text of the report about a missing variable identity. -/
def varIdZeroMessage : String :=
  "Internal error. TokenList::matches called with varid 0."

def varIdZeroReport : Diagnostic :=
  (Diagnostic.internal varIdZeroMessage).withCode .varIdZero

/-- Whether the pattern asks for a variable identity and none is given. -/
def misused (pattern : String) (varId : UInt32) : Bool :=
  varId == 0 && (Text.cells (· == ' ') pattern.toList).contains "%varid%".toList

/-- Answers a question about a pattern, or refuses a misused one with a report. -/
def guarded (pattern : String) (varId : UInt32) (refused : α) (answer : Except Fault α) :
    Except Fault (Reported α) :=
  if misused pattern varId then .ok { answer := refused, reports := [varIdZeroReport] }
  else answer.map fun a => { answer := a, reports := [] }

end Pattern

namespace Chain

open Pattern

/-- Matches the elements at `tails` against the tokens from a node on. Where the walk has not
tested an element yet and stands at the front of the chain with more tokens to come, a negated
element holds; it holds too where no tokens are left. -/
def matchTails (c : Chain) (varId : UInt32) :
    Bool → Option Handle → List (List Char) → Except Fault Bool
  | _, _, [] => .ok true
  | untested, none, tail :: rest =>
    if negated tail then matchTails c varId untested none rest else .ok false
  | untested, some h, tail :: rest => do
    let n ← c.node h
    if untested && negated tail && n.prev.isNone && n.next.isSome then
      matchTails c varId true (some h) rest
    else
      match test varId n.token tail with
      | .reject => return false
      | .pass => matchTails c varId false (some h) rest
      | .accept => matchTails c varId false n.next rest

def matchElements (c : Chain) (start : Option Handle) (pattern : String) (varId : UInt32) :
    Except Fault Bool :=
  c.matchTails varId true start (Text.wordTails pattern.toList)

/-- Whether the pattern matches the tokens from `start` on. -/
def matchesAt (c : Chain) (start : Option Handle) (pattern : String) (varId : UInt32) :
    Except Fault (Reported Bool) :=
  guarded pattern varId false (c.matchElements start pattern varId)

/-- Matches the texts one by one. -/
def matchTexts (c : Chain) : Option Handle → List (List Char) → Except Fault Bool
  | _, [] => .ok true
  | none, _ :: _ => .ok false
  | some h, text :: rest => do
    let n ← c.node h
    if n.token.text.toList = text then matchTexts c n.next rest else return false

/-- The texts of a pattern of plain words. One space at the end does not count. -/
def plainTexts (pattern : String) : List (List Char) :=
  match pattern.toList with
  | [] => []
  | text => Text.cells (· == ' ')
      (if text.getLast? = some ' ' then text.dropLast else text)

/-- Matches a pattern of plain words, each the text of one token. -/
def matchesPlain (c : Chain) (start : Option Handle) (pattern : String) : Except Fault Bool :=
  c.matchTexts start (plainTexts pattern)

/-- The first node from the start on at which the elements match, unless `stop` comes first. -/
def findFrom (c : Chain) (tails : List (List Char)) (stop : Option Handle) (varId : UInt32) :
    Nat → Option Handle → Except Fault (Option Handle)
  | _, none => .ok none
  | 0, some _ => .error .endless
  | n + 1, some h => do
    if some h = stop then return none
    if ← c.matchTails varId true (some h) tails then return some h
    findFrom c tails stop varId n (← c.next h)

/-- The first node at which the pattern matches, from `start` up to, but not with, `stop`. -/
def findMatch (c : Chain) (start : Option Handle) (pattern : String) (stop : Option Handle)
    (varId : UInt32) : Except Fault (Reported (Option Handle)) :=
  guarded pattern varId none
    (c.findFrom (Text.wordTails pattern.toList) stop varId c.stepLimit start)

/-- The nodes found so far and all that are found from the start on, each search going on from the
successor of the last find. -/
def findAllFrom (c : Chain) (tails : List (List Char)) (varId : UInt32) :
    Nat → Option Handle → Array Handle → Except Fault (Array Handle)
  | 0, start, found =>
    match start with
    | none => .ok found
    | some _ => .error .endless
  | n + 1, start, found => do
    match ← c.findFrom tails none varId c.stepLimit start with
    | none => return found
    | some h => findAllFrom c tails varId n (← c.next h) (found.push h)

/-- Every node of the chain at which the pattern matches. -/
def findAll (c : Chain) (pattern : String) (varId : UInt32) :
    Except Fault (Reported (List Handle)) :=
  guarded pattern varId []
    ((c.findAllFrom (Text.wordTails pattern.toList) varId c.stepLimit c.front #[]).map
      Array.toList)

end Chain

end TokenStream
