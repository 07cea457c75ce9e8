import TokenStream.Chain.Basic

/-!
Walks along a chain. A walk reads the successor of a node when it leaves it, so it fails at the
first stale handle that it comes to, and not before.
-/
namespace TokenStream.Chain

/-- More nodes than any walk without repetition can visit. -/
def stepLimit (c : Chain) : Nat :=
  c.slots.size + 1

/-- The node `steps` hops on, or none past the end. -/
def hop (step : Handle → Except Fault (Option Handle)) :
    Nat → Option Handle → Except Fault (Option Handle)
  | 0, h => .ok h
  | _ + 1, none => .ok none
  | n + 1, some h => do hop step n (← step h)

/-- The node that many places after the given one, or before it for a negative offset. With offset
zero the handle is not looked up. -/
def tokenAt (c : Chain) (h : Handle) (offset : Int) : Except Fault (Option Handle) :=
  if 0 < offset then hop c.next offset.natAbs (some h)
  else hop c.previous offset.natAbs (some h)

/-- The text at an offset, empty past either end. -/
def textAt (c : Chain) (h : Handle) (offset : Int) : Except Fault String := do
  match ← c.tokenAt h offset with
  | some found => return (← c.token found).text
  | none => return ""

/-- `handlesFrom` with the handles met so far. -/
def collectFrom (c : Chain) : Nat → Option Handle → Array Handle → Except Fault (Array Handle)
  | 0, _, found => .ok found
  | _ + 1, none, found => .ok found
  | n + 1, some h, found => do collectFrom c n (← c.next h) (found.push h)

/-- The first handles from `start` on, at most `limit` of them. -/
def handlesFrom (c : Chain) (limit : Nat) (start : Option Handle) : Except Fault (List Handle) :=
  return (← c.collectFrom limit start #[]).toList

end TokenStream.Chain
