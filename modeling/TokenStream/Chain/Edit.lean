import TokenStream.Chain.Link
import TokenStream.Chain.Walk

/-!
Edits of a chain in place. Each one takes live handles and threads the neighbours together before
it frees a slot. An edit that is called outside its contract rewires what it is told to.
-/
namespace TokenStream.Chain

/-- Makes `b` follow `a`. Without `a` the chain starts with `b`; without `b` it ends with `a`. -/
def stitch (c : Chain) (a b : Option Handle) : Except Fault Chain := do
  let c ← match a with
    | some h => c.modify h fun n => { n with next := b }
    | none => pure { c with front := b }
  match b with
  | some h => c.modify h fun n => { n with prev := a }
  | none => return { c with back := a }

/-- Removes the successor of a node, if it has one. -/
def deleteNext (c : Chain) (h : Handle) : Except Fault Chain := do
  match ← c.next h with
  | none => return c
  | some victim =>
    let after ← c.next victim
    let c ← c.stitch (some h) after
    let c ← c.unlink victim
    return c.release victim

/-- Removes a token and keeps its handle: the successor's token and link move into the node, which
keeps its own progress value, and the successor's node goes. The last token of a chain cannot go
this way and becomes a semicolon without a link. -/
def deleteThis (c : Chain) (h : Handle) : Except Fault Chain := do
  match ← c.next h with
  | none =>
    let c ← c.unlink h
    c.setText h ";"
  | some successor =>
    let partner := (← c.link successor).filter (· ≠ h)
    let c ← c.unlink h
    let c ← c.unlink successor
    let progress := (← c.token h).progress
    let moved ← c.token successor
    let c ← c.modifyToken h fun _ => { moved with progress }
    let c ← match partner with
      | some p => c.linkPair h p
      | none => pure c
    c.deleteNext h

/-- Inserts a token after a node, whose line, file and progress value it takes. -/
def insertAfter (c : Chain) (h : Handle) (text : String) : Except Fault (Chain × Handle) := do
  let anchor ← c.token h
  let token ← Token.ofText text
  let (c, inserted) ← c.allocate
    { token with line := anchor.line, file := anchor.file, progress := anchor.progress }
  let after ← c.next h
  let c ← c.stitch (some inserted) after
  let c ← c.stitch (some h) (some inserted)
  return (c, inserted)

/-- Moves the nodes from `first` to `last` into the place of `target` and removes `target`. -/
def replace (c : Chain) (target first last : Handle) : Except Fault Chain := do
  if target = first ∨ target = last then throw .replaceRange
  let before ← c.previous first
  let after ← c.next last
  let c ← c.stitch before after
  let before ← c.previous target
  let after ← c.next target
  let c ← c.stitch before (some first)
  let c ← c.stitch (some last) after
  let c ← c.unlink target
  return c.release target

/-- Whether `h` is met on the way from the start to `last`, both included. The search ends where it
finds `h`. -/
def rangeContains (c : Chain) (last h : Handle) : Nat → Option Handle → Except Fault Bool
  | _, none => .ok false
  | 0, some _ => .error .endless
  | n + 1, some here => do
    let after ← c.next here
    if here = h then return true
    if here = last then
      -- the range is left only once the walk asks for one more node
      match after with
      | some beyond => discard (c.next beyond)
      | none => pure ()
      return false
    rangeContains c last h n after

/-- Gives one progress value to all nodes from the start to `last`, or to the tail if `last` does
not come. -/
def setProgressThrough (progress : UInt32) (last : Handle) :
    Nat → Chain → Option Handle → Except Fault Chain
  | _, c, none => .ok c
  | 0, _, some _ => .error .endless
  | n + 1, c, some h => do
    let c ← c.modifyToken h fun t => { t with progress }
    if h = last then return c
    let after ← c.next h
    setProgressThrough progress last n c after

/-- Moves the nodes from `first` to `last` to the place after `destination`, whose progress value
they take. The destination may not be one of them. That is checked by a debug assertion, which
release builds do not have: they rewire such a block all the same. -/
def moveRange (c : Chain) (first last destination : Handle) : Except Fault Chain := do
  if ← c.rangeContains last destination c.stepLimit (some first) then throw .moveRange
  let before ← c.previous first
  let after ← c.next last
  let c ← c.stitch before after
  let after ← c.next destination
  let c ← c.stitch (some destination) (some first)
  let c ← c.stitch (some last) after
  let progress := (← c.token destination).progress
  setProgressThrough progress last c.stepLimit c (some first)

/-- Removes successors of `first` until `last` comes next. -/
def eraseUntil (first : Handle) (last : Option Handle) : Nat → Chain → Except Fault Chain
  | n, c => do
    match ← c.next first with
    | none => return c
    | some h =>
      if some h = last then return c
      match n with
      | 0 => throw .endless
      | n + 1 => eraseUntil first last n (← c.deleteNext first)

/-- Removes the nodes strictly between the two, or all after `first` if there is no `last`. -/
def eraseRange (c : Chain) (first last : Option Handle) : Except Fault Chain :=
  match first with
  | none => .ok c
  | some h => eraseUntil h last c.stepLimit c

end TokenStream.Chain
