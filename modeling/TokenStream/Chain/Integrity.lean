import TokenStream.Chain.Basic

/-!
The check of a chain. It walks from the front and names the first violation that it meets: nodes
that do not point back, links that are not mutual, a wrong end, nodes that are out of reach.
-/
namespace TokenStream

/-- What may be wrong with a chain. -/
inductive Violation
  | brokenChain (here : Handle)
  | unreachable (count : Nat)
  | headMismatch
  | tailMismatch
  | asymmetricLink (source target : Handle)
  | selfLink (here : Handle)
  | staleHandle (h : Handle)
deriving DecidableEq, Repr

namespace Violation

def message : Violation → String
  | .brokenChain here => s!"Chain is broken at {here.label}: neighbours do not point back"
  | .unreachable count => s!"{count} live nodes are not reachable from the head"
  | .headMismatch => "Head node has a predecessor"
  | .tailMismatch => "Stored tail is not the last reachable node"
  | .asymmetricLink source target =>
    s!"Link from {source.label} to {target.label} is not mutual"
  | .selfLink here => s!"Node {here.label} is linked to itself"
  | .staleHandle h => s!"Handle {h.label} refers to a deleted node"

def code : Violation → Code
  | .brokenChain _ | .unreachable _ => .brokenChain
  | .headMismatch => .headMismatch
  | .tailMismatch => .tailMismatch
  | .asymmetricLink _ _ => .asymmetricLink
  | .selfLink _ => .selfLink
  | .staleHandle _ => .staleHandle

end Violation

namespace Chain

/-- A live node, or the violation that its handle is stale. -/
def checkLive (c : Chain) (h : Handle) : Except Violation Node :=
  match c.node? h with
  | some n => .ok n
  | none => .error (.staleHandle h)

/-- The successor, if there is one, points back. -/
def checkNext (c : Chain) (h : Handle) (n : Node) : Except Violation Unit := do
  match n.next with
  | none => return ()
  | some after =>
    let a ← c.checkLive after
    if a.prev ≠ some h then throw (.brokenChain h)

/-- The partner, if there is one, is another node and links back. -/
def checkLink (c : Chain) (h : Handle) (n : Node) : Except Violation Unit := do
  match n.link with
  | none => return ()
  | some partner =>
    if partner = h then throw (.selfLink h)
    let p ← c.checkLive partner
    if p.link ≠ some h then throw (.asymmetricLink h partner)

/-- Checks the nodes from `current` on. The budget is the number of live nodes not yet visited; a
walk that goes over it has met a node twice. The result is the last node and the budget left. -/
def checkFrom (c : Chain) : Nat → Handle → Option Handle → Except Violation (Handle × Nat)
  | budget, last, none => .ok (last, budget)
  | 0, _, some h => .error (.brokenChain h)
  | budget + 1, _, some h => do
    let n ← c.checkLive h
    c.checkNext h n
    c.checkLink h n
    checkFrom c budget h n.next

def validate (c : Chain) : Except Violation Unit := do
  match c.front with
  | none =>
    if c.back.isSome then throw .tailMismatch
    if c.live ≠ 0 then throw (.unreachable c.live)
  | some front =>
    let n ← c.checkLive front
    if n.prev.isSome then throw .headMismatch
    let (last, left) ← c.checkFrom c.live front (some front)
    if c.back ≠ some last then throw .tailMismatch
    if left ≠ 0 then throw (.unreachable left)

end Chain

end TokenStream
