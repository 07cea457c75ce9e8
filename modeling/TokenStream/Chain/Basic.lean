import TokenStream.Limits
import TokenStream.Token

/-!
A chain keeps its tokens in numbered slots and threads them by handles. Slots that were freed are
used again, the last freed one first. This module has the storage and the look-ups; nothing here
threads a node except `push`, which puts it at the tail.
-/
namespace TokenStream

structure Node where
  token : Token
  next : Option Handle
  prev : Option Handle
  link : Option Handle
deriving DecidableEq, Repr

/-- A node that is neither threaded nor linked. -/
def Node.ofToken (token : Token) : Node where
  token
  next := none
  prev := none
  link := none

/-- A slot without a node is free. -/
structure Slot where
  generation : UInt32
  node : Option Node
deriving DecidableEq, Repr

structure Chain where
  slots : Array Slot
  /-- The free slots, the last freed one first. -/
  free : List Nat
  live : Nat
  front : Option Handle
  back : Option Handle
deriving DecidableEq, Repr

namespace Chain

def empty : Chain where
  slots := #[]
  free := []
  live := 0
  front := none
  back := none

def isEmpty (c : Chain) : Bool :=
  c.live == 0

/-- Look-ups that may fail. A handle finds its node only in the generation it was issued for. -/
def node? (c : Chain) (h : Handle) : Option Node :=
  match c.slots[h.index]? with
  | some slot => if slot.generation = h.generation then slot.node else none
  | none => none

def contains (c : Chain) (h : Handle) : Bool :=
  (c.node? h).isSome

def token? (c : Chain) (h : Handle) : Option Token :=
  (c.node? h).map (·.token)

/-- Look-ups by a handle that the caller says is live. -/
def node (c : Chain) (h : Handle) : Except Fault Node :=
  match c.node? h with
  | some n => .ok n
  | none => .error (.stale h)

def token (c : Chain) (h : Handle) : Except Fault Token :=
  return (← c.node h).token

def next (c : Chain) (h : Handle) : Except Fault (Option Handle) :=
  return (← c.node h).next

def previous (c : Chain) (h : Handle) : Except Fault (Option Handle) :=
  return (← c.node h).prev

/-- The partner of a bracket. -/
def link (c : Chain) (h : Handle) : Except Fault (Option Handle) :=
  return (← c.node h).link

/-- Puts a node under a live handle. -/
def setNode (c : Chain) (h : Handle) (n : Node) : Chain :=
  { c with
    slots := c.slots.setIfInBounds h.index { generation := h.generation, node := some n } }

def modify (c : Chain) (h : Handle) (f : Node → Node) : Except Fault Chain := do
  let n ← c.node h
  return c.setNode h (f n)

/-- Changes a token in place. The handle is looked up before the change is tried. -/
def modifyToken (c : Chain) (h : Handle) (f : Token → Token) : Except Fault Chain :=
  c.modify h fun n => { n with token := f n.token }

def setText (c : Chain) (h : Handle) (text : String) : Except Fault Chain := do
  let n ← c.node h
  let token ← n.token.setText text
  return c.setNode h { n with token }

/-- Stores a token in a slot of its own. -/
def allocate (c : Chain) (token : Token) : Except Fault (Chain × Handle) :=
  match c.free with
  | i :: free =>
    if hi : i < c.slots.size then
      let generation := c.slots[i].generation
      .ok ({ c with
        slots := c.slots.set i { generation, node := some (.ofToken token) }
        free
        live := c.live + 1 }, { index := i, generation })
    else .error .exhausted
  | [] =>
    if c.slots.size < Limits.slots then
      .ok ({ c with
        slots := c.slots.push { generation := 0, node := some (.ofToken token) }
        live := c.live + 1 }, { index := c.slots.size, generation := 0 })
    else .error .exhausted

/-- Frees the slot of a live handle, which makes the handle stale. The generation wraps round. -/
def release (c : Chain) (h : Handle) : Chain :=
  { c with
    slots := c.slots.setIfInBounds h.index { generation := h.generation + 1, node := none }
    free := h.index :: c.free
    live := c.live - 1 }

/-- Appends a token at the tail. -/
def push (c : Chain) (text : String) (line file : UInt32) : Except Fault (Chain × Handle) := do
  let token ← Token.ofText text
  let (c, h) ← c.allocate { token with line, file }
  match c.back with
  | some last =>
    let c ← c.modify last fun n => { n with next := some h }
    let c ← c.modify h fun n => { n with prev := some last }
    return ({ c with back := some h }, h)
  | none => return ({ c with front := some h, back := some h }, h)

/-- Size and ends of a chain in one line. -/
def describe (c : Chain) : String :=
  let ending : Option Handle → String
    | some h => s!"Some({h.describe})"
    | none => "None"
  s!"TokenList \x7b len: {c.live}, front: {ending c.front}, back: {ending c.back} \x7d"

end Chain

end TokenStream
