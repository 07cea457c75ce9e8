/-!
Handles of tokens in a chain, and the faults of a caller who breaks a contract of the chain's
operations. An operation that ends in a fault has no result.
-/
namespace TokenStream

/-- Names a slot of a chain together with the generation it had when the handle was issued. A freed
slot moves on to the next generation, which makes older handles to it stale. -/
@[ext] structure Handle where
  index : Nat
  generation : UInt32
deriving DecidableEq, Repr

/-- Slot and generation, as in `3v0`. -/
def Handle.tag (h : Handle) : String :=
  s!"{h.index}v{h.generation}"

/-- Slot and generation with the kind of handle. -/
def Handle.describe (h : Handle) : String :=
  s!"TokenId({h.tag})"

/-- The slot alone, as messages to a reader have it. -/
def Handle.label (h : Handle) : String :=
  s!"#{h.index}"

/-- What a caller may not do. -/
inductive Fault
  | emptyText
  | selfLink
  | replaceRange
  /-- A debug assertion finds this; release builds do not have it and go on. -/
  | moveRange
  | stale (h : Handle)
  /-- A number is past the 32 bits it may have: that of a slot, or of a line in a dump. -/
  | exhausted
  /-- The walk came back to a node it had left, and would go round for ever. -/
  | endless
deriving DecidableEq, Repr

def Fault.message : Fault → String
  | .emptyText => "token text must not be empty"
  | .selfLink => "a token cannot be linked to itself"
  | .replaceRange => "replacement range must not contain the replaced token"
  | .moveRange => "destination lies inside the moved range"
  | .stale h => s!"stale token handle {h.describe}"
  | .exhausted => "token arena exhausted"
  | .endless => "walk does not end"

end TokenStream
