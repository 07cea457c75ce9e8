import TokenStream.Chain.Basic

/-! Bracket links. Both ends of a link point at each other, or neither points anywhere. -/
namespace TokenStream.Chain

/-- Drops the link of a node on both ends. A partner that points elsewhere keeps its link. -/
def unlink (c : Chain) (h : Handle) : Except Fault Chain := do
  let n ← c.node h
  match n.link with
  | none => return c
  | some partner =>
    let c := c.setNode h { n with link := none }
    match c.node? partner with
    | some p => return if p.link = some h then c.setNode partner { p with link := none } else c
    | none => return c

/-- Links two nodes to each other, after the links they have are dropped. -/
def linkPair (c : Chain) (a b : Handle) : Except Fault Chain := do
  if a = b then throw .selfLink
  let c ← c.unlink a
  let c ← c.unlink b
  let c ← c.modify a fun n => { n with link := some b }
  c.modify b fun n => { n with link := some a }

def areLinked (c : Chain) (a b : Handle) : Except Fault Bool := do
  if (← c.link a) = some b then return (← c.link b) = some a
  return false

end TokenStream.Chain
