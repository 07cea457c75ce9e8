import TokenStream.Chain.Edit

/-!
Edits as data, and one dispatcher that carries them out. A history of a chain is a list of edits,
each of which names tokens by the handles that earlier ones issued.
-/
namespace TokenStream

inductive Edit
  | push (text : String) (line file : UInt32)
  | insertAfter (anchor : Handle) (text : String)
  | deleteNext (h : Handle)
  | deleteThis (h : Handle)
  | replace (target first last : Handle)
  | moveRange (first last destination : Handle)
  | eraseRange (first last : Option Handle)
  | linkPair (a b : Handle)
  | unlink (h : Handle)
  | change (h : Handle) (c : TokenChange)
deriving DecidableEq, Repr

/-- What an edit comes to: the chain after it, the handle it issued, and why it refused to change
a token. -/
structure Applied where
  chain : Chain
  issued : Option Handle := none
  refused : Option LiteralError := none

namespace Chain

/-- Changes the token of a live node. The handle is looked up before anything else can fail. -/
def changeToken (c : Chain) (h : Handle) (change : TokenChange) : Except Fault Applied := do
  let n ← c.node h
  let (token, refused) ← n.token.apply change
  return { chain := c.setNode h { n with token }, refused }

def issuing (r : Except Fault (Chain × Handle)) : Except Fault Applied :=
  r.map fun (chain, h) => { chain, issued := some h }

def plain (r : Except Fault Chain) : Except Fault Applied :=
  r.map fun chain => { chain }

def apply (c : Chain) : Edit → Except Fault Applied
  | .push text line file => issuing (c.push text line file)
  | .insertAfter anchor text => issuing (c.insertAfter anchor text)
  | .deleteNext h => plain (c.deleteNext h)
  | .deleteThis h => plain (c.deleteThis h)
  | .replace target first last => plain (c.replace target first last)
  | .moveRange first last destination => plain (c.moveRange first last destination)
  | .eraseRange first last => plain (c.eraseRange first last)
  | .linkPair a b => plain (c.linkPair a b)
  | .unlink h => plain (c.unlink h)
  | .change h change => c.changeToken h change

end Chain

end TokenStream
