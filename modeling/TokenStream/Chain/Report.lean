import TokenStream.Dump.Writer
import TokenStream.Log.Event

/-! Chains in the log. -/
namespace TokenStream.Chain

/-- The whole chain as one debug event. -/
def renderEvent (c : Chain) (title : Option String) (names : Dump.Names) :
    Except Fault Log.Event := do
  let text ← c.render c.front true title names
  return (Log.Event.debugBlock text).withValue "tokens" (toString c.live)

/-- The events that put the whole chain into a log, none if it takes no debug events. -/
def printEvents (c : Chain) (least : Log.Level) (title : Option String) (names : Dump.Names) :
    Except Fault (List Log.Event) := do
  if !Log.Level.passes .debug least then return []
  let e ← c.renderEvent title names
  return [e, (Log.Event.success .chainRendered "Chain rendered").withValue "tokens"
    (toString c.live)]

end TokenStream.Chain
