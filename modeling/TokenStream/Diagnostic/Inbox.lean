import TokenStream.Log.Event

/-!
Where the diagnostics of a chain go. An inbox keeps them, until it is told to pass them on to the
log; what it kept before stays.
-/
namespace TokenStream

structure Inbox where
  kept : List Diagnostic
  forwards : Bool
deriving DecidableEq, Repr

namespace Inbox

def empty : Inbox where
  kept := []
  forwards := false

/-- Takes diagnostics, and gives the events that they turn into. -/
def receive (b : Inbox) (ds : List Diagnostic) : Inbox × List Log.Event :=
  if b.forwards then (b, ds.map Log.Event.ofDiagnostic)
  else ({ b with kept := b.kept ++ ds }, [])

def clear (b : Inbox) : Inbox :=
  { b with kept := [] }

def countWithId (b : Inbox) (id : String) : Nat :=
  b.kept.countP fun d => d.id = id

end Inbox

end TokenStream
