import TokenStream.Log.Record

/-!
Where records go. A target is a tree: groups hand records on to all of their members, and the leaves
are sinks. A group, a console and a file each have a least grave level that they let through; a
memory takes whatever reaches it. What reaches a console or a file is written there as one line.
-/
namespace TokenStream.Log

/-- A place that records go to. -/
inductive Sink
  /-- It keeps the records themselves. -/
  | memory (slot : Nat)
  | console (least : Level) (structured : Bool)
  | file (path : String) (least : Level) (structured : Bool)
deriving DecidableEq, Repr

def Sink.takes (level : Level) : Sink → Bool
  | .memory _ => true
  | .console least _ | .file _ least _ => level.passes least

inductive Target
  | sink (sink : Sink)
  | group (least : Level) (members : List Target)

/-- Records that were taken, each with its sink, in order. -/
abbrev Deliveries := List (Sink × Record)

namespace Target

mutual

def deliver (r : Record) : Target → Deliveries
  | .sink s => if s.takes r.level then [(s, r)] else []
  | .group least members => if r.level.passes least then deliverAll r members else []

def deliverAll (r : Record) : List Target → Deliveries
  | [] => []
  | t :: rest => deliver r t ++ deliverAll r rest

end

end Target

/-! ### Lines -/

/-- A place that lines are written to. -/
inductive Outlet
  | console
  | file (path : String)
deriving DecidableEq, Repr

/-- Lines written, each with its place, in the order of writing. -/
abbrev Writes := List (Outlet × String)

def Sink.write? (r : Record) : Sink → Option (Outlet × String)
  | .memory _ => none
  | .console _ structured => some (.console, r.line structured)
  | .file path _ structured => some (.file path, r.line structured)

namespace Deliveries

/-- The records that one sink took. -/
def recordsAt (sink : Sink) (ds : Deliveries) : List Record :=
  (ds.filter fun d => d.1 = sink).map (·.2)

def writes (ds : Deliveries) : Writes :=
  ds.filterMap fun d => d.1.write? d.2

end Deliveries

/-- The lines that went to one place. -/
def Writes.linesAt (outlet : Outlet) (ws : Writes) : List String :=
  (ws.filter fun w => w.1 = outlet).map (·.2)

/-! ### Services -/

/-- A target behind a level of its own. -/
structure Service where
  target : Target
  least : Level

namespace Service

def accepts (s : Service) (level : Level) : Bool :=
  level.passes s.least

def deliver (s : Service) (r : Record) : Deliveries :=
  if s.accepts r.level then s.target.deliver r else []

def deliverAll (s : Service) (rs : List Record) : Deliveries :=
  rs.flatMap s.deliver

end Service

end TokenStream.Log
