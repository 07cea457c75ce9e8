import TokenStream.Json
import TokenStream.Log.Event

/-!
Records: events with the time at which they happened. A record is shown as one line of text, which
leaves the time out, or as a JSON object, in which the facts about its code appear as well.
-/
namespace TokenStream.Log

/-- A point in time, as the clock writes it. -/
structure Instant where
  text : String
deriving DecidableEq, Repr

structure Record extends Event where
  time : Instant
deriving DecidableEq, Repr

def Event.happened (e : Event) (time : Instant) : Record where
  toEvent := e
  time

namespace Record

/-- What an error adds about its code. -/
def errorMembers (r : Record) : List (String × Json) :=
  if r.isError then
    [("error_metadata", .object [
      ("description", .text r.code.description),
      ("recommended_action", .text r.code.action),
      ("recoverable", .bool r.code.recoverable),
      ("requires_halt", .bool r.code.requiresHalt)])]
  else []

def contextMembers (r : Record) : List (String × Json) :=
  if r.context.isEmpty then []
  else [("context", .object (r.context.map fun entry => (entry.1, .text entry.2)))]

def locationMembers (r : Record) : List (String × Json) :=
  match r.location with
  | some l => [("location", .object [("file", .text l.file), ("line", .nat l.line.toNat)])]
  | none => []

/-- All members in the order of their names. -/
def members (r : Record) : List (String × Json) :=
  [("category", .text r.code.category), ("code", .text r.code.text)]
    ++ r.contextMembers ++ r.errorMembers
    ++ [("level", .text r.level.name)]
    ++ r.locationMembers
    ++ [("message", .text r.message), ("severity", .text r.code.gravity.name),
      ("timestamp", .text r.time.text)]

def json (r : Record) : Json :=
  .object r.members

/-- How a record is written where lines go. -/
def line (r : Record) (structured : Bool) : String :=
  if structured then r.json.compact else r.format

end Record

end TokenStream.Log
