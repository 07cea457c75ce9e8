import TokenStream.Diagnostic
import TokenStream.Limits

/-!
Log events: a level, a code, a message, where it belongs, and named values that go with it. When an
event happens is not part of it yet.
-/
namespace TokenStream.Log

/-- Levels from the gravest on. -/
inductive Level
  | error
  | warning
  | info
  | debug
deriving DecidableEq, Repr

namespace Level

def rank : Level → Nat
  | .error => 0
  | .warning => 1
  | .info => 2
  | .debug => 3

def name : Level → String
  | .error => "ERROR"
  | .warning => "WARN"
  | .info => "INFO"
  | .debug => "DEBUG"

/-- Whether something that lets through all down to `least` lets this level through. -/
def passes (level least : Level) : Bool :=
  level.rank ≤ least.rank

end Level

/-- Named values in the order of their names, each name once. -/
abbrev Context := List (String × String)

/-- Sets a value. A value set before under the same name is forgotten. -/
def Context.set (key value : String) : Context → Context
  | [] => [(key, value)]
  | entry :: rest =>
    if key < entry.1 then (key, value) :: entry :: rest
    else if key = entry.1 then (key, value) :: rest
    else entry :: Context.set key value rest

structure Event where
  level : Level
  code : Code
  message : String
  location : Option Location
  context : Context
deriving DecidableEq, Repr

namespace Event

/-- The message without what goes over the limit. -/
def clip (message : String) : String :=
  if message.length ≤ Limits.messageChars then message
  else String.ofList (message.toList.take Limits.messageChars)

def whole (level : Level) (code : Code) (message : String) : Event where
  level
  code
  message
  location := none
  context := []

def clipped (level : Level) (code : Code) (message : String) : Event :=
  whole level code (clip message)

def error (code : Code) (message : String) : Event :=
  clipped .error code message

def warning (message : String) : Event :=
  clipped .warning .plainWarning message

def warningWithCode (code : Code) (message : String) : Event :=
  clipped .warning code message

def info (message : String) : Event :=
  clipped .info .plainInfo message

/-- A step that went well has a code of its own. -/
def success (code : Code) (message : String) : Event :=
  clipped .info code message

def debug (message : String) : Event :=
  clipped .debug .plainDebug message

/-- A text of many lines, which the limit leaves whole. -/
def debugBlock (message : String) : Event :=
  whole .debug .plainDebug message

def atLocation (e : Event) (location : Location) : Event :=
  { e with location := some location }

def withValue (e : Event) (key value : String) : Event :=
  { e with context := e.context.set key value }

def withValues (e : Event) (values : List (String × String)) : Event :=
  values.foldl (fun e entry => e.withValue entry.1 entry.2) e

def isError (e : Event) : Bool :=
  e.level = .error

/-- The event in one line. -/
def format (e : Event) : String :=
  let place := match e.location with
    | some l => s!" at {l.render}"
    | none => ""
  s!"[{e.level.name}] {e.code.text} - {e.message}{place}"

/-- The line for an event that no logger is there to take. -/
def fallbackLine (e : Event) : String :=
  "FALLBACK: " ++ e.format

/-- The level that diagnostics of a severity are logged at. -/
def levelOf : Severity → Level
  | .error => .error
  | .information => .info
  | .debug | .none => .debug
  | _ => .warning

/-- A diagnostic as an event: its short message under its code, with its identifier as a value, at
the innermost place of the call stack. -/
def ofDiagnostic (d : Diagnostic) : Event :=
  let e := match levelOf d.severity with
    | .error => error d.code d.short
    | .warning => warningWithCode d.code d.short
    | .info => success d.code d.short
    | .debug => debug d.short
  let e := e.withValue "id" d.id
  match d.callStack.getLast? with
  | some l => e.atLocation l
  | none => e

end Event

end TokenStream.Log
