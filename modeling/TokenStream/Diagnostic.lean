import TokenStream.Code
import TokenStream.Diagnostic.Severity

/-!
Diagnostics: a severity, a stable identifier, a message in a short and a long form, and the places
in source files that it is about, outermost first.
-/
namespace TokenStream

/-- A line of a source file. -/
structure Location where
  file : String
  line : UInt32
deriving DecidableEq, Repr

def Location.render (l : Location) : String :=
  s!"{l.file}:{l.line}"

structure Diagnostic where
  callStack : List Location
  severity : Severity
  id : String
  short : String
  verbose : String
  code : Code
deriving DecidableEq, Repr

namespace Diagnostic

/-- Identifier of the diagnostics that blame the caller. -/
def internalId : String := "internalError"

/-- The first line of a message and what comes after it. A message of one line is both. -/
def splitMessage (message : String) : String × String :=
  let text := message.toList
  match text.dropWhile (· != '\n') with
  | [] => (message, message)
  | _ :: rest => (String.ofList (text.takeWhile (· != '\n')), String.ofList rest)

def ofMessage (callStack : List Location) (severity : Severity) (message id : String) :
    Diagnostic :=
  let (short, verbose) := splitMessage message
  { callStack, severity, id, short, verbose, code := .internalError }

/-- An error of the caller, with no place in a source file. -/
def internal (message : String) : Diagnostic :=
  ofMessage [] .error message internalId

def withCode (d : Diagnostic) (code : Code) : Diagnostic :=
  { d with code }

/-- The call stack in one line, as in `[a.c:1] -> [b.c:2]`. -/
def renderStack (d : Diagnostic) : String :=
  " -> ".intercalate (d.callStack.map fun l => s!"[{l.render}]")

/-- The diagnostic in one line: the call stack and the severity if there are any, then a message. -/
def render (d : Diagnostic) (long : Bool) : String :=
  let place := if d.callStack.isEmpty then "" else d.renderStack ++ ": "
  let severity := if d.severity = .none then "" else s!"({d.severity.name}) "
  place ++ severity ++ (if long then d.verbose else d.short)

end Diagnostic

end TokenStream
