import TokenStream.Log.Target

/-!
Setting up the log of a process: preferences first, then the service that they ask for, each of
them once.
-/
namespace TokenStream.Log

/-- How a user wants events to be logged. -/
structure Preferences where
  structured : Bool
  console : Bool
  least : Level
  file : Option String
deriving DecidableEq, Repr

inductive SetupError
  | emptyPath
  | preferencesTaken
  | serviceTaken
deriving DecidableEq, Repr

def SetupError.message : SetupError → String
  | .emptyPath => "Log file path cannot be empty"
  | .preferencesTaken => "Runtime preferences already initialized"
  | .serviceTaken => "Global logger already initialized"

namespace Preferences

def check (p : Preferences) : Except SetupError Unit :=
  if p.file = some "" then .error .emptyPath else .ok ()

def consoleMembers (p : Preferences) : List Target :=
  if p.console then [.sink (.console p.least p.structured)] else []

/-- The targets asked for. A log file that cannot be opened is given up, and everything goes to the
console as plain lines. -/
def service (p : Preferences) (fileOpens : Bool) : Service :=
  let members := match p.file with
    | none => p.consoleMembers
    | some path =>
      if fileOpens then p.consoleMembers ++ [.sink (.file path p.least p.structured)]
      else [.sink (.console p.least false)]
  { target := .group p.least members, least := p.least }

end Preferences

/-- What a process has set up so far. -/
structure Setup where
  preferences : Option Preferences
  service : Option Service

namespace Setup

def initial : Setup where
  preferences := none
  service := none

/-- Preferences that cannot be met are refused before it matters whether there are any yet. -/
def setPreferences (s : Setup) (p : Preferences) : Except SetupError Setup := do
  p.check
  if s.preferences.isSome then throw .preferencesTaken
  return { s with preferences := some p }

/-- The preferences in force can be met. -/
def check (s : Setup) : Except SetupError Unit :=
  match s.preferences with
  | some p => p.check
  | none => .ok ()

def isReady (s : Setup) : Bool :=
  s.service.isSome

/-- The first event of every log. -/
def readyEvent : Event :=
  .success .loggingReady "Global logging system initialized"

def setService (s : Setup) (service : Service) : Except SetupError Setup := do
  s.check
  if s.isReady then throw .serviceTaken
  return { s with service := some service }

/-- What a record is written as. Before there is a service an error is not lost: it goes to the
console. -/
def write (s : Setup) (r : Record) : Writes :=
  match s.service with
  | some service => (service.deliver r).writes
  | none => if r.isError then [(.console, r.fallbackLine)] else []

end Setup

end TokenStream.Log
