/-! Severities of diagnostics. The empty severity is part of the scale: its name is empty. -/
namespace TokenStream

inductive Severity
  | none
  | error
  | warning
  | style
  | performance
  | portability
  | information
  | debug
deriving DecidableEq, Repr, Inhabited

namespace Severity

/-- Every severity that has a name. -/
def named : List Severity :=
  [.error, .warning, .style, .performance, .portability, .information, .debug]

def name : Severity → String
  | .none => ""
  | .error => "error"
  | .warning => "warning"
  | .style => "style"
  | .performance => "performance"
  | .portability => "portability"
  | .information => "information"
  | .debug => "debug"

/-- A text that names no severity is read as the empty one. -/
def ofName (text : String) : Severity :=
  (named.find? fun s => s.name == text).getD .none

/-- The word for a severity in data, where the empty one is written out. -/
def keyword : Severity → String
  | .none => "none"
  | s => s.name

def ofKeyword? (text : String) : Option Severity :=
  (.none :: named).find? fun s => s.keyword == text

end Severity

end TokenStream
