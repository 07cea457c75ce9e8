import TokenStream.Chain.Integrity
import TokenStream.Limits

/-! Why a dump cannot be read. Errors in the text name the line of the dump that they are on. -/
namespace TokenStream.Dump

inductive Error
  | fileNotFound (path : String)
  | fileTooLarge (size : Nat)
  | badEncoding (path : String)
  | unreadable (reason : String)
  | badLineMarker (line : Nat) (marker : String)
  | badVarId (line : Nat) (token : String)
  | unknownFile (line : Nat) (name : String)
  | tooManyTokens
  | unbalancedBracket (line : Nat) (bracket : String)
  | nestingTooDeep (line : Nat)
  | invalidChain (violation : Violation)
deriving DecidableEq, Repr

namespace Error

def message : Error → String
  | .fileNotFound path => s!"File not found: {path}"
  | .fileTooLarge size => s!"File too large: {size} bytes (max: {Limits.dumpBytes})"
  | .badEncoding path => s!"Invalid UTF-8 encoding in file: {path}"
  | .unreadable reason => s!"I/O error reading file: {reason}"
  | .badLineMarker line marker => s!"Line {line}: invalid line marker '{marker}'"
  | .badVarId line token => s!"Line {line}: invalid variable id in token '{token}'"
  | .unknownFile line name => s!"Line {line}: unknown file '{name}'"
  | .tooManyTokens => s!"Dump exceeds maximum token count: {Limits.dumpTokens}"
  | .unbalancedBracket line bracket => s!"Line {line}: unbalanced bracket '{bracket}'"
  | .nestingTooDeep line =>
    s!"Line {line}: bracket nesting exceeds maximum depth: {Limits.openBrackets}"
  | .invalidChain violation => s!"Loaded chain is inconsistent: {violation.message}"

def code : Error → Code
  | .fileNotFound _ => .fileNotFound
  | .fileTooLarge _ => .fileTooLarge
  | .badEncoding _ => .badEncoding
  | .unreadable _ => .fileUnreadable
  | .badLineMarker _ _ => .badLineMarker
  | .badVarId _ _ => .badVarId
  | .unknownFile _ _ => .unknownFile
  | .tooManyTokens => .tooManyTokens
  | .unbalancedBracket _ _ => .unbalancedBracket
  | .nestingTooDeep _ => .nestingTooDeep
  | .invalidChain violation => violation.code

/-- The line of the dump, for an error that is on one. -/
def line? : Error → Option Nat
  | .badLineMarker line _ | .badVarId line _ | .unknownFile line _
  | .unbalancedBracket line _ | .nestingTooDeep line => some line
  | _ => none

def recoverable (e : Error) : Bool :=
  e.code.recoverable

end Error

/-- How reading ends without a chain: the dump is refused, or a contract of the chain was broken. -/
inductive Failure
  | refused (e : Error)
  | fault (f : Fault)
deriving DecidableEq, Repr

/-- Does a chain operation on behalf of a reader. -/
def onChain (r : Except Fault α) : Except Failure α :=
  r.mapError .fault

end TokenStream.Dump
