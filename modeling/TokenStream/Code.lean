/-!
Event codes and what is known about each: its category, how grave it is, whether work can go on
after it, and what to do about it. Codes outside the registry take the general answers.
-/
namespace TokenStream

/-- How grave an event is. -/
inductive Gravity
  | critical
  | high
  | medium
  | low
deriving DecidableEq, Repr

def Gravity.name : Gravity → String
  | .critical => "Critical"
  | .high => "High"
  | .medium => "Medium"
  | .low => "Low"

/-- The short text that names a kind of event. Any text may serve as a code. -/
structure Code where
  text : String
deriving DecidableEq, Repr

namespace Code

def internalError : Code := ⟨"ERR001"⟩
def setupFailed : Code := ⟨"ERR002"⟩
def fileNotFound : Code := ⟨"E005"⟩
def fileTooLarge : Code := ⟨"E006"⟩
def badEncoding : Code := ⟨"E010"⟩
def fileUnreadable : Code := ⟨"E011"⟩
def badSettings : Code := ⟨"E015"⟩
def badLineMarker : Code := ⟨"E020"⟩
def badVarId : Code := ⟨"E021"⟩
def unknownFile : Code := ⟨"E022"⟩
def tooManyTokens : Code := ⟨"E027"⟩
def unbalancedBracket : Code := ⟨"E042"⟩
def nestingTooDeep : Code := ⟨"E043"⟩
def malformedLiteral : Code := ⟨"E060"⟩
def brokenChain : Code := ⟨"E070"⟩
def tailMismatch : Code := ⟨"E071"⟩
def asymmetricLink : Code := ⟨"E072"⟩
def staleHandle : Code := ⟨"E073"⟩
def headMismatch : Code := ⟨"E074"⟩
def selfLink : Code := ⟨"E075"⟩
def varIdZero : Code := ⟨"E301"⟩
def loggingReady : Code := ⟨"I004"⟩
def settingsLoaded : Code := ⟨"I010"⟩
def dumpLoaded : Code := ⟨"I020"⟩
def chainValidated : Code := ⟨"I030"⟩
def scanComplete : Code := ⟨"I040"⟩
def chainRendered : Code := ⟨"I050"⟩
def plainWarning : Code := ⟨"W000"⟩
def plainInfo : Code := ⟨"I000"⟩
def plainDebug : Code := ⟨"D000"⟩

/-- What the registry holds about one code. -/
structure Profile where
  code : Code
  category : String
  gravity : Gravity
  recoverable : Bool
  requiresHalt : Bool
  description : String
  action : String
deriving Repr

/-- Every code with a profile, each once. -/
def registry : List Profile := [
  { code := internalError, category := "System", gravity := .critical,
    recoverable := false, requiresHalt := true,
    description := "Critical internal error",
    action := "File a bug report with the failing token dump" },
  { code := setupFailed, category := "System", gravity := .critical,
    recoverable := false, requiresHalt := true,
    description := "System initialization failure",
    action := "Check logging configuration and environment variables" },
  { code := fileNotFound, category := "FileProcessing", gravity := .medium,
    recoverable := false, requiresHalt := true,
    description := "File not found at specified path",
    action := "Check file path and ensure file exists" },
  { code := fileTooLarge, category := "FileProcessing", gravity := .high,
    recoverable := false, requiresHalt := true,
    description := "File exceeds maximum allowed size",
    action := "Split the dump or raise the size limit" },
  { code := badEncoding, category := "FileProcessing", gravity := .medium,
    recoverable := false, requiresHalt := true,
    description := "File is not valid UTF-8",
    action := "Convert the file to UTF-8" },
  { code := fileUnreadable, category := "FileProcessing", gravity := .medium,
    recoverable := false, requiresHalt := true,
    description := "I/O error while reading file",
    action := "Check file permissions and disk state" },
  { code := badSettings, category := "Configuration", gravity := .high,
    recoverable := false, requiresHalt := true,
    description := "Configuration file could not be parsed",
    action := "Fix the TOML syntax or remove unknown keys" },
  { code := badLineMarker, category := "Dump", gravity := .medium,
    recoverable := false, requiresHalt := true,
    description := "Malformed line marker in token dump",
    action := "Line markers must be a positive integer followed by ':'" },
  { code := badVarId, category := "Dump", gravity := .medium,
    recoverable := false, requiresHalt := true,
    description := "Malformed variable id suffix in token dump",
    action := "Variable ids must be written as token@<number>" },
  { code := unknownFile, category := "Dump", gravity := .medium,
    recoverable := false, requiresHalt := true,
    description := "File header names a file that is not in the file table",
    action := "Pass the file table used when the dump was rendered" },
  { code := tooManyTokens, category := "Dump", gravity := .high,
    recoverable := false, requiresHalt := true,
    description := "Token dump exceeds the maximum token count",
    action := "Split the input into smaller translation units" },
  { code := unbalancedBracket, category := "Dump", gravity := .medium,
    recoverable := false, requiresHalt := true,
    description := "Unbalanced bracket in token dump",
    action := "Check that every opening delimiter has a matching closer" },
  { code := nestingTooDeep, category := "Dump", gravity := .high,
    recoverable := false, requiresHalt := true,
    description := "Bracket nesting in token dump exceeds the maximum depth",
    action := "Load the dump without bracket linking or reduce nesting" },
  { code := malformedLiteral, category := "Token", gravity := .high,
    recoverable := true, requiresHalt := false,
    description := "Token is not a well-formed quoted string literal",
    action := "Only call string literal operations on %str% tokens" },
  { code := brokenChain, category := "List", gravity := .critical,
    recoverable := false, requiresHalt := true,
    description := "next/previous pointers disagree",
    action := "An editing primitive broke chain continuity; file a bug report" },
  { code := tailMismatch, category := "List", gravity := .critical,
    recoverable := false, requiresHalt := true,
    description := "Stored tail is not the last reachable token",
    action := "An editing primitive failed to update the tail; file a bug report" },
  { code := asymmetricLink, category := "List", gravity := .critical,
    recoverable := false, requiresHalt := true,
    description := "Bracket link is not mutual",
    action := "Re-establish links with create_mutual_links" },
  { code := staleHandle, category := "List", gravity := .critical,
    recoverable := false, requiresHalt := true,
    description := "Token handle refers to a freed slot",
    action := "Do not keep handles to deleted tokens" },
  { code := headMismatch, category := "List", gravity := .critical,
    recoverable := false, requiresHalt := true,
    description := "Stored head has a predecessor",
    action := "An editing primitive failed to update the head; file a bug report" },
  { code := selfLink, category := "List", gravity := .critical,
    recoverable := false, requiresHalt := true,
    description := "Token is linked to itself",
    action := "Clear the link before absorbing a linked successor" },
  { code := varIdZero, category := "Pattern", gravity := .high,
    recoverable := true, requiresHalt := false,
    description := "%varid% used without a resolved variable id",
    action := "Pass the variable id of the token being tracked" },
  { code := loggingReady, category := "System", gravity := .low,
    recoverable := true, requiresHalt := false,
    description := "Logging system initialized",
    action := "Continue processing" },
  { code := settingsLoaded, category := "Configuration", gravity := .low,
    recoverable := true, requiresHalt := false,
    description := "Runtime configuration loaded",
    action := "Continue processing" },
  { code := dumpLoaded, category := "Dump", gravity := .low,
    recoverable := true, requiresHalt := false,
    description := "Token dump loaded into a chain",
    action := "Continue to pattern matching" },
  { code := chainValidated, category := "List", gravity := .low,
    recoverable := true, requiresHalt := false,
    description := "Chain invariants verified",
    action := "Continue processing" },
  { code := scanComplete, category := "Pattern", gravity := .low,
    recoverable := true, requiresHalt := false,
    description := "Pattern scan over chain completed",
    action := "Continue processing" },
  { code := chainRendered, category := "Render", gravity := .low,
    recoverable := true, requiresHalt := false,
    description := "Chain rendered",
    action := "Continue processing" }]

def profile? (c : Code) : Option Profile :=
  registry.find? fun p => p.code == c

/-- An unknown code counts as medium. -/
def gravity (c : Code) : Gravity :=
  (c.profile?.map (·.gravity)).getD .medium

/-- An unknown code does not keep work from going on. -/
def recoverable (c : Code) : Bool :=
  (c.profile?.map (·.recoverable)).getD true

def requiresHalt (c : Code) : Bool :=
  (c.profile?.map (·.requiresHalt)).getD false

def description (c : Code) : String :=
  (c.profile?.map (·.description)).getD "Unknown error"

def action (c : Code) : String :=
  (c.profile?.map (·.action)).getD "No specific action available"

def category (c : Code) : String :=
  (c.profile?.map (·.category)).getD "Unknown"

end Code

end TokenStream
