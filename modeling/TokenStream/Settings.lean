import TokenStream.Dump.Reader
import TokenStream.Found
import TokenStream.Log.Setup
import TokenStream.Toml.Document

/-!
Settings of a run. The environment gives the values that are not set otherwise, and a TOML document
may set them. What the document has beyond the settings does not matter; a setting of the wrong
type does.
-/
namespace TokenStream

/-- How chains are written out. -/
structure RenderSettings where
  showVarId : Bool
  title : Option String
deriving DecidableEq, Repr

structure Settings where
  logging : Log.Preferences
  render : RenderSettings
  dump : Dump.Options
deriving DecidableEq, Repr

/-- The environment variables that give settings. -/
inductive Variable
  | structured
  | console
  | level
  | logFile
  | showVarId
  | title
  | linkBrackets
  | validate
deriving DecidableEq, Repr

namespace Variable

def all : List Variable :=
  [.structured, .console, .level, .logFile, .showVarId, .title, .linkBrackets, .validate]

def name : Variable → String
  | .structured => "TOKCHAIN_LOGGING_USE_STRUCTURED"
  | .console => "TOKCHAIN_LOGGING_ENABLE_CONSOLE"
  | .level => "TOKCHAIN_LOGGING_MIN_LEVEL"
  | .logFile => "TOKCHAIN_LOGGING_FILE"
  | .showVarId => "TOKCHAIN_RENDER_SHOW_VARID"
  | .title => "TOKCHAIN_RENDER_TITLE"
  | .linkBrackets => "TOKCHAIN_DUMP_LINK_BRACKETS"
  | .validate => "TOKCHAIN_DUMP_VALIDATE"

end Variable

/-- The values of the variables that are set. -/
abbrev Environment := Variable → Option String

/-- The word for a level in settings. -/
def Log.Level.word : Log.Level → String
  | .error => "Error"
  | .warning => "Warning"
  | .info => "Info"
  | .debug => "Debug"

def Log.Level.all : List Log.Level :=
  [.error, .warning, .info, .debug]

def Log.Level.ofWord? (text : String) : Option Log.Level :=
  Log.Level.all.find? fun l => l.word == text

/-- The level that a variable names, in any case, by its word or by its rank. -/
def Log.Level.ofVariable? (text : String) : Option Log.Level :=
  match text.toLower with
  | "error" | "0" => some .error
  | "warning" | "warn" | "1" => some .warning
  | "info" | "2" => some .info
  | "debug" | "3" => some .debug
  | _ => none

namespace Environment

/-- The truth value of a variable that has one. -/
def flag (env : Environment) (v : Variable) (default : Bool) : Bool :=
  match env v with
  | some "true" => true
  | some "false" => false
  | _ => default

/-- A variable that is set to the empty text counts as not set. -/
def text (env : Environment) (v : Variable) : Option String :=
  (env v).filter (· ≠ "")

end Environment

namespace Settings

def defaultLogging (env : Environment) : Log.Preferences where
  structured := env.flag .structured false
  console := env.flag .console true
  least := ((env .level).bind Log.Level.ofVariable?).getD .warning
  file := env.text .logFile

def defaultRender (env : Environment) : RenderSettings where
  showVarId := env.flag .showVarId true
  title := env.text .title

def defaultDump (env : Environment) : Dump.Options where
  linkBrackets := env.flag .linkBrackets true
  validate := env.flag .validate true

def defaults (env : Environment) : Settings where
  logging := defaultLogging env
  render := defaultRender env
  dump := defaultDump env

/-- A section of settings: its values by name, or, for an array, by position. A date or a time
stands for a section without values. -/
inductive Fields
  | named (members : Toml.Members)
  | listed (items : List Toml.Value)

def Fields.get? (name : String) (position : Nat) : Fields → Option Toml.Value
  | .named members => members.lookup name
  | .listed items => items[position]?

def Fields.ofValue? : Toml.Value → Option Fields
  | .table _ members => some (.named members)
  | .array items => some (.listed items)
  | .tables items => some (.listed (items.reverse.map (.table .header)))
  | .moment => some (.named [])
  | _ => none

def asFlag? : Toml.Value → Option Bool
  | .boolean b => some b
  | _ => none

def asText? : Toml.Value → Option String
  | .text s => some s
  | _ => none

/-- A value with nothing in it, as may stand beside the word for a level. -/
def isBare : Toml.Value → Bool
  | .table _ [] | .array [] => true
  | _ => false

/-- A level is a word, or a table with the word as its only key and nothing under it. -/
def asLevel? : Toml.Value → Option Log.Level
  | .text s => Log.Level.ofWord? s
  | .table _ [(key, v)] => if isBare v then Log.Level.ofWord? key else none
  | _ => none

/-- The value of a field, or what it is without one. A value of the wrong type is refused. -/
def field (fields : Fields) (name : String) (position : Nat) (as? : Toml.Value → Option α)
    (default : α) : Option α :=
  match fields.get? name position with
  | none => some default
  | some v => as? v

def readLogging (env : Environment) (fields : Fields) : Option Log.Preferences := do
  let d := defaultLogging env
  return {
    structured := ← field fields "use_structured_logging" 0 asFlag? d.structured
    console := ← field fields "enable_console_logging" 1 asFlag? d.console
    least := ← field fields "min_log_level" 2 asLevel? d.least
    file := ← field fields "log_file" 3 (fun v => (asText? v).map some) d.file }

def readRender (env : Environment) (fields : Fields) : Option RenderSettings := do
  let d := defaultRender env
  return {
    showVarId := ← field fields "show_var_id" 0 asFlag? d.showVarId
    title := ← field fields "title" 1 (fun v => (asText? v).map some) d.title }

def readDump (env : Environment) (fields : Fields) : Option Dump.Options := do
  let d := defaultDump env
  return {
    linkBrackets := ← field fields "link_brackets" 0 asFlag? d.linkBrackets
    validate := ← field fields "validate_after_load" 1 asFlag? d.validate }

/-- A section of the document, as it is without the document if it is not there. -/
def readSection (members : Toml.Members) (name : String) (default : α)
    (read : Fields → Option α) : Option α :=
  match members.lookup name with
  | none => some default
  | some v => (Fields.ofValue? v).bind read

/-- Why a document gives no settings. -/
inductive Error
  | missing
  | unreadable
  | invalid
deriving DecidableEq, Repr

def Error.code : Error → Code
  | .missing => .fileNotFound
  | .unreadable => .fileUnreadable
  | .invalid => .badSettings

def ofMembers (env : Environment) (members : Toml.Members) : Option Settings := do
  return {
    logging := ← readSection members "logging" (defaultLogging env) (readLogging env)
    render := ← readSection members "render" (defaultRender env) (readRender env)
    dump := ← readSection members "dump" (defaultDump env) (readDump env) }

def ofText (env : Environment) (text : String) : Except Error Settings :=
  match (Toml.parse? text).bind (ofMembers env) with
  | some s => .ok s
  | none => .error .invalid

def ofFound (env : Environment) : Found → Except Error Settings
  | .missing _ => .error .missing
  | .unreadable _ => .error .unreadable
  | .file contents =>
    match contents.text? with
    | some text => ofText env text
    | none => .error .unreadable

end Settings

end TokenStream
