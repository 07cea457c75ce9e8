import TokenStream.Command.Arguments
import TokenStream.Command.Host
import TokenStream.Dump.File
import TokenStream.Pattern.Match

/-!
The command: it loads a dump, lists the places where a pattern matches, and writes the chain out.
-/
namespace TokenStream.Command

/-- How a run ends. -/
inductive Ending
  | done
  | badArguments
  /-- The settings or the log could not be set up. -/
  | notReady (code : Code)
  | noChain
  | fault
deriving DecidableEq, Repr

def Ending.exitCode : Ending → UInt32
  | .done => 0
  | .badArguments => 2
  | .notReady _ | .noChain => 1
  | .fault => 101

/-- A place where a pattern matches. -/
structure Hit where
  file : UInt32
  line : UInt32
  text : String
deriving DecidableEq, Repr

namespace Hit

def ofToken (t : Token) : Hit where
  file := t.file
  line := t.line
  text := t.text

def render (h : Hit) : String :=
  s!"{h.file}:{h.line}: {h.text}\n"

def json (h : Hit) : Json :=
  .object [("file", .nat h.file.toNat), ("line", .nat h.line.toNat), ("text", .text h.text)]

end Hit

/-- The list of hits, one a line with their number below, or as an array of objects. -/
def hitsText (pattern : String) (json : Bool) (hits : List Hit) : String :=
  if json then (Json.list (hits.map Hit.json)).indented ++ "\n"
  else String.join (hits.map Hit.render) ++ s!"{hits.length} match(es) for '{pattern}'\n"

/-- The hits of a pattern in the order of the chain, and the reports raised on the way. -/
def scan (c : Chain) (pattern : String) (varId : UInt32) : Except Fault (Reported (List Hit)) := do
  let found ← c.findAll pattern varId
  let hits ← found.answer.mapM fun h => return Hit.ofToken (← c.token h)
  return { answer := hits, reports := found.reports }

def scanEvent (pattern : String) (hits : List Hit) : Log.Event :=
  (Log.Event.success .scanComplete "Pattern scan complete").withValues
    [("pattern", pattern), ("matches", toString hits.length)]

def renderEvent (tokens : Nat) (showVarId : Bool) : Log.Event :=
  (Log.Event.info "Rendering chain").withValues
    [("tokens", toString tokens), ("var_ids", toString showVarId)]

def settingsEvent (path : String) : Log.Event :=
  (Log.Event.success .settingsLoaded "Configuration loaded").withValue "file" path

/-- The line that a failed run ends with. -/
def failureLine (code : Code) (message : String) : String :=
  s!"Error [{code.text}]: {message}"

section

variable {m : Type → Type} [Monad m]

/-- The settings of the document that the arguments name, or of the environment alone. -/
def settings (host : Host m) (arguments : Arguments) : m (Except Settings.Error Settings) := do
  let env ← host.environment
  match arguments.config with
  | some path => return Settings.ofFound env (← host.look path)
  | none => return .ok (Settings.defaults env)

/-- Opens the log that the preferences ask for. -/
def openService (host : Host m) (p : Log.Preferences) : m Log.Service := do
  match p.file with
  | none => return p.service true
  | some path =>
    match ← host.openLog path with
    | none => return p.service true
    | some reason =>
      host.printError s!"[WARN] W000 - Cannot open log file {path}: {reason}"
      return p.service false

/-- Logs events, each as one that happens now. -/
def logAll (host : Host m) (log : Log.Setup) (es : List Log.Event) : m Unit :=
  es.forM fun e => do host.write (log.write (e.happened (← host.now)))

/-- Lists the places where a pattern matches. -/
def listHits (host : Host m) (log : Log.Setup) (arguments : Arguments) (c : Chain)
    (pattern : String) : m (Except Fault Unit) := do
  match scan c pattern arguments.varId with
  | .error f => return .error f
  | .ok hits =>
    logAll host log (hits.reports.map Log.Event.ofDiagnostic)
    host.print (hitsText pattern arguments.json hits.answer)
    logAll host log [scanEvent pattern hits.answer]
    return .ok ()

def writeChain (host : Host m) (log : Log.Setup) (arguments : Arguments) (render : RenderSettings)
    (c : Chain) : m (Except Fault Unit) := do
  let showVarId := render.showVarId && !arguments.plainRender
  logAll host log [renderEvent c.live showVarId]
  match c.render c.front showVarId render.title none with
  | .error f => return .error f
  | .ok text =>
    host.print text
    return .ok ()

/-- What the run is for, once there is a chain. -/
def useChain (host : Host m) (log : Log.Setup) (arguments : Arguments) (render : RenderSettings)
    (c : Chain) : m (Except Fault Unit) := do
  let listed ← match arguments.pattern with
    | some pattern => listHits host log arguments c pattern
    | none => pure (.ok ())
  match listed with
  | .error f => return .error f
  | .ok _ => if arguments.render then writeChain host log arguments render c else return .ok ()

/-- The run from the point on at which events can be logged. -/
def runLogged (host : Host m) (log : Log.Setup) (arguments : Arguments) (s : Settings) :
    m Ending := do
  logAll host log (Log.Setup.readyEvent :: (arguments.config.toList.map settingsEvent))
  match ← Dump.load host.look (logAll host log) arguments.dumpFile none s.dump with
  | .error (.refused e) =>
    host.printError (failureLine e.code e.message)
    return .noChain
  | .error (.fault f) =>
    host.printError f.message
    return .fault
  | .ok c =>
    match ← useChain host log arguments s.render c with
    | .ok _ => return .done
    | .error f =>
      host.printError f.message
      return .fault

/-- Refuses to go on without settings or without a log. -/
def notReady (host : Host m) (code : Code) (message : String) : m Ending := do
  host.printError (failureLine code message)
  return .notReady code

def run (host : Host m) (arguments : List String) : m Ending := do
  match Arguments.parse? arguments with
  | none => return .badArguments
  | some arguments =>
    match ← settings host arguments with
    | .error e => notReady host e.code "settings cannot be used"
    | .ok s =>
      match Log.Setup.initial.setPreferences s.logging with
      | .error e => notReady host .setupFailed e.message
      | .ok log =>
        match log.setService (← openService host s.logging) with
        | .error e => notReady host .setupFailed e.message
        | .ok log => runLogged host log arguments s

end

end TokenStream.Command
