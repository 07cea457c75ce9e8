import TokenStream.Dump.Reader
import TokenStream.Found

/-! Dumps in files. What is found under a path decides which errors can arise and what is logged. -/
namespace TokenStream.Dump

/-- What is logged before anything is looked up. -/
def openingEvent (path : String) : Log.Event :=
  (Log.Event.debug "Reading token dump").withValue "file" path

/-- A reading that ends before any text is seen. -/
def refusedFile (path : String) (e : Error) (message : String) (values : Log.Context) :
    Reading where
  events := [(Log.Event.error e.code message).withValues (("file", path) :: values)]
  result := .error (.refused e)

/-- Reads the dump found under a path. -/
def readFound (path : String) (found : Found) (names : Names) (options : Options) : Reading :=
  match found with
  | .missing reason =>
    refusedFile path (.fileNotFound path) "Cannot read dump file" [("error", reason)]
  | .unreadable reason =>
    refusedFile path (.unreadable reason) "Cannot read dump file" [("error", reason)]
  | .file contents =>
    if Limits.dumpBytes < contents.size then
      refusedFile path (.fileTooLarge contents.size) "Dump file exceeds maximum size"
        [("size", toString contents.size)]
    else
      match contents.text? with
      | none => refusedFile path (.badEncoding path) "Dump file is not valid UTF-8" []
      | some text => read text names options

/-- Looks a path up and reads the dump there. The opening event goes out first, so a dump that is
the log at the same time has that event in it. -/
def load {m : Type → Type} [Monad m] (look : String → m Found)
    (log : List Log.Event → m Unit) (path : String) (names : Names) (options : Options) :
    m (Except Failure Chain) := do
  log [openingEvent path]
  let reading := readFound path (← look path) names options
  log reading.events
  return reading.result

end TokenStream.Dump
