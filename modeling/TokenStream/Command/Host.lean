import TokenStream.Found
import TokenStream.Settings

/-! What the command needs from the machine that it runs on. -/
namespace TokenStream.Command

structure Host (m : Type → Type) where
  valueOf : Variable → m (Option String)
  look : String → m Found
  /-- Makes sure that lines can be appended to a file, or tells why not. -/
  openLog : String → m (Option String)
  appendLine : String → String → m Unit
  print : String → m Unit
  printError : String → m Unit
  now : m Log.Instant

namespace Host

variable {m : Type → Type} [Monad m]

/-- The environment as it is when the command starts. -/
def environment (host : Host m) : m Environment := do
  let values ← Variable.all.mapM fun v => return (v, ← host.valueOf v)
  return fun v => (values.lookup v).bind id

/-- Writes lines to their places. -/
def write (host : Host m) (ws : Log.Writes) : m Unit :=
  ws.forM fun w =>
    match w.1 with
    | .console => host.printError w.2
    | .file path => host.appendLine path w.2

end Host

end TokenStream.Command
