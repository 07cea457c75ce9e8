import TokenStream.Text.Decimal

/-!
The arguments of the command. Options may be given in any order and each at most once; a value may
be attached to its option or be the next argument, and after two dashes nothing is an option.
-/
namespace TokenStream.Command

structure Arguments where
  dumpFile : String
  pattern : Option String
  varId : UInt32
  render : Bool
  plainRender : Bool
  json : Bool
  config : Option String
deriving DecidableEq, Repr

/-- Options that stand alone. -/
inductive Switch
  | render
  | plainRender
  | json
deriving DecidableEq, Repr

/-- Options that take a value. -/
inductive Setting
  | pattern
  | varId
  | config
deriving DecidableEq, Repr

inductive Flag
  | switch (s : Switch)
  | setting (s : Setting)
deriving DecidableEq, Repr

def Flag.ofLong? (name : String) : Option Flag :=
  match name with
  | "render" => some (.switch .render)
  | "no-varid" => some (.switch .plainRender)
  | "json" => some (.switch .json)
  | "pattern" => some (.setting .pattern)
  | "varid" => some (.setting .varId)
  | "config" => some (.setting .config)
  | _ => none

def Flag.ofShort? (c : Char) : Option Flag :=
  match c with
  | 'r' => some (.switch .render)
  | 'p' => some (.setting .pattern)
  | 'c' => some (.setting .config)
  | _ => none

/-- The switches and values given so far, and the option whose value comes next. -/
structure Draft where
  switches : List Switch
  settings : List (Setting × String)
  dumpFile : Option String
  pending : Option Setting
  onlyFiles : Bool

namespace Draft

def start : Draft where
  switches := []
  settings := []
  dumpFile := none
  pending := none
  onlyFiles := false

def addSwitch (d : Draft) (s : Switch) : Option Draft :=
  if d.switches.contains s then none else some { d with switches := s :: d.switches }

def addSetting (d : Draft) (s : Setting) (value : String) : Option Draft :=
  if (d.settings.lookup s).isSome then none
  else some { d with settings := (s, value) :: d.settings, pending := none }

def addFile (d : Draft) (path : String) : Option Draft :=
  if d.dumpFile.isSome then none else some { d with dumpFile := some path }

/-- An option in its long form, with its value after an equals sign if it is attached. -/
def addLong (d : Draft) (text : List Char) : Option Draft := do
  let name := String.ofList (text.takeWhile (· ≠ '='))
  match ← Flag.ofLong? name, text.dropWhile (· ≠ '=') with
  | .switch s, [] => d.addSwitch s
  | .switch _, _ => none
  | .setting s, [] => some { d with pending := some s }
  | .setting s, _ :: value => d.addSetting s (String.ofList value)

/-- Options in their short form, one character each. The first that takes a value takes the rest of
the argument, less an equals sign, or else the next argument. -/
def addShorts (d : Draft) : List Char → Option Draft
  | [] => some d
  | c :: rest => do
    match ← Flag.ofShort? c with
    | .switch s => addShorts (← d.addSwitch s) rest
    | .setting s =>
      match rest with
      | [] => some { d with pending := some s }
      | '=' :: value => d.addSetting s (String.ofList value)
      | value => d.addSetting s (String.ofList value)

/-- Takes one more argument. An option that waits for its value does not take another option. -/
def add (d : Draft) (argument : String) : Option Draft :=
  if d.onlyFiles then d.addFile argument
  else
    match argument.toList, d.pending with
    | ['-', '-'], none => some { d with onlyFiles := true }
    | '-' :: '-' :: text, none => d.addLong text
    | '-' :: c :: rest, none => d.addShorts (c :: rest)
    | '-' :: _ :: _, some _ => none
    | _, some s => d.addSetting s argument
    | _, none => d.addFile argument

/-- A number with or without a sign that fits in 32 bits. -/
def number? (text : String) : Option UInt32 :=
  match text.toList with
  | '-' :: digits => (Text.readDigits32? digits).filter (· = 0)
  | s => Text.readWord32? s

/-- Paths may not be empty. -/
def path? (text : String) : Option String :=
  if text.isEmpty then none else some text

def finish (d : Draft) : Option Arguments := do
  if d.pending.isSome then none
  let dumpFile ← path? (← d.dumpFile)
  let varId ← match d.settings.lookup .varId with
    | some text => number? text
    | none => some 0
  let config ← match d.settings.lookup .config with
    | some text => (path? text).map some
    | none => some none
  return {
    dumpFile, varId, config
    pattern := d.settings.lookup .pattern
    render := d.switches.contains .render
    plainRender := d.switches.contains .plainRender
    json := d.switches.contains .json }

end Draft

def Arguments.parse? (arguments : List String) : Option Arguments := do
  (← arguments.foldlM Draft.add .start).finish

end TokenStream.Command
