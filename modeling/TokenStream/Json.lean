/-!
JSON values and their text. An object keeps its members in the order given. Only the double quote,
the backslash and the control characters below the space are escaped.
-/
namespace TokenStream

inductive Json
  | bool (b : Bool)
  | nat (n : Nat)
  | text (s : String)
  | list (items : List Json)
  | object (members : List (String × Json))

namespace Json

/-- A control character by its code, in four hexadecimal digits. -/
def escapeCode (c : Char) : List Char :=
  ['\\', 'u', '0', '0', Nat.digitChar (c.toNat / 16), Nat.digitChar (c.toNat % 16)]

def escapeChar (c : Char) : List Char :=
  match c with
  | '"' => ['\\', '"']
  | '\\' => ['\\', '\\']
  | '\x08' => ['\\', 'b']
  | '\x0c' => ['\\', 'f']
  | '\n' => ['\\', 'n']
  | '\r' => ['\\', 'r']
  | '\t' => ['\\', 't']
  | c => if c.toNat < 32 then escapeCode c else [c]

def quote (s : String) : String :=
  String.ofList ('"' :: s.toList.flatMap escapeChar ++ ['"'])

/-- What a layout writes before an item at a depth, before a closing bracket, and after a colon. -/
structure Layout where
  item : Nat → String
  close : Nat → String
  colon : String

/-- Everything in one line. -/
def compactLayout : Layout where
  item _ := ""
  close _ := ""
  colon := ":"

def newLine (depth : Nat) : String :=
  "\n" ++ String.ofList (List.replicate (2 * depth) ' ')

/-- One item a line, two spaces further in at each depth. -/
def indentedLayout : Layout where
  item := newLine
  close := newLine
  colon := ": "

mutual

/-- Appends the text of a value. -/
def write (l : Layout) (depth : Nat) (out : String) : Json → String
  | .bool b => out ++ (if b then "true" else "false")
  | .nat n => out ++ toString n
  | .text s => out ++ quote s
  | .list [] => out ++ "[]"
  | .list (item :: items) =>
    let out := write l (depth + 1) (out ++ "[" ++ l.item (depth + 1)) item
    writeItems l (depth + 1) out items ++ l.close depth ++ "]"
  | .object [] => out ++ "\x7b\x7d"
  | .object ((key, value) :: members) =>
    let start := out ++ "\x7b" ++ l.item (depth + 1) ++ quote key ++ l.colon
    let out := write l (depth + 1) start value
    writeMembers l (depth + 1) out members ++ l.close depth ++ "\x7d"

def writeItems (l : Layout) (depth : Nat) (out : String) : List Json → String
  | [] => out
  | item :: items => writeItems l depth (write l depth (out ++ "," ++ l.item depth) item) items

def writeMembers (l : Layout) (depth : Nat) (out : String) : List (String × Json) → String
  | [] => out
  | (key, value) :: members =>
    let out := write l depth (out ++ "," ++ l.item depth ++ quote key ++ l.colon) value
    writeMembers l depth out members

end

def compact (j : Json) : String :=
  write compactLayout 0 "" j

def indented (j : Json) : String :=
  write indentedLayout 0 "" j

end Json

end TokenStream
