import TokenStream.Limits
import TokenStream.Toml.Moment
import TokenStream.Toml.Number
import TokenStream.Toml.Text

/-! The statements of a TOML document: headers, and keys with their values. -/
namespace TokenStream.Toml

/-- A dotted key, never empty. -/
abbrev Path := List String

inductive Statement
  | header (path : Path)
  | arrayHeader (path : Path)
  | assign (path : Path) (value : Value)

/-- What comes after a comment, if the text is at one. It ends before the end of its line. -/
def skipComment : List Char → Option (List Char)
  | '#' :: rest =>
    let after := rest.dropWhile isPrintable
    match after with
    | [] => some []
    | _ => (newline? after).map fun _ => after
  | s => some s

/-- What comes after the end of a line, before which there may be blanks and a comment. -/
def endOfLine? (s : List Char) : Option (List Char) := do
  match ← skipComment (skipSpaces s) with
  | [] => some []
  | after => newline? after

/-- Drops blanks, comments and ends of lines. -/
def skipFiller : Nat → List Char → Option (List Char)
  | 0, s => some s
  | n + 1, s => do
    let after ← skipComment (skipSpaces s)
    match newline? after with
    | some rest => skipFiller n rest
    | none => some after

def isBareKeyChar (c : Char) : Bool :=
  c.isAlphanum || c = '_' || c = '-'

def simpleKey? (bound : Nat) (s : List Char) : Option (String × List Char) :=
  match s with
  | '"' :: _ | '\'' :: _ => shortText? bound s
  | _ =>
    let key := s.takeWhile isBareKeyChar
    if key.isEmpty then none else some (String.ofList key, s.drop key.length)

/-- A key of one or more parts with dots between them, and no more parts than the second number
says. Blanks around a part do not matter. -/
def parts? (bound : Nat) : Nat → List Char → Option (Path × List Char)
  | 0, _ => none
  | n + 1, s => do
    let (key, rest) ← simpleKey? bound (skipSpaces s)
    match skipSpaces rest with
    | '.' :: rest => do
      let (path, rest) ← parts? bound n rest
      some (key :: path, rest)
    | rest => some ([key], rest)

/-- A key with no more parts than are allowed. -/
def path? (bound : Nat) (s : List Char) : Option (Path × List Char) :=
  parts? bound Limits.tomlDepth s

/-- Adds a member to a table in braces. A dotted key makes tables on its way or goes into tables
that dotted keys made, and no key is set twice. -/
def assignInline (value : Value) : Path → Members → Option Members
  | [], _ => none
  | [key], members =>
    if (members.lookup key).isSome then none else some (members ++ [(key, value)])
  | key :: rest, members => do
    let inside ← match members.lookup key with
      | none => some []
      | some (.table .dotted inside) => some inside
      | some _ => none
    let inside ← assignInline value rest inside
    some (setMember key (.table .dotted inside) members)

/-- The members of a table in braces, from its entries in order. -/
def inlineMembers (entries : List (Path × Value)) : Option Members :=
  entries.foldlM (fun members entry => assignInline entry.2 entry.1 members) []

mutual

/-- A value. The first number bounds the steps to its end, of which no character takes more than
two. The second one tells how many arrays and tables may still be opened inside each other. -/
def value? : Nat → Nat → List Char → Option (Value × List Char)
  | 0, _, _ => none
  | n + 1, depth, s =>
    match s, depth with
    | '"' :: _, _ | '\'' :: _, _ => (text? (n + 1) s).map fun r => (.text r.1, r.2)
    | '[' :: rest, depth + 1 => items? n depth [] rest
    | '{' :: rest, depth + 1 =>
      match skipSpaces rest with
      | '}' :: rest => some (.table .inline [], rest)
      | rest => entries? n depth [] rest
    | _, _ =>
      match moment? s with
      | some rest => some (.moment, rest)
      | none =>
        let word := s.takeWhile isWordChar
        (wordValue? word).map fun v => (v, s.drop word.length)

/-- An array from its next value to its closing bracket, with the values before in reverse. A comma
may stand after the last one. -/
def items? : Nat → Nat → List Value → List Char → Option (Value × List Char)
  | 0, _, _, _ => none
  | n + 1, depth, before, s =>
    match skipFiller n s with
    | none => none
    | some (']' :: rest) => some (.array before.reverse, rest)
    | some start =>
      match value? n depth start with
      | none => none
      | some (v, rest) =>
        match skipFiller n rest with
        | some (',' :: rest) => items? n depth (v :: before) rest
        | some (']' :: rest) => some (.array (v :: before).reverse, rest)
        | _ => none

/-- A table in braces from its next member to its closing brace, with the members before in
reverse. -/
def entries? : Nat → Nat → List (Path × Value) → List Char → Option (Value × List Char)
  | 0, _, _, _ => none
  | n + 1, depth, before, s =>
    match path? (n + 1) s with
    | some (path, '=' :: rest) =>
      match value? n depth (skipSpaces rest) with
      | none => none
      | some (v, rest) =>
        match skipSpaces rest with
        | ',' :: rest => entries? n depth ((path, v) :: before) rest
        | '}' :: rest =>
          (inlineMembers ((path, v) :: before).reverse).map fun members =>
            (.table .inline members, rest)
        | _ => none
    | _ => none

end

/-- One statement with the rest of its line. -/
def statement? (bound : Nat) (s : List Char) : Option (Statement × List Char) :=
  match s with
  | '[' :: '[' :: rest => do
    let (path, rest) ← path? bound rest
    match rest with
    | ']' :: ']' :: rest => (endOfLine? rest).map fun after => (.arrayHeader path, after)
    | _ => none
  | '[' :: rest => do
    let (path, rest) ← path? bound rest
    match rest with
    | ']' :: rest => (endOfLine? rest).map fun after => (.header path, after)
    | _ => none
  | _ => do
    let (path, rest) ← path? bound s
    match rest with
    | '=' :: rest => do
      let (v, rest) ← value? (2 * bound) Limits.tomlDepth (skipSpaces rest)
      (endOfLine? rest).map fun after => (.assign path v, after)
    | _ => none

/-- The statements of a text, with those before it in reverse. There are no more of them than the
first number says. -/
def statementsFrom (bound : Nat) : Nat → List Statement → List Char → Option (List Statement)
  | 0, _, _ => none
  | n + 1, before, s =>
    match skipFiller bound s with
    | none => none
    | some [] => some before.reverse
    | some start =>
      match statement? bound start with
      | none => none
      | some (next, rest) => statementsFrom bound n (next :: before) rest

/-- A byte order mark at the start of a document does not count. -/
def statements? (text : String) : Option (List Statement) :=
  let s := match text.toList with
    | '\ufeff' :: rest => rest
    | s => s
  let bound := s.length + 1
  statementsFrom bound bound [] s

end TokenStream.Toml
