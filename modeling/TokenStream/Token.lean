import TokenStream.Code
import TokenStream.Handle

/-!
Tokens: a text that is never empty, the lexical class of that text, and where the token came from.
A string literal is a text with a double quote at both ends; its value is what stands between them.
-/
namespace TokenStream

/-- The lexical class of a text. Only the first characters count, so a class is no proof of form. -/
structure LexicalClass where
  name : Bool
  number : Bool
  boolean : Bool
deriving DecidableEq, Repr

namespace LexicalClass

/-- A name starts with an ASCII letter or an underscore. -/
def startsName : List Char → Bool
  | c :: _ => c == '_' || c.isAlpha
  | [] => false

/-- A number starts with a digit, perhaps after a minus sign. -/
def startsNumber : List Char → Bool
  | '-' :: c :: _ => c.isDigit
  | c :: _ => c.isDigit
  | [] => false

def ofText (text : String) : LexicalClass where
  name := startsName text.toList
  number := startsNumber text.toList
  boolean := text == "true" || text == "false"

end LexicalClass

/-- What a check may note on a token. None of it depends on the text. -/
inductive Mark
  | unsigned
  | signed
  | long
  | unused
deriving DecidableEq, Repr

structure Token where
  text : String
  nonempty : text ≠ ""
  lexical : LexicalClass
  unsigned : Bool := false
  signed : Bool := false
  long : Bool := false
  unused : Bool := false
  varId : UInt32 := 0
  file : UInt32 := 0
  line : UInt32 := 0
  progress : UInt32 := 0
deriving DecidableEq, Repr

/-- Why a literal operation refused a token: the text is not a string literal. -/
inductive LiteralError
  | malformed (text : String)
deriving DecidableEq, Repr

def LiteralError.message : LiteralError → String
  | .malformed text => s!"Malformed string literal: {text}"

def LiteralError.code : LiteralError → Code
  | .malformed _ => .malformedLiteral

namespace Token

/-- Names of the built-in types. -/
def standardTypes : List String :=
  ["bool", "char", "short", "int", "long", "float", "double", "size_t"]

/-- A token of which nothing but its text is known. A text that is written out is seen not to be
empty by evaluation. -/
def bare (text : String) (filled : text.isEmpty = false := by exact Eq.refl false) : Token where
  text
  nonempty := String.isEmpty_eq_false_iff.1 filled
  lexical := .ofText text

def ofText (text : String) : Except Fault Token :=
  if empty : text = "" then .error .emptyText
  else .ok (bare text (String.isEmpty_eq_false_iff.2 empty))

/-- A new text brings its own lexical class and belongs to no variable yet. -/
def setText (t : Token) (text : String) : Except Fault Token :=
  if empty : text = "" then .error .emptyText
  else .ok { t with text, nonempty := empty, lexical := .ofText text, varId := 0 }

def setMark (t : Token) (mark : Mark) (value : Bool) : Token :=
  match mark with
  | .unsigned => { t with unsigned := value }
  | .signed => { t with signed := value }
  | .long => { t with long := value }
  | .unused => { t with unused := value }

def isStandardType (t : Token) : Bool :=
  standardTypes.contains t.text

/-- Both quotes have to be there: one character alone is no literal. -/
def isQuoted (text : String) : Bool :=
  match text.toList with
  | '"' :: rest => rest.getLast? == some '"'
  | _ => false

def isStringLiteral (t : Token) : Bool :=
  isQuoted t.text

/-- The characters between the first and the last one. -/
def inner (text : String) : List Char :=
  (text.toList.drop 1).dropLast

def literalValue (t : Token) : Except LiteralError String :=
  if isQuoted t.text then .ok (String.ofList (inner t.text))
  else .error (.malformed t.text)

/-- Two literals as one, without the quotes where they meet. -/
def joined (text other : String) : String :=
  String.ofList (text.toList.dropLast ++ other.toList.drop 1)

/-- The quote at the end of the second literal stays. -/
theorem joined_nonempty (text : String) {other : String} (quoted : isQuoted other = true) :
    joined text other ≠ "" := by
  intro empty
  have chars := congrArg String.toList empty
  rw [joined, String.toList_ofList] at chars
  have no_end := (List.append_eq_nil_iff.1 chars).2
  unfold isQuoted at quoted
  split at quoted
  next rest shape =>
    rw [shape, List.drop_one, List.tail_cons] at no_end
    subst no_end
    cases quoted
  next => cases quoted

/-- Joins two literals into one. The token's own text is looked at first, and the lexical class
stays, which is right because no literal is a name, a number or a boolean. -/
def appendLiteral (t : Token) (other : String) : Except LiteralError Token :=
  if !isQuoted t.text then .error (.malformed t.text)
  else if quoted : isQuoted other = true then
    .ok { t with text := joined t.text other, nonempty := joined_nonempty t.text quoted }
  else .error (.malformed other)

/-- Characters of a literal's value as a program sees them: an escape sequence counts once, the
sequence for the null character ends the count, and a lone backslash at the end counts. -/
def effectiveLength : List Char → Nat
  | [] => 0
  | ['\\'] => 1
  | '\\' :: c :: rest => if c = '0' then 0 else effectiveLength rest + 1
  | _ :: rest => effectiveLength rest + 1

def literalLength (t : Token) : Except LiteralError Nat :=
  if isQuoted t.text then .ok (effectiveLength (inner t.text))
  else .error (.malformed t.text)

end Token

/-- A change of one token. -/
inductive TokenChange
  | text (text : String)
  | literal (other : String)
  | mark (mark : Mark) (value : Bool)
  | varId (n : UInt32)
  | file (n : UInt32)
  | line (n : UInt32)
  | progress (n : UInt32)
deriving DecidableEq, Repr

/-- The token after a change. A literal that cannot be appended leaves it as it was, with the
reason beside it. -/
def Token.apply (t : Token) : TokenChange → Except Fault (Token × Option LiteralError)
  | .text text => (t.setText text).map fun t => (t, none)
  | .literal other =>
    match t.appendLiteral other with
    | .ok t => .ok (t, none)
    | .error e => .ok (t, some e)
  | .mark mark value => .ok (t.setMark mark value, none)
  | .varId n => .ok ({ t with varId := n }, none)
  | .file n => .ok ({ t with file := n }, none)
  | .line n => .ok ({ t with line := n }, none)
  | .progress n => .ok ({ t with progress := n }, none)

end TokenStream
