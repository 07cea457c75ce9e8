import TokenStream.Pattern.Alternatives
import TokenStream.Text.Word
import TokenStream.Token

/-!
One element of a pattern against one token. An element is the first word of what is left of the
pattern, and its form decides what it asks of the token:

* `%name%`: a class of tokens, or this very text if there is no such class;
* `[abc]`: a token of one byte that stands between the brackets;
* `a|b|`: one of the alternatives, of which an empty one may be passed over;
* `!!word`: any other text, or no token at all;
* any other word: this text.
-/
namespace TokenStream.Pattern

/-- What a token does to an element. `pass` satisfies it without using the token up. -/
inductive Verdict
  | accept
  | reject
  | pass
deriving DecidableEq, Repr

def Verdict.ofBool (b : Bool) : Verdict :=
  if b then .accept else .reject

/-- A class of tokens that a pattern names between percent signs. -/
inductive TokenClass
  | name
  | typeName
  | any
  | ofVariable
  | number
  | boolean
  | string
  | bar
  | doubleBar
deriving DecidableEq, Repr

namespace TokenClass

def ofWord? (word : List Char) : Option TokenClass :=
  match String.ofList word with
  | "%var%" => some .name
  | "%type%" => some .typeName
  | "%any%" => some .any
  | "%varid%" => some .ofVariable
  | "%num%" => some .number
  | "%bool%" => some .boolean
  | "%str%" => some .string
  | "%or%" => some .bar
  | "%oror%" => some .doubleBar
  | _ => none

/-- A string is told by its first quote alone. -/
def admits (varId : UInt32) (t : Token) : TokenClass → Bool
  | .name => t.lexical.name
  | .typeName => t.lexical.name && t.varId == 0 && t.text != "delete"
  | .any => true
  | .ofVariable => t.varId == varId
  | .number => t.lexical.number
  | .boolean => t.lexical.boolean
  | .string => t.text.toList.head? == some '"'
  | .bar => t.text == "|"
  | .doubleBar => t.text == "||"

end TokenClass

/-- Whether what is left of a pattern starts with a negated element. Two exclamation marks at the
very end of a pattern are an ordinary word. -/
def negated : List Char → Bool
  | '!' :: '!' :: _ :: _ => true
  | _ => false

/-- The only character of a text of one byte. -/
def oneByte? : List Char → Option Char
  | [c] => if c.utf8Size = 1 then some c else none
  | _ => none

/-- Whether a set lists `c` after its opening bracket. A closing bracket is listed if there are at
least two of them. -/
def setLists (word : List Char) (c : Char) : Bool :=
  let listed := word.drop 1
  if c = ']' then decide (1 < listed.count ']') else listed.contains c

/-- A set closes, and is one only for a token of one byte. -/
def set? (word text : List Char) : Option Char :=
  if word.head? = some '[' ∧ word.contains ']' then oneByte? text else none

/-- A bar separates alternatives unless the word starts with it and has at most two bytes. -/
def hasAlternatives (word : List Char) : Bool :=
  word.contains '|' && (word.head? != some '|' || decide (2 < Text.byteLength word))

/-- Tests the element at the start of `tail`, the rest of the pattern, against a token. -/
def test (varId : UInt32) (t : Token) (tail : List Char) : Verdict :=
  let word := Text.firstWord tail
  let text := t.text.toList
  if word.head? = some '%' then
    match TokenClass.ofWord? word with
    | some k => .ofBool (k.admits varId t)
    | none => .ofBool (word == text)
  else match set? word text with
    | some c => .ofBool (setLists word c)
    | none =>
      if hasAlternatives word then
        match compareAlternatives tail text with
        | .hit => .accept
        | .miss => .reject
        | .emptyAlternative => .pass
      else if negated tail then .ofBool (word.drop 2 != text)
      else .ofBool (word == text)

end TokenStream.Pattern
