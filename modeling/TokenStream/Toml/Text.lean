/-!
Text in quotes, in the four forms that a TOML document may use. The readers of a document take a
bound first, which is more than the number of characters that the document has.
-/
namespace TokenStream.Toml

/-- Tabs and every character that is not a control character. -/
def isPrintable (c : Char) : Bool :=
  c = '\t' || (32 ≤ c.toNat && c.toNat ≠ 127)

def isSpace (c : Char) : Bool :=
  c = ' ' || c = '\t'

def skipSpaces (s : List Char) : List Char :=
  s.dropWhile isSpace

/-- What comes after the end of a line, if the text is at one. -/
def newline? : List Char → Option (List Char)
  | '\n' :: rest => some rest
  | '\r' :: '\n' :: rest => some rest
  | _ => none

def hexValue? (c : Char) : Option Nat :=
  if c.isDigit then some (c.toNat - '0'.toNat)
  else if 'a' ≤ c ∧ c ≤ 'f' then some (c.toNat - 'a'.toNat + 10)
  else if 'A' ≤ c ∧ c ≤ 'F' then some (c.toNat - 'A'.toNat + 10)
  else none

/-- A character by its code in exactly that many hexadecimal digits. -/
def codeChar? (digits : Nat) (s : List Char) : Option (Char × List Char) := do
  let code := s.take digits
  if code.length < digits then none
  let n ← code.foldlM (fun n c => (hexValue? c).map (n * 16 + ·)) 0
  if n.isValidChar then some (Char.ofNat n, s.drop digits) else none

/-- What stands after a backslash. -/
def escape? : List Char → Option (Char × List Char)
  | 'b' :: rest => some ('\x08', rest)
  | 't' :: rest => some ('\t', rest)
  | 'n' :: rest => some ('\n', rest)
  | 'f' :: rest => some ('\x0c', rest)
  | 'r' :: rest => some ('\r', rest)
  | '"' :: rest => some ('"', rest)
  | '\\' :: rest => some ('\\', rest)
  | 'u' :: rest => codeChar? 4 rest
  | 'U' :: rest => codeChar? 8 rest
  | _ => none

/-- The rest of a text in double quotes, and what was read of it so far in reverse. -/
def basicText : Nat → List Char → List Char → Option (String × List Char)
  | 0, _, _ => none
  | n + 1, acc, s =>
    match s with
    | '"' :: rest => some (String.ofList acc.reverse, rest)
    | '\\' :: rest => do
      let (c, rest) ← escape? rest
      basicText n (c :: acc) rest
    | c :: rest => if isPrintable c then basicText n (c :: acc) rest else none
    | [] => none

/-- The rest of a text in single quotes, which has no escapes. -/
def literalText (s : List Char) : Option (String × List Char) :=
  let text := s.takeWhile fun c => c ≠ '\'' && isPrintable c
  match s.drop text.length with
  | '\'' :: rest => some (String.ofList text, rest)
  | _ => none

/-- Drops all blanks and ends of lines. -/
def skipBlank : Nat → List Char → List Char
  | 0, s => s
  | n + 1, s =>
    match newline? s with
    | some rest => skipBlank n rest
    | none =>
      match s with
      | c :: rest => if isSpace c then skipBlank n rest else s
      | [] => []

/-- The rest of a text that three quotes close. Up to two more quotes may stand right before them.
With escapes, a backslash at the end of a line hides all blanks up to the next other character. -/
def longText (q : Char) (escapes : Bool) : Nat → List Char → List Char → Option (String × List Char)
  | 0, _, _ => none
  | n + 1, acc, s =>
    let quotes := s.takeWhile (· = q)
    if 3 ≤ quotes.length then
      if 5 < quotes.length then none
      else some (String.ofList (quotes.drop 3 ++ acc).reverse, s.drop quotes.length)
    else
      match newline? s with
      | some rest => longText q escapes n ('\n' :: acc) rest
      | none =>
        match s with
        | '\\' :: rest =>
          if escapes then
            match newline? (skipSpaces rest) with
            | some below => longText q escapes n acc (skipBlank n below)
            | none => do
              let (c, rest) ← escape? rest
              longText q escapes n (c :: acc) rest
          else longText q escapes n ('\\' :: acc) rest
        | c :: rest => if isPrintable c then longText q escapes n (c :: acc) rest else none
        | [] => none

/-- A line end right after the opening quotes is not part of the text. -/
def dropFirstNewline (s : List Char) : List Char :=
  (newline? s).getD s

/-- Text in quotes of one line, as a key or a value may have it. -/
def shortText? (bound : Nat) : List Char → Option (String × List Char)
  | '"' :: rest => basicText bound [] rest
  | '\'' :: rest => literalText rest
  | _ => none

/-- Text in quotes of any form. -/
def text? (bound : Nat) : List Char → Option (String × List Char)
  | '"' :: '"' :: '"' :: rest => longText '"' true bound [] (dropFirstNewline rest)
  | '\'' :: '\'' :: '\'' :: rest => longText '\'' false bound [] (dropFirstNewline rest)
  | s => shortText? bound s

end TokenStream.Toml
