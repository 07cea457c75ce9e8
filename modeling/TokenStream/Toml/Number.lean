import TokenStream.Toml.Value

/-!
Words without quotes: truth values and numbers. An underscore may stand between two digits, and an
integer fits in 64 bits.
-/
namespace TokenStream.Toml

/-- The digits without the underscores, if every underscore stands between two digits and there is
a digit at all. -/
def plainDigits? (isDigit : Char → Bool) (s : List Char) : Option (List Char) :=
  let inner := (s.drop 1).dropLast
  let apart := (s.zip (s.drop 1)).all fun pair => pair.1 ≠ '_' || pair.2 ≠ '_'
  if s.head?.any isDigit && s.getLast?.any isDigit && apart
      && inner.all (fun c => isDigit c || c = '_') then
    some (s.filter (· ≠ '_'))
  else none

def digitValue (c : Char) : Nat :=
  if c.isDigit then c.toNat - '0'.toNat else c.toLower.toNat - 'a'.toNat + 10

def valueIn (base : Nat) (digits : List Char) : Nat :=
  digits.foldl (fun n c => n * base + digitValue c) 0

/-- An integer by its digits, if it fits in 64 bits with its sign. No base needs more than 64 digits
for that. -/
def boundedInteger? (negative : Bool) (base : Nat) (digits : List Char) : Option Value :=
  let digits := digits.dropWhile (· = '0')
  if 64 < digits.length then none
  else
    let n : Int := if negative then -(valueIn base digits : Int) else valueIn base digits
    if -0x8000000000000000 ≤ n ∧ n < 0x8000000000000000 then some (.integer n) else none

def isHexDigit (c : Char) : Bool :=
  c.isDigit || ('a' ≤ c && c ≤ 'f') || ('A' ≤ c && c ≤ 'F')

def isDigitBelow (top : Char) (c : Char) : Bool :=
  '0' ≤ c && c < top

/-- Whether there is a minus sign, and what comes after the sign. -/
def splitSign : List Char → Bool × List Char
  | '-' :: rest => (true, rest)
  | '+' :: rest => (false, rest)
  | s => (false, s)

/-- Decimal digits that do not start with a needless zero. -/
def decimalDigits? (s : List Char) : Option (List Char) := do
  let digits ← plainDigits? Char.isDigit s
  match digits with
  | '0' :: _ :: _ => none
  | _ => some digits

def integer? (word : List Char) : Option Value :=
  match word with
  | '0' :: 'x' :: rest =>
    (plainDigits? isHexDigit rest).bind (boundedInteger? false 16)
  | '0' :: 'o' :: rest =>
    (plainDigits? (isDigitBelow '8') rest).bind (boundedInteger? false 8)
  | '0' :: 'b' :: rest =>
    (plainDigits? (isDigitBelow '2') rest).bind (boundedInteger? false 2)
  | _ =>
    let (negative, s) := splitSign word
    (decimalDigits? s).bind (boundedInteger? negative 10)

/-- The characters of a row of digits. -/
def isDigitPart (c : Char) : Bool :=
  c.isDigit || c = '_'

/-- Whether this is an exponent, or nothing. -/
def isExponent : List Char → Bool
  | [] => true
  | c :: rest =>
    (c = 'e' || c = 'E') && (plainDigits? Char.isDigit (splitSign rest).2).isSome

/-- Whether this is a fraction, perhaps with an exponent after it, or else an exponent. -/
def isFraction (s : List Char) : Bool :=
  match s with
  | '.' :: rest =>
    (plainDigits? Char.isDigit (rest.takeWhile isDigitPart)).isSome
      && isExponent (rest.dropWhile isDigitPart)
  | [] => false
  | s => isExponent s

def isFloat (word : List Char) : Bool :=
  let s := (splitSign word).2
  s = "inf".toList || s = "nan".toList
    || ((decimalDigits? (s.takeWhile isDigitPart)).isSome && isFraction (s.dropWhile isDigitPart))

/-- The least number that is as near to 2 ^ 1024 as to the largest 64-bit float. From here on a
number rounds to infinity. -/
def floatBound : Nat :=
  Nat.pow 2 1024 - Nat.pow 2 970

/-- The number of decimal digits of the bound. -/
def boundDigits : Nat := 309

/-- An exponent by its digits. Twenty of them tell that it is out of all bounds. -/
def exponentValue (s : List Char) : Int :=
  let (below, digits) := splitSign s
  let size : Int := valueIn 10 (((digits.filter Char.isDigit).dropWhile (· = '0')).take 20)
  if below then -size else size

/-- Whether a number written with a fraction or an exponent is too large. Below zero there is no
bound. The digits before the point tell a number from the bound, which is a whole number. -/
def isTooLarge (word : List Char) : Bool :=
  let (negative, s) := splitSign word
  let whole := (s.takeWhile isDigitPart).filter Char.isDigit
  let (fraction, rest) := match s.dropWhile isDigitPart with
    | '.' :: rest => ((rest.takeWhile isDigitPart).filter Char.isDigit, rest.dropWhile isDigitPart)
    | rest => ([], rest)
  let digits := (whole ++ fraction).dropWhile (· = '0')
  let before := digits.length - fraction.length + exponentValue (rest.drop 1)
  let leading := (digits ++ List.replicate boundDigits '0').take boundDigits
  !negative && !digits.isEmpty
    && (decide (boundDigits < before) || (before == boundDigits && floatBound ≤ valueIn 10 leading))

/-- The value that a word without quotes writes. -/
def wordValue? (word : List Char) : Option Value :=
  if word = "true".toList then some (.boolean true)
  else if word = "false".toList then some (.boolean false)
  else
    match integer? word with
    | some v => some v
    | none => if isFloat word && !isTooLarge word then some .float else none

/-- The characters of such words. -/
def isWordChar (c : Char) : Bool :=
  c.isAlphanum || c = '_' || c = '-' || c = '+' || c = '.'

end TokenStream.Toml
