/-!
Dates and times. A date may have a time after it, and then the time may have an offset. Only
whether they are well formed matters.
-/
namespace TokenStream.Toml

/-- A number of two digits between two bounds. -/
def twoDigits? (least greatest : Nat) : List Char → Option (Nat × List Char)
  | a :: b :: rest =>
    let n := 10 * (a.toNat - '0'.toNat) + (b.toNat - '0'.toNat)
    if a.isDigit ∧ b.isDigit ∧ least ≤ n ∧ n ≤ greatest then some (n, rest) else none
  | _ => none

def colon? : List Char → Option (List Char)
  | ':' :: rest => some rest
  | _ => none

/-- Hours and minutes. -/
def clock? (s : List Char) : Option (List Char) := do
  let (_, rest) ← twoDigits? 0 23 s
  let (_, rest) ← twoDigits? 0 59 (← colon? rest)
  some rest

/-- What comes after a time, whose seconds may have a fraction. -/
def time? (s : List Char) : Option (List Char) := do
  let (_, rest) ← twoDigits? 0 60 (← colon? (← clock? s))
  match rest with
  | '.' :: c :: fraction => some (if c.isDigit then fraction.dropWhile Char.isDigit else rest)
  | _ => some rest

/-- What comes after the offset of a time, if it has one. -/
def offset? : List Char → Option (List Char)
  | 'Z' :: rest | 'z' :: rest => some rest
  | '+' :: rest | '-' :: rest => clock? rest
  | s => some s

/-- The days that a month of a year has. -/
def daysIn (year month : Nat) : Nat :=
  if month = 2 then
    if year % 4 = 0 ∧ (year % 100 ≠ 0 ∨ year % 400 = 0) then 29 else 28
  else if month = 4 ∨ month = 6 ∨ month = 9 ∨ month = 11 then 30
  else 31

def date? (s : List Char) : Option (List Char) := do
  let (century, rest) ← twoDigits? 0 99 s
  let (year, rest) ← twoDigits? 0 99 rest
  match rest with
  | '-' :: rest => do
    let (month, rest) ← twoDigits? 1 12 rest
    match rest with
    | '-' :: rest => do
      let (_, rest) ← twoDigits? 1 (daysIn (100 * century + year) month) rest
      some rest
    | _ => none
  | _ => none

def isTimeMark (c : Char) : Bool :=
  c = 'T' || c = 't' || c = ' '

/-- What comes after a date, a time, or both. -/
def moment? (s : List Char) : Option (List Char) :=
  match date? s with
  | none => time? s
  | some rest =>
    match rest with
    | c :: after =>
      if isTimeMark c then
        match time? after with
        | some rest => offset? rest
        | none => some rest
      else some rest
    | [] => some []

end TokenStream.Toml
