/-!
Values of a TOML document. A table remembers how it came to be, because that decides whether later
lines of the document may add to it.
-/
namespace TokenStream.Toml

/-- How a table came to be: from a header of its own, from the header of a table inside it, from a
dotted key, or written in braces. -/
inductive Origin
  | header
  | implied
  | dotted
  | inline
deriving DecidableEq, Repr

/-- Numbers with a fraction or an exponent, dates and times are known to be there, but not read. -/
inductive Value
  | text (s : String)
  | integer (n : Int)
  | boolean (b : Bool)
  | float
  | moment
  | array (items : List Value)
  | table (origin : Origin) (members : List (String × Value))
  /-- Tables under headers in double brackets, the last one first. -/
  | tables (items : List (List (String × Value)))

/-- The members of a table in the order they were written. -/
abbrev Members := List (String × Value)

/-- Sets a member, in place if there is one of that name. -/
def setMember (key : String) (value : Value) : Members → Members
  | [] => [(key, value)]
  | entry :: rest =>
    if entry.1 = key then (key, value) :: rest else entry :: setMember key value rest

end TokenStream.Toml
