/-!
A text against alternatives written with bars between them, as in `const|volatile|`. The scan runs
over the alternatives once and starts the text again at each bar. A space, a null character or the
end closes the alternatives, but a character that equals the next one of the text is taken as part
of the alternative before anything else is asked of it.
-/
namespace TokenStream.Pattern

inductive Comparison
  /-- One alternative is the text. -/
  | hit
  | miss
  /-- No alternative is the text, and one of them is empty. -/
  | emptyAlternative
deriving DecidableEq, Repr

/-- Whether the scan follows an alternative, with what is left of the text and whether it is still
all of it, or skips to the next bar. -/
inductive Scan
  | follow (pending : List Char) (whole : Bool)
  | skip
deriving DecidableEq, Repr

/-- A text has ended also where it has a null character. -/
def exhausted : List Char → Bool
  | [] => true
  | c :: _ => c == '\x00'

def withoutHit (emptySeen : Bool) : Comparison :=
  if emptySeen then .emptyAlternative else .miss

def scanFrom (text : List Char) : Bool → Scan → List Char → Comparison
  | emptySeen, .skip, [] => withoutHit emptySeen
  | emptySeen, .skip, h :: alternatives =>
    if h = ' ' ∨ h = '\x00' then withoutHit emptySeen
    else if h = '|' then scanFrom text emptySeen (.follow text true) alternatives
    else scanFrom text emptySeen .skip alternatives
  | emptySeen, .follow pending whole, [] =>
    if exhausted pending then .hit
    else if whole then .emptyAlternative
    else withoutHit emptySeen
  | emptySeen, .follow pending whole, h :: alternatives =>
    if h ≠ '\x00' ∧ pending.head? = some h then
      scanFrom text emptySeen (.follow pending.tail false) alternatives
    else if h = '\x00' ∧ exhausted pending then .hit
    else if h = '|' then
      if exhausted pending then .hit
      else scanFrom text (emptySeen || whole) (.follow text true) alternatives
    else if h = ' ' ∨ h = '\x00' then
      if whole then .emptyAlternative
      else if exhausted pending then .hit
      else withoutHit emptySeen
    else scanFrom text emptySeen .skip alternatives

/-- Compares `text` with the alternatives at the start of `alternatives`. -/
def compareAlternatives (alternatives text : List Char) : Comparison :=
  scanFrom text false (.follow text true) alternatives

end TokenStream.Pattern
