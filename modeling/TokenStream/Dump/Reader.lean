import TokenStream.Chain.Link
import TokenStream.Dump.Error
import TokenStream.Dump.Writer
import TokenStream.Log.Event
import TokenStream.Text.Blank
import TokenStream.Text.Decimal

/-!
Dump text as a chain. Blank lines and banners are skipped. A line may open with a file header or
with the marker of a source line; its other words are tokens, each perhaps with the identity of
its variable after an at sign. Brackets are linked on the way if that is asked for.
-/
namespace TokenStream.Dump

structure Options where
  linkBrackets : Bool := true
  validate : Bool := true
deriving DecidableEq, Repr

/-- The kinds of brackets that are linked. -/
inductive Bracket
  | round
  | square
  | curly
deriving DecidableEq, Repr

namespace Bracket

def opening : Bracket → String
  | .round => "("
  | .square => "["
  | .curly => "\x7b"

def closing : Bracket → String
  | .round => ")"
  | .square => "]"
  | .curly => "\x7d"

def all : List Bracket :=
  [.round, .square, .curly]

def ofOpening? (text : String) : Option Bracket :=
  all.find? fun b => b.opening == text

def ofClosing? (text : String) : Option Bracket :=
  all.find? fun b => b.closing == text

end Bracket

/-- An opening bracket that waits for its partner, with the line of the dump it is on. Which bracket
it is the chain knows. -/
structure Opener where
  handle : Handle
  line : Nat
deriving DecidableEq, Repr

/-- What has been read: the tokens, where the reader stands, and the brackets still open, the
innermost first, with their number. -/
structure State where
  chain : Chain
  place : Place
  openers : List Opener
  depth : Nat
deriving DecidableEq, Repr

namespace State

def start : State where
  chain := .empty
  place := .start
  openers := []
  depth := 0

end State

/-- The digits of a word that is the marker of a source line. -/
def markerDigits? (word : List Char) : Option (List Char) :=
  if word.getLast? = some ':' ∧ Text.isDigits word.dropLast then some word.dropLast else none

/-- The line that a word marks, if it is a marker. A number over 32 bits marks no line. -/
def readMarker (number : Nat) (word : List Char) : Except Failure (Option UInt32) :=
  match markerDigits? word with
  | none => .ok none
  | some digits =>
    match Text.readDigits32? digits with
    | some line => .ok (some line)
    | none => .error (.refused (.badLineMarker number (String.ofList word)))

/-- A word in two parts, before its last at sign and after it, if the second is a number and the
first is not empty. -/
def cutVarId? (word : List Char) : Option (List Char × List Char) :=
  let digits := (word.reverse.takeWhile Char.isDigit).reverse
  match word.reverse.dropWhile Char.isDigit with
  | '@' :: c :: before =>
    if digits.isEmpty then none else some ((c :: before).reverse, digits)
  | _ => none

/-- The text of a token and the identity of its variable, zero if none is written. -/
def readToken (number : Nat) (word : List Char) : Except Failure (String × UInt32) :=
  match cutVarId? word with
  | none => .ok (String.ofList word, 0)
  | some (text, digits) =>
    match Text.readDigits32? digits with
    | some varId => .ok (String.ofList text, varId)
    | none => .error (.refused (.badVarId number (String.ofList word)))

/-- The index that a file header means: a place in the table, or else a number. -/
def readFile (names : Names) (number : Nat) (name : List Char) : Except Failure UInt32 :=
  let text := String.ofList name
  match names.bind fun table => table.findIdx? (· == text) with
  | some i => .ok (UInt32.ofNat i)
  | none =>
    match Text.readWord32? name with
    | some file => .ok file
    | none => .error (.refused (.unknownFile number text))

/-- Opens or closes a bracket. A closing one must fit the innermost open one, which is looked up. -/
def trackBracket (number : Nat) (h : Handle) (text : String) (s : State) :
    Except Failure State :=
  match Bracket.ofOpening? text with
  | some _ =>
    if Limits.openBrackets ≤ s.depth then .error (.refused (.nestingTooDeep number))
    else .ok { s with
      openers := { handle := h, line := number } :: s.openers
      depth := s.depth + 1 }
  | none =>
    match Bracket.ofClosing? text with
    | none => .ok s
    | some bracket =>
      let ⟨chain, place, openers, depth⟩ := s
      match openers with
      | opener :: rest => do
        let waiting ← onChain (chain.token opener.handle)
        if waiting.text = bracket.opening then
          let chain ← onChain (chain.linkPair opener.handle h)
          return { chain, place, openers := rest, depth := depth - 1 }
        else throw (.refused (.unbalancedBracket number text))
      | [] => .error (.refused (.unbalancedBracket number text))

/-- Appends the token of one word at the place where the reader stands. -/
def readWord (options : Options) (number : Nat) (s : State) (word : List Char) :
    Except Failure State := do
  let ⟨chain, place, openers, depth⟩ := s
  if Limits.dumpTokens ≤ chain.live then throw (.refused .tooManyTokens)
  let (text, varId) ← readToken number word
  let (chain, h) ← onChain (chain.push text place.line (place.file.getD 0))
  let chain ← onChain (chain.modifyToken h fun t => { t with varId })
  let s : State := { chain, place, openers, depth }
  if options.linkBrackets then trackBracket number h text s else return s

def readWords (options : Options) (number : Nat) (s : State) (words : List (List Char)) :
    Except Failure State :=
  words.foldlM (readWord options number) s

/-- Reads one line of the dump, which has the given number. -/
def readLine (names : Names) (options : Options) (s : State) (number : Nat) (line : List Char) :
    Except Failure State := do
  match Text.blankWords line with
  | [] => return s
  | first :: rest =>
    if "###".toList.isPrefixOf first then return s
    else if first = "##file".toList then
      let file ← readFile names number (rest.head?.getD [])
      readWords options number { s with place := s.place.enter file } rest.tail
    else
      match ← readMarker number first with
      | some l => readWords options number { s with place := s.place.atLine l } rest
      | none => readWords options number s (first :: rest)

/-- Reads lines, the first of which has the given number. Numbers of lines have 32 bits. -/
def readLines (names : Names) (options : Options) :
    Nat → State → List (List Char) → Except Failure State
  | _, s, [] => .ok s
  | number, s, line :: rest => do
    if UInt32.size ≤ number then throw (.fault .exhausted)
    readLines names options (number + 1) (← readLine names options s number line) rest

/-- The chain at the end of the text, with no bracket left open, and checked if that is asked
for. -/
def finish (options : Options) (s : State) : Except Failure Chain :=
  match s.openers with
  | opener :: _ => do
    let waiting ← onChain (s.chain.token opener.handle)
    throw (.refused (.unbalancedBracket opener.line waiting.text))
  | [] =>
    if options.validate then
      match s.chain.validate with
      | .ok _ => .ok s.chain
      | .error v => .error (.refused (.invalidChain v))
    else .ok s.chain

/-- Reads the whole text of a dump. -/
def parse (text : String) (names : Names) (options : Options) : Except Failure Chain := do
  finish options (← readLines names options 1 .start (Text.lines text.toList))

/-- What a reader hands back: events to log, in order, and the chain if there is one. -/
structure Reading where
  events : List Log.Event
  result : Except Failure Chain

/-- The events of a dump that was read. -/
def loadedEvents (options : Options) (tokens : Nat) : List Log.Event :=
  let checked := if options.validate then Log.Event.success .chainValidated "Loaded chain validated"
    else Log.Event.warning "Loaded chain not validated"
  [checked, Log.Event.success .dumpLoaded "Token dump loaded"].map fun e =>
    e.withValue "tokens" (toString tokens)

def read (text : String) (names : Names) (options : Options) : Reading :=
  let result := parse text names options
  match result with
  | .ok chain => { events := loadedEvents options chain.live, result }
  | .error _ => { events := [], result }

end TokenStream.Dump
