import TokenStream.Proofs.Chain.Effect
import TokenStream.Proofs.Dump.Scan
/-!
A dump as one sequence of items, each with the number of its line: file headers, markers of source
lines and tokens. The reader takes them one after the other, so what holds of a run is an induction
over the items, whatever lines they stand on.
-/
namespace TokenStream.Dump

inductive Item
  | header (name : List Char)
  | marker (word : List Char)
  | token (word : List Char)
deriving DecidableEq, Repr

/-- What a line says. A header or a marker stands at its start only. -/
def lineItems (line : List Char) : List Item :=
  match Text.blankWords line with
  | [] => []
  | first :: rest =>
    if "###".toList.isPrefixOf first then []
    else if first = "##file".toList then
      .header (rest.head?.getD []) :: rest.tail.map .token
    else if (markerDigits? first).isSome then .marker first :: rest.map .token
    else (first :: rest).map .token

def numbered (number : Nat) (line : List Char) : List (Item × Nat) :=
  (lineItems line).map fun item => (item, number)

/-- The items of a whole text. Lines are counted from one. -/
def items (text : String) : List (Item × Nat) :=
  ((Text.lines text.toList).zipIdx 1).flatMap fun (line, number) => numbered number line

/-- Where the reader stands after an item. -/
def moveTo (names : Names) (place : Place) : Item × Nat → Except Failure Place
  | (.header name, number) => (readFile names number name).map place.enter
  | (.marker word, number) =>
    (readMarker number word).map fun line => (line.map place.atLine).getD place
  | (.token _, _) => .ok place

def readItem (names : Names) (options : Options) (s : State) (item : Item × Nat) :
    Except Failure State := do
  let place ← moveTo names s.place item
  match item with
  | (.token word, number) => readWord options number { s with place } word
  | _ => return { s with place }

/-- The line of an item that is a token. -/
def tokenLine? : Item × Nat → Option Nat
  | (.token _, number) => some number
  | _ => none

/-- The line of each token. -/
def tokenLines (text : String) : List Nat :=
  (items text).filterMap tokenLine?

section
variable {names : Names} {options : Options} {s : State}

theorem foldlM_readItem_tokens (number : Nat) (words : List (List Char)) :
    (words.map fun word => (Item.token word, number)).foldlM (readItem names options) s =
      readWords options number s words := by
  rw [readWords, List.foldlM_map]
  rfl

theorem readMarker_eq_none_iff {number : Nat} {word : List Char} :
    readMarker number word = .ok none ↔ markerDigits? word = none := by
  unfold readMarker
  cases markerDigits? word with
  | none => simp
  | some digits =>
      cases line : Text.readDigits32? digits <;> simp [line]

theorem readLine_eq (number : Nat) (line : List Char) :
    readLine names options s number line =
      (numbered number line).foldlM (readItem names options) s := by
  unfold readLine numbered lineItems
  cases Text.blankWords line with
  | nil => rfl
  | cons first rest =>
      have tokens (s : State) (words : List (List Char)) :
          ((words.map Item.token).map fun item => (item, number)).foldlM (readItem names options)
            s = readWords options number s words := by
        rw [List.map_map]
        exact foldlM_readItem_tokens number words
      dsimp only
      by_cases banner : "###".toList.isPrefixOf first = true
      · rw [if_pos banner, if_pos banner]
        rfl
      rw [if_neg banner, if_neg banner]
      by_cases header : first = "##file".toList
      · rw [if_pos header, if_pos header, List.map_cons, List.foldlM_cons]
        simp only [tokens, readItem, moveTo]
        cases readFile names number (rest.head?.getD []) <;> rfl
      rw [if_neg header, if_neg header]
      cases marker : markerDigits? first with
      | none =>
          rw [readMarker_eq_none_iff.2 marker, Option.isSome_none, if_neg Bool.false_ne_true,
            tokens]
          rfl
      | some digits =>
          rw [Option.isSome_some, if_pos rfl, List.map_cons, List.foldlM_cons]
          simp only [tokens, readItem, moveTo]
          cases found : readMarker number first with
          | error e => rfl
          | ok mark =>
              cases mark with
              | none =>
                  rw [readMarker_eq_none_iff.1 found] at marker
                  cases marker
              | some mark => rfl

theorem readAll_eq (number : Nat) (lines : List (List Char)) :
    readAll names options number s lines =
      ((lines.zipIdx number).flatMap fun (line, number) => numbered number line).foldlM
        (readItem names options) s := by
  unfold readAll
  induction lines generalizing number s with
  | nil => rfl
  | cons line lines ih =>
      rw [List.zipIdx_cons, List.foldlM_cons, List.flatMap_cons, List.foldlM_append, ← readLine_eq]
      congr 1
      funext s
      exact ih (number + 1)

/-- Reading a dump whose lines can be numbered is reading its items. -/
theorem parse_eq {text : String} (few : (Text.lines text.toList).length < UInt32.size) :
    parse text names options =
      (items text).foldlM (readItem names options) .start >>= finish options := by
  rw [parse, readLines_eq_readAll (by omega), readAll_eq]
  rfl

theorem few_of_readLines {number : Nat} {lines : List (List Char)} {s' : State}
    (start : number ≤ UInt32.size) (read : readLines names options number s lines = .ok s') :
    number + lines.length ≤ UInt32.size := by
  induction lines generalizing number s with
  | nil => exact start
  | cons line lines ih =>
      obtain ⟨fits, read⟩ := Chain.unless_throw_eq_ok_iff.1 read
      obtain ⟨s₁, -, read⟩ := Chain.exists_of_bind_eq_ok read
      have rest := ih (by omega) read
      rw [List.length_cons]
      omega

/-- The lines of a dump that was read can be numbered. -/
theorem few_of_parse {text : String} {c : Chain} (read : parse text names options = .ok c) :
    (Text.lines text.toList).length < UInt32.size := by
  obtain ⟨s', lines, -⟩ := Chain.exists_of_bind_eq_ok read
  have few := few_of_readLines (by decide) lines
  omega

end

end TokenStream.Dump
