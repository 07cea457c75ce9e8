import TokenStream.Dump.Place
/-!
Sections of a dump. A header opens a section of a file, which lasts up to the next header, and a
file may have any number of them. A place keeps for every file the line that its sections have come
to.
-/
namespace TokenStream.Dump

/-! ### Places -/

/-- The line that a place has for a file. -/
def Place.lineIn (p : Place) (file : UInt32) : UInt32 :=
  if p.file = some file then p.line else (p.remembered.lookup file).getD 0

theorem lookup_filter_ne {file g : UInt32} (other : g ≠ file) (l : List (UInt32 × UInt32)) :
    (l.filter fun entry => entry.1 != file).lookup g = l.lookup g := by
  induction l with
  | nil => rfl
  | cons entry l ih =>
      obtain ⟨k, line⟩ := entry
      by_cases dropped : k = file
      · subst dropped
        have skip : (g == k) = false := by simpa using other
        rw [List.filter_cons_of_neg (by simp), ih, List.lookup_cons, skip]
      · rw [List.filter_cons_of_pos (by simpa using dropped), List.lookup_cons, List.lookup_cons,
          ih]

theorem lookup_remember (file g line : UInt32) (l : List (UInt32 × UInt32)) :
    (Place.remember file line l).lookup g = if g = file then some line else l.lookup g := by
  rw [Place.remember, List.lookup_cons]
  split
  next same => rw [if_pos (by simpa using same)]
  next other =>
    have ne : g ≠ file := by simpa using other
    rw [if_neg ne, lookup_filter_ne ne]

/-- Opening a section changes no line of any file. -/
theorem Place.lineIn_enter (p : Place) (file g : UInt32) :
    (p.enter file).lineIn g = p.lineIn g := by
  obtain ⟨current, line, remembered⟩ := p
  cases current with
  | none =>
      by_cases same : g = file
      · subst same
        simp [enter, lineIn]
      · simp [enter, lineIn, Ne.symm same]
  | some current =>
      by_cases same : g = file
      · subst same
        by_cases left : g = current
        · simp [enter, lineIn, lookup_remember, left]
        · simp [enter, lineIn, lookup_remember, left, Ne.symm left]
      · by_cases left : g = current
        · simp [enter, lineIn, lookup_remember, left, Ne.symm (left ▸ same)]
        · simp [enter, lineIn, lookup_remember, left, Ne.symm same, Ne.symm left]

/-- A marker changes the line of the file whose section is open, if there is one. -/
theorem Place.lineIn_atLine (p : Place) (line g : UInt32) :
    (p.atLine line).lineIn g = if p.file = some g then line else p.lineIn g := by
  by_cases here : p.file = some g
  · simp [atLine, lineIn, here]
  · simp [atLine, lineIn, here]

/-- The place at which a token is written, apart from its line. -/
def Place.toward (p : Place) (file : UInt32) : Place :=
  if p.file != some file then p.enter file else p

theorem Place.file_toward (p : Place) (file : UInt32) : (p.toward file).file = some file := by
  unfold toward
  split
  next => rfl
  next same => simpa using same

theorem Place.lineIn_toward (p : Place) (file g : UInt32) :
    (p.toward file).lineIn g = p.lineIn g := by
  unfold toward
  split
  next => exact lineIn_enter p file g
  next => rfl

theorem Place.line_toward (p : Place) (file : UInt32) :
    (p.toward file).line = p.lineIn file := by
  rw [← lineIn_toward p file file, lineIn, if_pos (p.file_toward file)]

/-! ### Sections -/

/-- What a dump says, one thing at a time: the header of a section, the marker of a line, or a token
in some form. -/
inductive Piece (α : Type)
  | header (file : UInt32)
  | marker (line : Nat)
  | token (a : α)

section
variable {α : Type}

/-- The file whose section is open after the pieces, if it is the given one before them. Nothing is
open before the first header. -/
def fileAfter : Option UInt32 → List (Piece α) → Option UInt32
  | file, [] => file
  | _, .header file :: rest => fileAfter (some file) rest
  | file, .marker _ :: rest => fileAfter file rest
  | file, .token _ :: rest => fileAfter file rest

/-- The lines that are marked in the sections of the files asked for. -/
def linesIn (asked : Option UInt32 → Bool) : Option UInt32 → List (Piece α) → List Nat
  | _, [] => []
  | _, .header file :: rest => linesIn asked (some file) rest
  | file, .marker line :: rest =>
    if asked file then line :: linesIn asked file rest else linesIn asked file rest
  | file, .token _ :: rest => linesIn asked file rest

theorem fileAfter_append (file : Option UInt32) (before after : List (Piece α)) :
    fileAfter file (before ++ after) = fileAfter (fileAfter file before) after := by
  induction before generalizing file with
  | nil => rfl
  | cons piece before ih => cases piece <;> exact ih _

theorem linesIn_append (asked : Option UInt32 → Bool) (file : Option UInt32)
    (before after : List (Piece α)) :
    linesIn asked file (before ++ after) =
      linesIn asked file before ++ linesIn asked (fileAfter file before) after := by
  induction before generalizing file with
  | nil => rfl
  | cons piece before ih =>
      cases piece with
      | header => exact ih _
      | marker line =>
          rw [List.cons_append, linesIn, linesIn, fileAfter, ih]
          split <;> rfl
      | token => exact ih _

theorem fileAfter_markers (file : Option UInt32) (lines : List Nat) :
    fileAfter file (lines.map (Piece.marker (α := α))) = file := by
  induction lines with
  | nil => rfl
  | cons line lines ih => exact ih

theorem linesIn_markers (asked : Option UInt32 → Bool) (file : Option UInt32) (lines : List Nat) :
    linesIn asked file (lines.map (Piece.marker (α := α))) = if asked file then lines else [] := by
  induction lines with
  | nil => simp [linesIn]
  | cons line lines ih =>
      rw [List.map_cons, linesIn, ih]
      split <;> rfl

theorem exists_fileAfter (file : UInt32) (pieces : List (Piece α)) :
    ∃ f, fileAfter (some file) pieces = some f := by
  induction pieces generalizing file with
  | nil => exact ⟨file, rfl⟩
  | cons piece pieces ih => cases piece <;> exact ih _

theorem linesIn_eq_nil {asked : Option UInt32 → Bool} (never : ∀ f, asked (some f) = false)
    (file : UInt32) (pieces : List (Piece α)) : linesIn asked (some file) pieces = [] := by
  induction pieces generalizing file with
  | nil => rfl
  | cons piece pieces ih =>
      cases piece with
      | header => exact ih _
      | marker line =>
          rw [linesIn, never]
          exact ih file
      | token => exact ih _

/-- Behind a header, what is asked of the text before the first one does not matter. -/
theorem linesIn_congr {asked asked' : Option UInt32 → Bool}
    (same : ∀ f, asked (some f) = asked' (some f)) (file : UInt32) (pieces : List (Piece α)) :
    linesIn asked (some file) pieces = linesIn asked' (some file) pieces := by
  induction pieces generalizing file with
  | nil => rfl
  | cons piece pieces ih =>
      cases piece with
      | header => exact ih _
      | marker line => rw [linesIn, linesIn, same, ih]
      | token => exact ih _

end

end TokenStream.Dump
