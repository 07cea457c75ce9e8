import TokenStream.Text.Cells

/-!
Space-separated words. Only the space character separates; every other blank is part of a word.
Positions are counted in bytes of the UTF-8 form.
-/
namespace TokenStream.Text

/-- The text up to its first space. -/
def firstWord (s : List Char) : List Char :=
  s.takeWhile (· != ' ')

/-- Whether `word` opens the text and a space or the end comes right after it. -/
def opensWithWord (s word : List Char) : Bool :=
  word.isPrefixOf s && ((s.drop word.length).head?.all (· == ' '))

/-- Where `c` first stands in the first word. -/
def byteIndexInFirstWord (s : List Char) (c : Char) : Option Nat :=
  if (firstWord s).contains c then
    some (byteLength ((firstWord s).takeWhile (· != c)))
  else none

/-- The rest of the text from the start of each word on, first word first. -/
def tailsFrom : Bool → List Char → List (List Char)
  | _, [] => []
  | inWord, c :: rest =>
    if c = ' ' then tailsFrom false rest
    else if inWord then tailsFrom true rest
    else (c :: rest) :: tailsFrom true rest

/-- `tailsFrom` at the start of a text. -/
def wordTails (s : List Char) : List (List Char) :=
  tailsFrom false s

theorem space_not_mem_firstWord (s : List Char) : ' ' ∉ firstWord s := by
  intro h
  have := List.all_takeWhile (p := (· != ' ')) (l := s)
  rw [List.all_eq_true] at this
  simpa using this _ h

theorem firstWord_cons_of_ne {c : Char} (h : c ≠ ' ') (s : List Char) :
    firstWord (c :: s) = c :: firstWord s := by
  simp [firstWord, h]

section
variable {w : List Char} (space : ' ' ∉ w) (rest : List Char)
include space

theorem firstWord_append : firstWord (w ++ ' ' :: rest) = w := by
  have inside : ∀ c ∈ w, (c != ' ') = true := by
    intro c mem
    rw [bne_iff_ne]
    rintro rfl
    exact space mem
  rw [firstWord, List.takeWhile_append_of_pos inside, List.takeWhile_cons_of_neg (by decide),
    List.append_nil]

theorem tailsFrom_true_append : tailsFrom true (w ++ ' ' :: rest) = wordTails rest := by
  induction w with
  | nil => rfl
  | cons c w ih =>
    rw [List.mem_cons, not_or] at space
    rw [List.cons_append, tailsFrom, if_neg (Ne.symm space.1), if_pos rfl, ih space.2]

/-- A word in front of the others starts one more tail. -/
theorem wordTails_append (nonempty : w ≠ []) :
    wordTails (w ++ ' ' :: rest) = (w ++ ' ' :: rest) :: wordTails rest := by
  obtain ⟨c, w, rfl⟩ := List.exists_cons_of_ne_nil nonempty
  rw [List.mem_cons, not_or] at space
  rw [wordTails, List.cons_append, tailsFrom, if_neg (Ne.symm space.1), if_neg (by decide),
    tailsFrom_true_append space.2]

end

/-- The first words of the tails are the cells between spaces, less the empty ones and less the one
that a walk which starts inside a word is in. -/
theorem map_firstWord_tailsFrom (s : List Char) :
    (tailsFrom false s).map firstWord = (cells (· == ' ') s).filter (!·.isEmpty) ∧
      (tailsFrom true s).map firstWord = (cells (· == ' ') s).tail.filter (!·.isEmpty) ∧
      (cells (· == ' ') s).head? = some (firstWord s) := by
  induction s with
  | nil => exact ⟨rfl, rfl, rfl⟩
  | cons c s ih =>
    obtain ⟨outside, inside, first⟩ := ih
    obtain ⟨cell, rest, hs⟩ := List.exists_cons_of_ne_nil (cells_ne_nil (· == ' ') s)
    rw [hs] at outside inside first
    rw [cells_cons, hs]
    by_cases h : c = ' '
    · subst h
      refine ⟨?_, ?_, rfl⟩
      · rw [tailsFrom, if_pos rfl, outside]
        rfl
      · rw [tailsFrom, if_pos rfl, outside]
        rfl
    · obtain rfl : cell = firstWord s := by simpa using first
      have hc : ¬ (c == ' ') = true := by simpa using h
      rw [if_neg hc, List.modifyHead_cons, firstWord_cons_of_ne h]
      refine ⟨?_, ?_, rfl⟩
      · simp only [tailsFrom, if_neg h, Bool.false_eq_true, if_false, List.map_cons, inside,
          firstWord_cons_of_ne h]
        rfl
      · simp only [tailsFrom, if_neg h, if_true, inside]
        rfl

/-- Every word between spaces starts one tail, and nothing else does. -/
theorem map_firstWord_wordTails (s : List Char) :
    (wordTails s).map firstWord = (cells (· == ' ') s).filter (!·.isEmpty) :=
  (map_firstWord_tailsFrom s).1

end TokenStream.Text
