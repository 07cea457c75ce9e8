/-!
Cutting text at separators. `n` separators give `n + 1` cells, some of them perhaps empty, and the
cells with the separators between them are the text again.
-/
namespace TokenStream.Text

/-- The stretches of text between the characters that satisfy `isSep`. -/
def cells (isSep : Char → Bool) (s : List Char) : List (List Char) :=
  s.foldr (fun c acc =>
    if isSep c then [] :: acc
    else match acc with
      | [] => [[c]]
      | cell :: rest => (c :: cell) :: rest) [[]]

theorem cells_ne_nil (isSep : Char → Bool) (s : List Char) : cells isSep s ≠ [] := by
  cases s with
  | nil => simp [cells]
  | cons c s =>
    rw [cells, List.foldr_cons]
    split
    · simp
    · split <;> simp

theorem cells_cons (isSep : Char → Bool) (c : Char) (s : List Char) :
    cells isSep (c :: s) =
      if isSep c then [] :: cells isSep s
      else (cells isSep s).modifyHead (c :: ·) := by
  have nonempty := cells_ne_nil isSep s
  unfold cells at nonempty ⊢
  rw [List.foldr_cons]
  split
  · rfl
  · split
    next h => exact absurd h nonempty
    next h => rw [h, List.modifyHead_cons]

theorem cells_of_no_sep {isSep : Char → Bool} {s : List Char}
    (plain : ∀ c ∈ s, isSep c = false) : cells isSep s = [s] := by
  induction s with
  | nil => rfl
  | cons c s ih =>
    have first : isSep c = false := plain c List.mem_cons_self
    have rest := ih fun d mem => plain d (List.mem_cons_of_mem c mem)
    rw [cells_cons, first, rest]
    rfl

theorem cells_append_sep {isSep : Char → Bool} {c : Char} (sep : isSep c = true)
    (s t : List Char) : cells isSep (s ++ c :: t) = cells isSep s ++ cells isSep t := by
  induction s with
  | nil =>
    rw [List.nil_append, cells_cons, if_pos sep]
    rfl
  | cons d s ih =>
    rw [List.cons_append, cells_cons, cells_cons, ih]
    obtain ⟨first, rest, cut⟩ := List.exists_cons_of_ne_nil (cells_ne_nil isSep s)
    rw [cut]
    split
    · rfl
    · rfl

theorem length_cells (isSep : Char → Bool) (s : List Char) :
    (cells isSep s).length = s.countP isSep + 1 := by
  induction s with
  | nil => rfl
  | cons c s ih =>
    rw [cells_cons, List.countP_cons]
    split
    · rw [List.length_cons, ih]
    · rw [List.length_modifyHead, ih, Nat.add_zero]

theorem isSep_eq_false_of_mem_cells {isSep : Char → Bool} {s cell : List Char}
    (h : cell ∈ cells isSep s) : ∀ c ∈ cell, isSep c = false := by
  induction s generalizing cell with
  | nil =>
    obtain rfl : cell = [] := by simpa [cells] using h
    simp
  | cons c s ih =>
    rw [cells_cons] at h
    split at h
    · rcases List.mem_cons.1 h with rfl | h
      · simp
      · exact ih h
    next hc =>
      obtain ⟨first, rest, hs⟩ := List.exists_cons_of_ne_nil (cells_ne_nil isSep s)
      rw [hs, List.modifyHead_cons] at h
      rw [hs] at ih
      rcases List.mem_cons.1 h with rfl | h
      · intro x hx
        rcases List.mem_cons.1 hx with rfl | hx
        · exact Bool.eq_false_iff.2 hc
        · exact ih (List.mem_cons_self ..) x hx
      · exact ih (List.mem_cons_of_mem _ h)

/-- Cells without the separator, written out with it between them, are found again. -/
theorem cells_intercalate {sep : Char} {parts : List (List Char)} (nonempty : parts ≠ [])
    (plain : ∀ part ∈ parts, sep ∉ part) : cells (· == sep) ([sep].intercalate parts) = parts := by
  have clear {part : List Char} (free : sep ∉ part) : ∀ c ∈ part, (c == sep) = false := by
    intro c mem
    exact beq_eq_false_iff_ne.2 (ne_of_mem_of_not_mem mem free)
  induction parts with
  | nil => exact absurd rfl nonempty
  | cons part rest ih =>
    have first : ∀ c ∈ part, (c == sep) = false := clear (plain part List.mem_cons_self)
    cases rest with
    | nil => rw [List.intercalate_singleton, cells_of_no_sep first]
    | cons next rest =>
      have others := ih (List.cons_ne_nil _ _) fun p mem => plain p (List.mem_cons_of_mem _ mem)
      have cut := @cells_append_sep (· == sep) sep (beq_self_eq_true sep) part
        ([sep].intercalate (next :: rest))
      rw [List.intercalate_cons_cons, List.append_assoc, List.singleton_append, cut,
        cells_of_no_sep first, others]
      rfl

/-- The lines of a text; a last line that is empty does not count. -/
def lines (s : List Char) : List (List Char) :=
  match (cells (· == '\n') s).reverse with
  | [] :: rest => rest.reverse
  | all => all.reverse

/-- Length in bytes of the UTF-8 form. -/
def byteLength (s : List Char) : Nat :=
  s.foldl (fun n c => n + c.utf8Size) 0

end TokenStream.Text
