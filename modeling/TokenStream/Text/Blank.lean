import TokenStream.Text.Cells

/-! Blank characters, those with the Unicode property White_Space, and the words between them. -/
namespace TokenStream.Text

/-- The characters with the property White_Space, as first and last of each range. -/
def blankRanges : List (Nat × Nat) :=
  [(0x09, 0x0d), (0x20, 0x20), (0x85, 0x85), (0xa0, 0xa0), (0x1680, 0x1680), (0x2000, 0x200a),
   (0x2028, 0x2029), (0x202f, 0x202f), (0x205f, 0x205f), (0x3000, 0x3000)]

def isBlank (c : Char) : Bool :=
  blankRanges.any fun r => r.1 ≤ c.toNat && c.toNat ≤ r.2

/-- The maximal stretches without a blank, in order. -/
def blankWords (s : List Char) : List (List Char) :=
  (cells isBlank s).filter fun w => !w.isEmpty

theorem mem_blankWords {s w : List Char} (h : w ∈ blankWords s) :
    w ≠ [] ∧ ∀ c ∈ w, isBlank c = false := by
  obtain ⟨mem, nonempty⟩ := List.mem_filter.1 h
  exact ⟨by simpa using nonempty, isSep_eq_false_of_mem_cells mem⟩

end TokenStream.Text
