/-! Whole numbers in decimal digits, read into 32 bits. A number that is written out reads back. -/
namespace TokenStream.Text

/-- Whether the text is one or more decimal digits and nothing else. -/
def isDigits (s : List Char) : Bool :=
  !s.isEmpty && s.all Char.isDigit

/-- The number as a 32-bit word, if it fits in one. -/
def word32? (n : Nat) : Option UInt32 :=
  if n < UInt32.size then some (UInt32.ofNat n) else none

/-- Reads digits, of which leading zeros do not matter. Anything else, and a number that needs more
than 32 bits, is refused; no such number has more than ten digits. -/
def readDigits32? (s : List Char) : Option UInt32 :=
  let significant := s.dropWhile (· == '0')
  if isDigits s && significant.length ≤ 10 then word32? (Nat.ofDigitChars 10 significant 0)
  else none

/-- Reads digits with or without one plus sign before them. -/
def readWord32? : List Char → Option UInt32
  | '+' :: rest => readDigits32? rest
  | s => readDigits32? s

theorem isDigits_iff {s : List Char} :
    isDigits s = true ↔ s ≠ [] ∧ ∀ c ∈ s, c.isDigit = true := by
  simp [isDigits]

theorem word32?_toNat (n : UInt32) : word32? n.toNat = some n := by
  rw [word32?, if_pos n.toNat_lt, UInt32.ofNat_toNat]

theorem ofDigitChars_dropWhile_zero (s : List Char) :
    Nat.ofDigitChars 10 (s.dropWhile (· == '0')) 0 = Nat.ofDigitChars 10 s 0 := by
  induction s with
  | nil => rfl
  | cons c s ih =>
    rw [List.dropWhile_cons]
    split
    next h =>
      rw [ih, beq_iff_eq.1 h, Nat.ofDigitChars_cons]
      rfl
    · rfl

/-- Digits of which the first is not zero write a number of that many digits. -/
theorem pow_le_ofDigitChars {c : Char} {s : List Char} (digit : c.isDigit = true) (ne : c ≠ '0') :
    Nat.pow 10 s.length ≤ Nat.ofDigitChars 10 (c :: s) 0 := by
  have positive : 1 ≤ c.toNat - '0'.toNat := by
    have least : '0'.toNat ≤ c.toNat := by
      rw [Char.isDigit, Bool.and_eq_true, decide_eq_true_eq] at digit
      exact UInt32.le_iff_toNat_le.1 digit.1
    have differs : c.toNat ≠ '0'.toNat := fun same => ne (Char.toNat_inj.1 same)
    omega
  rw [Nat.ofDigitChars_cons, Nat.ofDigitChars_eq_ofDigitChars_zero]
  exact Nat.le_trans (Nat.le_mul_of_pos_right _ (by omega)) (Nat.le_add_right _ _)

/-- How many digits there are does not matter beyond what their number says. -/
theorem readDigits32?_eq (s : List Char) :
    readDigits32? s = if isDigits s then word32? (Nat.ofDigitChars 10 s 0) else none := by
  rw [readDigits32?, ofDigitChars_dropWhile_zero]
  by_cases digits : isDigits s = true
  · by_cases short : (s.dropWhile (· == '0')).length ≤ 10
    · simp [digits, short]
    · rw [if_pos digits, if_neg (by simp [short])]
      cases rest : s.dropWhile (· == '0') with
      | nil => exact absurd (by rw [rest]; exact Nat.zero_le _) short
      | cons c t =>
        have member : c ∈ s :=
          (List.dropWhile_suffix _).subset (rest ▸ List.mem_cons_self ..)
        have nonzero : c ≠ '0' := by
          have := List.head_dropWhile_not (· == '0') (w := rest ▸ List.cons_ne_nil c t)
          simpa [rest] using this
        have bound := pow_le_ofDigitChars (s := t) ((isDigits_iff.1 digits).2 c member) nonzero
        have long : 10 ≤ t.length := by
          rw [rest, List.length_cons] at short
          omega
        have large : 10 ^ 10 ≤ Nat.ofDigitChars 10 s 0 := by
          rw [← ofDigitChars_dropWhile_zero, rest]
          exact Nat.le_trans (Nat.pow_le_pow_right (by decide) long) bound
        rw [word32?, if_neg]
        have size : UInt32.size < 10 ^ 10 := by decide
        omega
  · simp [digits]

theorem toList_toString (n : UInt32) : (toString n).toList = Nat.toDigits 10 n.toNat := by
  show n.toNat.repr.toList = _
  rw [Nat.repr_eq_ofList_toDigits, String.toList_ofList]

theorem isDigits_toString (n : UInt32) : isDigits (toString n).toList = true := by
  rw [toList_toString, isDigits_iff]
  exact ⟨Nat.toDigits_ne_nil,
    fun c h => Nat.isDigit_of_mem_toDigits (by decide) (by decide) h⟩

theorem readDigits32?_toString (n : UInt32) : readDigits32? (toString n).toList = some n := by
  rw [readDigits32?_eq, if_pos (isDigits_toString n), toList_toString,
    Nat.ofDigitChars_toDigits (by decide) (by decide), word32?_toNat]

end TokenStream.Text
