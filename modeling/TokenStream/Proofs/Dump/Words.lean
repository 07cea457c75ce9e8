import TokenStream.Proofs.Dump.Scan
/-!
Tokens and files as words of a dump. A token is written with the identity of its variable after an
at sign, a file by its name or its number; each of them reads back as what was written, unless the
text of a token looks like a marked one or the name of a file like another's.
-/
namespace TokenStream.Dump

open Text (IsWord)

/-- A token whose text a dump can carry: it has no blank, and does not look like a text with the
identity of a variable after it if none is written. -/
structure Writable (t : Token) : Prop where
  word : IsWord t.text.toList
  unmarked : t.varId = 0 → ∀ before digits, t.text.toList = before ++ '@' :: digits →
    before ≠ [] → Text.isDigits digits = false

/-- A file that its label names: the first place of its name in the table, or else a number that is
no name. -/
def Named (names : Names) (file : UInt32) : Prop :=
  match names with
  | none => True
  | some table =>
    match table[file.toNat]? with
    | some name => IsWord name.toList ∧ ∀ i < file.toNat, table[i]? ≠ some name
    | none => toString file ∉ table

/-! ### Tokens as words -/

/-- A token with the identity of its variable. -/
def wordOf (t : Token) : List Char :=
  t.text.toList ++ if t.varId = 0 then [] else '@' :: (toString t.varId).toList

theorem cutVarId?_eq_some_iff {w before digits : List Char} :
    cutVarId? w = some (before, digits) ↔
      w = before ++ '@' :: digits ∧ before ≠ [] ∧ Text.isDigits digits = true := by
  constructor
  · intro cut
    unfold cutVarId? at cut
    have parts := List.takeWhile_append_dropWhile (p := Char.isDigit) (l := w.reverse)
    have all := List.all_takeWhile (p := Char.isDigit) (l := w.reverse)
    dsimp only at cut
    split at cut
    next c rest shape =>
      split at cut
      · cases cut
      next some_digit =>
        cases cut
        rw [shape] at parts
        have reversed := congrArg List.reverse parts
        rw [List.reverse_append, List.reverse_reverse] at reversed
        refine ⟨reversed.symm.trans ?_, by simp, ?_⟩
        · rw [List.reverse_cons, List.append_assoc]
          rfl
        · refine Text.isDigits_iff.2 ⟨by simpa using some_digit, ?_⟩
          intro d mem
          exact List.all_eq_true.1 all d (List.mem_reverse.1 mem)
    · cases cut
  · rintro ⟨rfl, nonempty, number⟩
    obtain ⟨some_digit, all⟩ := Text.isDigits_iff.1 number
    have digits_reverse : ∀ d ∈ digits.reverse, d.isDigit = true := by
      intro d mem
      exact all d (List.mem_reverse.1 mem)
    obtain ⟨c, rest, shape⟩ :=
      List.exists_cons_of_ne_nil (mt List.reverse_eq_nil_iff.1 nonempty)
    have taken : (digits.reverse ++ '@' :: c :: rest).takeWhile Char.isDigit = digits.reverse := by
      rw [List.takeWhile_append_of_pos digits_reverse]
      simp
    have dropped : (digits.reverse ++ '@' :: c :: rest).dropWhile Char.isDigit =
        '@' :: c :: rest := by
      rw [List.dropWhile_append_of_pos digits_reverse]
      rfl
    have whole : (before ++ '@' :: digits).reverse = digits.reverse ++ '@' :: c :: rest := by
      rw [List.reverse_append, List.reverse_cons, List.append_assoc, shape]
      rfl
    simp only [cutVarId?, whole, taken, dropped, List.reverse_reverse]
    rw [if_neg (by simpa using some_digit), ← shape, List.reverse_reverse]

theorem isWord_wordOf {t : Token} (writable : Writable t) : IsWord (wordOf t) := by
  obtain ⟨nonempty, solid⟩ := writable.word
  refine ⟨by simp [wordOf, nonempty], ?_⟩
  intro c mem
  rcases List.mem_append.1 mem with mem | mem
  · exact solid c mem
  · split at mem
    · cases mem
    · rcases List.mem_cons.1 mem with rfl | mem
      · decide
      · exact (Text.isWord_toString t.varId).solid c mem

theorem readToken_wordOf {t : Token} (writable : Writable t) (number : Nat) :
    readToken number (wordOf t) = .ok (t.text, t.varId) := by
  unfold readToken wordOf
  by_cases unnamed : t.varId = 0
  · rw [if_pos unnamed, List.append_nil]
    have whole : cutVarId? t.text.toList = none := by
      cases cut : cutVarId? t.text.toList with
      | none => rfl
      | some parts =>
          obtain ⟨shape, nonempty, digits⟩ := cutVarId?_eq_some_iff.1 cut
          have none_marked := writable.unmarked unnamed _ _ shape nonempty
          rw [digits] at none_marked
          cases none_marked
    rw [whole, unnamed]
    simp only [String.ofList_toList]
  · have cut := cutVarId?_eq_some_iff.2
      ⟨rfl, writable.word.nonempty, Text.isDigits_toString t.varId⟩
    rw [if_neg unnamed, cut]
    simp only [Text.readDigits32?_toString, String.ofList_toList]

theorem toList_writeText (text : String) (t : Token) :
    (writeText text true t).toList = text.toList ++ ' ' :: wordOf t := by
  unfold writeText wordOf
  by_cases unnamed : t.varId = 0
  · have plain : (true && t.varId != 0) = false := by simp [unnamed]
    rw [plain, if_pos unnamed, List.append_nil]
    simp only [Bool.false_eq_true, if_false, String.toList_append, List.append_assoc]
    rfl
  · have marked : (true && t.varId != 0) = true := by simp [unnamed]
    rw [marked, if_neg unnamed]
    simp only [if_true, String.toList_append, List.append_assoc, toString]
    rfl

/-! ### Files -/

theorem readWord32?_toString (n : UInt32) : Text.readWord32? (toString n).toList = some n := by
  unfold Text.readWord32?
  split
  next rest plus =>
    have digits := (Text.isDigits_iff.1 (Text.isDigits_toString n)).2
    rw [plus] at digits
    exact absurd (digits '+' List.mem_cons_self) (by decide)
  · exact Text.readDigits32?_toString n

theorem readFile_label {names : Names} {file : UInt32} (named : Named names file) :
    IsWord (fileLabel names file).toList ∧
      ∀ number, readFile names number (fileLabel names file).toList = .ok file := by
  unfold Named at named
  cases names with
  | none =>
      have label : fileLabel none file = toString file := rfl
      rw [label]
      refine ⟨Text.isWord_toString file, fun number => ?_⟩
      simp only [readFile, Option.bind_none, readWord32?_toString]
  | some table =>
      simp only at named
      cases found : table[file.toNat]? with
      | none =>
          rw [found] at named
          have label : fileLabel (some table) file = toString file := by
            simp only [fileLabel, Option.bind_some, found]
          have absent : table.findIdx? (· == toString file) = none := by
            refine List.findIdx?_eq_none_iff.2 fun name mem => ?_
            refine Bool.eq_false_iff.2 fun same => ?_
            exact named (beq_iff_eq.1 same ▸ mem)
          rw [label]
          refine ⟨Text.isWord_toString file, fun number => ?_⟩
          simp only [readFile, Option.bind_some, String.ofList_toList, absent,
            readWord32?_toString]
      | some name =>
          rw [found] at named
          obtain ⟨word, first⟩ := named
          have label : fileLabel (some table) file = name := by
            simp only [fileLabel, Option.bind_some, found]
          have index : table.findIdx? (· == name) = some file.toNat := by
            obtain ⟨bound, here⟩ := List.getElem?_eq_some_iff.1 found
            refine List.findIdx?_eq_some_iff_getElem.2 ⟨bound, by simp [here], ?_⟩
            intro i earlier same
            refine first i earlier ?_
            rw [List.getElem?_eq_getElem (Nat.lt_trans earlier bound)]
            exact congrArg some (beq_iff_eq.1 same)
          rw [label]
          refine ⟨word, fun number => ?_⟩
          simp only [readFile, Option.bind_some, String.ofList_toList, index,
            UInt32.ofNat_toNat]

end TokenStream.Dump
