import TokenStream.Proofs.Pattern.Reference
/-!
Sets in patterns. Between the brackets of a set any characters may stand but spaces: further
brackets, bars, percent signs and characters of several bytes, or none at all. For a token of one
byte such a word asks one thing, whether that byte is among those between the brackets. The bytes of
a longer character all have their high bit set, so none of them is taken for a member.
-/
namespace TokenStream

namespace Pattern

open Text (firstWord wordTails)

/-! ### Bytes -/

theorem data_toUTF8 (s : String) :
    s.toUTF8.data.toList = s.toList.flatMap String.utf8EncodeChar := by
  rw [String.toUTF8_eq_toByteArray, ← String.utf8Encode_toList, List.utf8Encode,
    List.toList_data_toByteArray]

theorem high_of_mem_utf8EncodeChar {c : Char} (wide : c.utf8Size ≠ 1) {x : UInt8}
    (mem : x ∈ String.utf8EncodeChar c) : 127 < x.toNat := by
  have large : ¬ c.val.toNat ≤ 127 := fun small =>
    wide (Char.utf8Size_eq_one_iff.2 (UInt32.le_iff_toNat_le.2 small))
  rw [String.utf8EncodeChar, if_neg large] at mem
  split at mem
  · simp only [List.mem_cons, List.not_mem_nil, or_false] at mem
    rcases mem with rfl | rfl <;> rw [UInt8.toNat_ofNat'] <;> omega
  · split at mem
    · simp only [List.mem_cons, List.not_mem_nil, or_false] at mem
      rcases mem with rfl | rfl | rfl <;> rw [UInt8.toNat_ofNat'] <;> omega
    · simp only [List.mem_cons, List.not_mem_nil, or_false] at mem
      rcases mem with rfl | rfl | rfl | rfl <;> rw [UInt8.toNat_ofNat'] <;> omega

/-- The byte of a character of one byte is in the form of no other character. -/
theorem mem_utf8EncodeChar_iff {a c : Char} (single : a.utf8Size = 1) :
    a.val.toUInt8 ∈ String.utf8EncodeChar c ↔ c = a := by
  have low {d : Char} (single : d.utf8Size = 1) : d.val.toNat ≤ 127 :=
    UInt32.le_iff_toNat_le.1 (Char.utf8Size_eq_one_iff.1 single)
  have byte {d : Char} (single : d.utf8Size = 1) : d.val.toUInt8.toNat = d.val.toNat := by
    rw [UInt32.toNat_toUInt8]
    have := low single
    omega
  by_cases narrow : c.utf8Size = 1
  · rw [String.utf8EncodeChar_eq_singleton narrow, List.mem_singleton, ← UInt8.toNat_inj,
      byte single, byte narrow, UInt32.toNat_inj, ← Char.ext_iff, eq_comm]
  · constructor
    · intro mem
      have high := high_of_mem_utf8EncodeChar narrow mem
      rw [byte single] at high
      exact absurd (low single) (Nat.not_le.2 high)
    · rintro rfl
      exact absurd single narrow

theorem length_flatMap_utf8EncodeChar (s : List Char) :
    (s.flatMap String.utf8EncodeChar).length = Text.byteLength s := by
  induction s with
  | nil => rfl
  | cons c s ih =>
      rw [List.flatMap_cons, List.length_append, String.length_utf8EncodeChar, byteLength_cons, ih]

/-- A text of one byte is one character, and the byte stands in a text where the character does. -/
theorem exists_of_data_toUTF8 {s : String} {b : UInt8} (single : s.toUTF8.data = #[b]) :
    ∃ a, s.toList = [a] ∧ a.utf8Size = 1 ∧ ∀ t : String, b ∈ t.toUTF8.data ↔ a ∈ t.toList := by
  have bytes : s.toList.flatMap String.utf8EncodeChar = [b] := by
    rw [← data_toUTF8, single]
  have size : Text.byteLength s.toList = 1 := by
    rw [← length_flatMap_utf8EncodeChar, bytes]
    rfl
  obtain ⟨a, text⟩ := length_eq_one_of_byteLength size
  have narrow : a.utf8Size = 1 := by
    rw [text, byteLength_cons] at size
    exact size
  rw [text, List.flatMap_singleton, String.utf8EncodeChar_eq_singleton narrow,
    List.singleton_inj] at bytes
  refine ⟨a, text, narrow, fun t => ?_⟩
  rw [← bytes, ← Array.mem_toList_iff, data_toUTF8, List.mem_flatMap]
  simp only [mem_utf8EncodeChar_iff narrow, exists_eq_right]

/-! ### One set, one token -/

theorem setLists_brackets (set : List Char) (a : Char) :
    setLists ('[' :: set ++ [']']) a = set.contains a := by
  have perm : (set ++ [']']).Perm (']' :: set) := List.perm_append_singleton ']' set
  have same := (perm.erase ']').mem_iff (a := a)
  rw [List.erase_cons_head] at same
  rw [setLists_eq, Bool.eq_iff_iff, List.contains_iff_mem, List.contains_iff_mem]
  exact same

section
variable {set tail : List Char} (word : firstWord tail = '[' :: set ++ [']'])
include word

theorem negated_set : negated tail = false := by
  have more : tail ≠ ['!', '!'] := by
    rintro rfl
    cases word
  rw [negated_eq_isNegation more, word]
  rfl

/-- A word in brackets is taken for a set before it is asked for a bar, and one that opens with a
bracket is not asked for a percent sign. -/
theorem test_set (varId : UInt32) {t : Token} {a : Char} (text : t.text.toList = [a])
    (narrow : a.utf8Size = 1) : test varId t tail = .ofBool (set.contains a) := by
  have closes : (firstWord tail).head? = some '[' ∧ ']' ∈ firstWord tail ∧
      Text.byteLength t.text.toList = 1 := by
    rw [word, text, byteLength_cons, narrow]
    exact ⟨rfl, by simp, rfl⟩
  have one : set? (firstWord tail) t.text.toList = some a := by
    rw [set?_eq, if_pos closes, text]
    rfl
  have percent : ¬ (firstWord tail).head? = some '%' := by
    rw [closes.1]
    decide
  simp only [test, if_neg percent, one]
  rw [word, setLists_brackets]

end

theorem words_set {set : String} (space : ' ' ∉ set.toList) :
    words ("[" ++ set ++ "]") = ['[' :: set.toList ++ [']']] := by
  have chars : ("[" ++ set ++ "]").toList = '[' :: set.toList ++ [']'] := by simp
  have plain : ∀ c ∈ '[' :: set.toList ++ [']'], (c == ' ') = false := by
    intro c mem
    rw [beq_eq_false_iff_ne]
    rintro rfl
    simp [space] at mem
  rw [words, chars, Text.cells_of_no_sep plain]
  rfl

theorem exists_wordTails_set {set : String} (space : ' ' ∉ set.toList) :
    ∃ tail, wordTails ("[" ++ set ++ "]").toList = [tail] ∧
      firstWord tail = '[' :: set.toList ++ [']'] := by
  rw [← List.map_eq_singleton_iff, Text.map_firstWord_wordTails, ← words, words_set space]

end Pattern

namespace Chain

open Pattern

/-- A set matches a token of one byte exactly if the byte is one of those between the brackets, and
nothing is reported. -/
theorem matchesAt_set {c : Chain} {h : Handle} {t : Token} (found : c.token h = .ok t) {b : UInt8}
    (single : t.text.toUTF8.data = #[b]) {set : String} (space : ' ' ∉ set.toList)
    (varId : UInt32) :
    c.matchesAt (some h) ("[" ++ set ++ "]") varId =
      .ok { answer := decide (b ∈ set.toUTF8.data), reports := [] } := by
  obtain ⟨a, text, narrow, member⟩ := exists_of_data_toUTF8 single
  obtain ⟨n, here, same⟩ := exists_of_bind_eq_ok found
  obtain rfl : n.token = t := Except.ok.inj same
  have unasked : "%varid%".toList ∉ words ("[" ++ set ++ "]") := by
    rw [words_set space]
    simp
  obtain ⟨tail, alone, word⟩ := exists_wordTails_set space
  have answer : c.matchElements (some h) ("[" ++ set ++ "]") varId =
      .ok (set.toList.contains a) := by
    rw [matchElements, alone, matchTails, here, ok_bind, negated_set word, Bool.and_false,
      Bool.false_and, Bool.false_and, if_neg Bool.false_ne_true, test_set word varId text narrow]
    cases set.toList.contains a with
    | true => simp only [Verdict.ofBool, if_true, matchTails]
    | false => rfl
  have listed : set.toList.contains a = decide (b ∈ set.toUTF8.data) := by
    rw [Bool.eq_iff_iff, List.contains_iff_mem, decide_eq_true_iff, member]
  rw [matchesAt, guarded, misused_eq_false (.inr unasked), answer, listed]
  rfl

-- The `;` stands in one of the two sets, behind a closing bracket, a bar and a percent sign.
theorem semicolon_in_set : ∃ t, declaration.token ⟨2, 0⟩ = .ok t ∧
    t.text.toUTF8.data = #[0x3b] ∧ ' ' ∉ "ä]|%;[".toList ∧ ' ' ∉ "ä]|%[".toList ∧
    declaration.matchesAt (some ⟨2, 0⟩) ("[" ++ "ä]|%;[" ++ "]") 0 =
      .ok { answer := true, reports := [] } ∧
    declaration.matchesAt (some ⟨2, 0⟩) ("[" ++ "ä]|%[" ++ "]") 0 =
      .ok { answer := false, reports := [] } := by
  have found : declaration.token ⟨2, 0⟩ = .ok (.bare ";") := rfl
  have single : (";" : String).toUTF8.data = #[0x3b] := by decide
  have inside : 0x3b ∈ "ä]|%;[".toUTF8.data := Array.mem_toList_iff.1 (by decide)
  have outside : 0x3b ∉ "ä]|%[".toUTF8.data := Array.mem_toList_iff.not.1 (by decide)
  have spaced : ' ' ∉ "ä]|%;[".toList ∧ ' ' ∉ "ä]|%[".toList := by decide
  have hit := matchesAt_set found single spaced.1 0
  have miss := matchesAt_set found single spaced.2 0
  rw [decide_eq_true inside] at hit
  rw [decide_eq_false outside] at miss
  exact ⟨_, found, single, spaced.1, spaced.2, hit, miss⟩

end Chain

end TokenStream
