import TokenStream.Token
/-!
String literals joined to one. The values are joined, and their lengths add up wherever the first
value neither ends the count, by an escaped zero, nor ends in a backslash that takes the first
character of the second value for its own.
-/
namespace TokenStream.Token

/-- A literal has at least two bytes, and a double quote at both ends. -/
def Quoted (text : String) : Prop :=
  2 ≤ text.utf8ByteSize ∧ text.toList.head? = some '"' ∧ text.toList.getLast? = some '"'

/-- Characters of a value in which every backslash has behind it the character that it escapes. -/
inductive Finished : List Char → Prop
  | nil : Finished []
  | plain {c : Char} {rest : List Char} : c ≠ '\\' → Finished rest → Finished (c :: rest)
  | escape {c : Char} {rest : List Char} : Finished rest → Finished ('\\' :: c :: rest)

/-- An escaped zero is among the characters of a value. -/
def Terminated (value : List Char) : Prop :=
  ∃ before after, Finished before ∧ value = before ++ '\\' :: '0' :: after

/-- The last backslash of a value escapes nothing. -/
def Dangling (value : List Char) : Prop :=
  ∃ before, Finished before ∧ value = before ++ ['\\']

/-! ### Quotes -/

/-- The literal with this value. -/
def literal (value : String) : String :=
  "\"" ++ value ++ "\""

variable {text other value : String} {t u : Token} {v w : List Char} {c : Char}

theorem toList_literal (value : String) :
    (literal value).toList = '"' :: value.toList ++ ['"'] := by
  rw [literal, String.toList_append, String.toList_append]
  rfl

theorem eq_literal (chars : text.toList = '"' :: v ++ ['"']) :
    text = literal (String.ofList v) := by
  rw [← String.toList_inj, toList_literal, String.toList_ofList, chars]

theorem isQuoted_iff : isQuoted text = true ↔ ∃ value, text = literal value := by
  constructor
  · intro quoted
    unfold isQuoted at quoted
    split at quoted
    next rest chars =>
      obtain ⟨v, rfl⟩ := List.getLast?_eq_some_iff.1 (eq_of_beq quoted)
      exact ⟨_, eq_literal chars⟩
    · cases quoted
  · rintro ⟨value, rfl⟩
    rw [isQuoted, toList_literal]
    simp

theorem quoted_iff : Quoted text ↔ ∃ value, text = literal value := by
  constructor
  · rintro ⟨size, first, last⟩
    obtain ⟨rest, chars⟩ := List.head?_eq_some_iff.1 first
    rcases List.eq_nil_or_concat rest with rfl | ⟨v, c, rfl⟩
    · obtain rfl : text = "\"" := by rw [← String.toList_inj, chars]; rfl
      exact absurd size (by decide)
    · rw [List.concat_eq_append, ← List.cons_append] at chars
      rw [chars, List.getLast?_concat] at last
      obtain rfl : c = '"' := Option.some.inj last
      exact ⟨_, eq_literal chars⟩
  · rintro ⟨value, rfl⟩
    refine ⟨?_, ?_, ?_⟩
    · have quote : "\"".utf8ByteSize = 1 := rfl
      rw [literal, String.utf8ByteSize_append, String.utf8ByteSize_append, quote]
      omega
    · rw [toList_literal]
      rfl
    · rw [toList_literal, List.getLast?_concat]

theorem isQuoted_eq_false_iff : isQuoted text = false ↔ ¬ Quoted text := by
  rw [quoted_iff, ← isQuoted_iff, Bool.not_eq_true]

theorem literalValue_literal (at_t : t.text = literal value) : t.literalValue = .ok value := by
  rw [literalValue, if_pos (isQuoted_iff.2 ⟨value, at_t⟩), at_t, inner, toList_literal]
  simp

theorem literalLength_literal (at_t : t.text = literal value) :
    t.literalLength = .ok (effectiveLength value.toList) := by
  rw [literalLength, if_pos (isQuoted_iff.2 ⟨value, at_t⟩), at_t, inner, toList_literal]
  simp

theorem literal_nonempty (value : String) : literal value ≠ "" := by
  intro empty
  have chars := congrArg String.toList empty
  rw [toList_literal] at chars
  cases chars

theorem joined_literals (value second : String) :
    joined (literal value) (literal second) = literal (value ++ second) := by
  rw [← String.toList_inj, joined, String.toList_ofList, toList_literal, toList_literal,
    toList_literal, List.dropLast_concat, String.toList_append]
  simp

theorem appendLiteral_literal {second : String} (at_t : t.text = literal value) :
    t.appendLiteral (literal second) =
      .ok { t with text := literal (value ++ second), nonempty := literal_nonempty _ } := by
  have quotedT := isQuoted_iff.2 ⟨value, at_t⟩
  have quoted := isQuoted_iff.2 ⟨second, rfl⟩
  have chars : joined t.text (literal second) = literal (value ++ second) :=
    at_t ▸ joined_literals value second
  simp only [appendLiteral, quotedT, quoted, chars, Bool.not_true, Bool.false_eq_true, if_false,
    dif_pos]

/-! ### Lengths -/

theorem effectiveLength_plain (ne : c ≠ '\\') (rest : List Char) :
    effectiveLength (c :: rest) = effectiveLength rest + 1 := by
  cases rest <;> simp [effectiveLength, ne]

theorem effectiveLength_escape (c : Char) (rest : List Char) :
    effectiveLength ('\\' :: c :: rest) = if c = '0' then 0 else effectiveLength rest + 1 := by
  rw [effectiveLength]

/-- Nothing behind an escaped zero is counted. -/
theorem effectiveLength_terminated (terminated : Terminated v) (w : List Char) :
    effectiveLength (v ++ w) = effectiveLength v := by
  obtain ⟨before, after, finished, rfl⟩ := terminated
  induction finished with
  | nil => rfl
  | plain ne _ ih =>
      simp only [List.cons_append] at ih ⊢
      rw [effectiveLength_plain ne, effectiveLength_plain ne, ih]
  | escape _ ih =>
      simp only [List.cons_append] at ih ⊢
      rw [effectiveLength_escape, effectiveLength_escape, ih]

theorem not_terminated_of_plain (ne : c ≠ '\\') (count : ¬ Terminated (c :: v)) :
    ¬ Terminated v := by
  rintro ⟨before, after, finished, rfl⟩
  exact count ⟨c :: before, after, .plain ne finished, rfl⟩

theorem not_terminated_of_escape (count : ¬ Terminated ('\\' :: c :: v)) :
    c ≠ '0' ∧ ¬ Terminated v := by
  refine ⟨?_, ?_⟩
  · rintro rfl
    exact count ⟨[], v, .nil, rfl⟩
  · rintro ⟨before, after, finished, rfl⟩
    exact count ⟨'\\' :: c :: before, after, .escape finished, rfl⟩

theorem effectiveLength_finished (finished : Finished v) (count : ¬ Terminated v)
    (w : List Char) : effectiveLength (v ++ w) = effectiveLength v + effectiveLength w := by
  induction finished with
  | nil => simp [effectiveLength]
  | plain ne _ ih =>
      rw [List.cons_append, effectiveLength_plain ne, effectiveLength_plain ne,
        ih (not_terminated_of_plain ne count)]
      omega
  | escape _ ih =>
      obtain ⟨ne, count⟩ := not_terminated_of_escape count
      rw [List.cons_append, List.cons_append, effectiveLength_escape, effectiveLength_escape,
        if_neg ne, if_neg ne, ih count]
      omega

theorem Dangling.plain (ne : c ≠ '\\') : Dangling v → Dangling (c :: v)
  | ⟨before, finished, chars⟩ => ⟨c :: before, .plain ne finished, congrArg (c :: ·) chars⟩

theorem Dangling.escape (c : Char) : Dangling v → Dangling ('\\' :: c :: v)
  | ⟨before, finished, chars⟩ =>
    ⟨'\\' :: c :: before, .escape finished, congrArg ('\\' :: c :: ·) chars⟩

/-- Read from the front, a value ends behind a character or in the middle of an escape. -/
theorem finished_or_dangling : ∀ v : List Char, Finished v ∨ Dangling v
  | [] => .inl .nil
  | [c] => by
      by_cases backslash : c = '\\'
      · exact .inr ⟨[], .nil, by rw [backslash]; rfl⟩
      · exact .inl (.plain backslash .nil)
  | c :: d :: rest => by
      by_cases backslash : c = '\\'
      · subst backslash
        exact (finished_or_dangling rest).imp .escape (.escape d)
      · exact (finished_or_dangling (d :: rest)).imp (.plain backslash) (.plain backslash)

/-! ### Joining -/

/-- What is joined out of two literals: the token `t` with its text replaced, whose value is the two
values one behind the other, and whose length is the first one alone where an escaped zero ends the
count in it, and else the sum, unless the first value ends in a backslash without its character. -/
structure Joined (t : Token) (other : String) (u : Token) : Prop where
  quoted : Quoted u.text
  rest : u = { t with text := u.text, nonempty := u.nonempty }
  parts : ∃ first second m n,
    t.literalValue = .ok first ∧ t.literalLength = .ok m ∧
    (∀ s : Token, s.text = other → s.literalValue = .ok second ∧ s.literalLength = .ok n) ∧
    u.literalValue = .ok (first ++ second) ∧
    (Terminated first.toList → u.literalLength = .ok m) ∧
    (¬ Terminated first.toList → ¬ Dangling first.toList → u.literalLength = .ok (m + n))

theorem joined_literal {second : String} (at_t : t.text = literal value) :
    Joined t (literal second)
      { t with text := literal (value ++ second), nonempty := literal_nonempty _ } where
  quoted := quoted_iff.2 ⟨_, rfl⟩
  rest := rfl
  parts := by
    refine ⟨value, second, effectiveLength value.toList, effectiveLength second.toList,
      literalValue_literal at_t, literalLength_literal at_t, ?_, literalValue_literal rfl, ?_, ?_⟩
    · exact fun s at_s => ⟨literalValue_literal at_s, literalLength_literal at_s⟩
    · intro terminated
      rw [literalLength_literal rfl, String.toList_append, effectiveLength_terminated terminated]
    · intro counted ends
      have finished := (finished_or_dangling value.toList).resolve_right ends
      rw [literalLength_literal rfl, String.toList_append,
        effectiveLength_finished finished counted]

/-- The first of two texts that is no literal is the reason why they are not joined. -/
theorem appendLiteral_cases (t : Token) (other : String) :
    (Quoted t.text ∧ Quoted other ∧ ∃ u, t.appendLiteral other = .ok u ∧ Joined t other u) ∨
      ∃ text, t.appendLiteral other = .error (.malformed text) ∧
        (¬ Quoted t.text ∧ text = t.text ∨ Quoted t.text ∧ ¬ Quoted other ∧ text = other) := by
  by_cases quotedT : Quoted t.text
  · obtain ⟨first, at_t⟩ := quoted_iff.1 quotedT
    by_cases quoted : Quoted other
    · obtain ⟨second, rfl⟩ := quoted_iff.1 quoted
      exact .inl ⟨quotedT, quoted, _, appendLiteral_literal at_t, joined_literal at_t⟩
    · refine .inr ⟨other, ?_, .inr ⟨quotedT, quoted, rfl⟩⟩
      simp only [appendLiteral, isQuoted_iff.2 ⟨first, at_t⟩, isQuoted_eq_false_iff.2 quoted,
        Bool.not_true, Bool.false_eq_true, if_false, dite_false]
  · refine .inr ⟨t.text, ?_, .inl ⟨quotedT, rfl⟩⟩
    simp only [appendLiteral, isQuoted_eq_false_iff.2 quotedT, Bool.not_false, if_true]

/-- A text is joined to a token exactly if both are literals. Otherwise the token stays as it was,
and the first of the two that is no literal is named. -/
theorem appendLiteral_exact (t : Token) (other : String) :
    ((∃ u, t.appendLiteral other = .ok u) ↔ Quoted t.text ∧ Quoted other) ∧
    (∀ u, t.appendLiteral other = .ok u →
      t.apply (.literal other) = .ok (u, none) ∧ Joined t other u) ∧
    ∀ e, t.appendLiteral other = .error e →
      t.apply (.literal other) = .ok (t, some e) ∧
      (¬ Quoted t.text → e = .malformed t.text) ∧ (Quoted t.text → e = .malformed other) := by
  rcases appendLiteral_cases t other with
    ⟨quotedT, quoted, u, ok, joined⟩ | ⟨text, refused, reason⟩
  · refine ⟨⟨fun _ => ⟨quotedT, quoted⟩, fun _ => ⟨u, ok⟩⟩, fun v same => ?_, fun e failed => ?_⟩
    · rw [ok] at same
      cases same
      exact ⟨by rw [apply, ok], joined⟩
    · rw [ok] at failed
      cases failed
  · refine ⟨⟨?_, fun both => ?_⟩, fun v ok => ?_, fun e same => ?_⟩
    · rintro ⟨u, ok⟩
      rw [refused] at ok
      cases ok
    · rcases reason with ⟨unquoted, -⟩ | ⟨-, unquoted, -⟩
      · exact absurd both.1 unquoted
      · exact absurd both.2 unquoted
    · rw [refused] at ok
      cases ok
    · rw [refused] at same
      cases same
      refine ⟨by rw [apply, refused], fun unquoted => ?_, fun quotedT => ?_⟩
      · rcases reason with ⟨-, rfl⟩ | ⟨quotedT, -⟩
        · rfl
        · exact absurd quotedT unquoted
      · rcases reason with ⟨unquoted, -⟩ | ⟨-, -, rfl⟩
        · exact absurd quotedT unquoted
        · rfl

-- The value `a\0` has length 1, and so has `a\0bc`.
theorem count_ended_by_zero :
    ∃ t u : Token, Quoted t.text ∧ Quoted "\"bc\"" ∧ Terminated "a\\0".toList ∧
      t.appendLiteral "\"bc\"" = .ok u ∧ u.literalValue = .ok "a\\0bc" ∧
      u.literalLength = .ok 1 := by
  have at_t : "\"a\\0\"" = literal "a\\0" := by decide
  have at_other : "\"bc\"" = literal "bc" := by decide
  have both : Quoted "\"a\\0\"" ∧ Quoted "\"bc\"" :=
    ⟨quoted_iff.2 ⟨_, at_t⟩, quoted_iff.2 ⟨_, at_other⟩⟩
  have terminated : Terminated "a\\0".toList := ⟨['a'], [], .plain (by decide) .nil, rfl⟩
  let t : Token := .bare "\"a\\0\""
  obtain ⟨joins, result, -⟩ := appendLiteral_exact t "\"bc\""
  obtain ⟨u, ok⟩ := joins.2 both
  obtain ⟨first, second, m, n, value, length, of_other, whole, stops, -⟩ := (result u ok).2.parts
  rw [literalValue_literal at_t] at value
  rw [literalLength_literal at_t] at length
  have behind := (of_other (.bare "\"bc\"") rfl).1
  rw [literalValue_literal at_other] at behind
  cases value
  cases length
  cases behind
  exact ⟨t, u, both.1, both.2, terminated, ok, whole, stops terminated⟩

end TokenStream.Token
