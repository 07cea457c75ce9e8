import TokenStream.Proofs.Pattern.Search
/-!
Patterns of plain words. Such a word has no meaning of its own in a pattern, so the full matcher
asks of a token what the plain one asks: that its text is the word.
-/
namespace TokenStream

namespace Pattern

open Text (firstWord wordTails)

/-- A word that a pattern takes as it stands. A bar in it is all of it or the first of two bytes. -/
structure Literal (w : List Char) : Prop where
  nonempty : w ≠ []
  space : ' ' ∉ w
  percent : w.head? ≠ some '%'
  bracket : w.head? ≠ some '['
  negation : isNegation w = false
  bar : '|' ∈ w → w.head? = some '|' ∧ Text.byteLength w ≤ 2

/-- The words joined by single spaces, with at most one space after the last. -/
def Spells (ws : List (List Char)) (pattern : List Char) : Prop :=
  pattern = [' '].intercalate ws ∨ (ws ≠ [] ∧ pattern = [' '].intercalate ws ++ [' '])

section
variable {ws : List (List Char)} (literal : ∀ w ∈ ws, Literal w)
include literal

theorem nil_not_mem_literal : [] ∉ ws := fun mem => (literal [] mem).nonempty rfl

theorem filter_literal : (ws.filter fun w => !w.isEmpty) = ws :=
  List.filter_eq_self.2 fun w mem => by simpa using (literal w mem).nonempty

theorem cells_literal (nonempty : ws ≠ []) :
    Text.cells (· == ' ') ([' '].intercalate ws) = ws :=
  Text.cells_intercalate nonempty fun w mem => (literal w mem).space

theorem words_of_spells {pattern : String} (spells : Spells ws pattern.toList) :
    words pattern = ws := by
  rw [words]
  rcases spells with whole | ⟨nonempty, whole⟩
  · rw [whole]
    by_cases nonempty : ws = []
    · rw [nonempty]
      rfl
    · rw [cells_literal literal nonempty, filter_literal literal]
  · rw [whole, Text.cells_append_sep (by decide), cells_literal literal nonempty,
      List.filter_append, filter_literal literal]
    exact List.append_nil ws

/-- The one space that the plain matcher passes over is that behind the last word. -/
theorem plainTexts_of_spells {pattern : String} (spells : Spells ws pattern.toList) :
    Chain.plainTexts pattern = ws := by
  rw [Chain.plainTexts]
  rcases spells with whole | ⟨nonempty, whole⟩
  · by_cases nonempty : ws = []
    · rw [whole, nonempty]
      rfl
    have cut := cells_literal literal nonempty
    rw [← whole] at cut
    have last : pattern.toList.getLast? ≠ some ' ' := by
      intro last
      obtain ⟨front, shape⟩ := List.getLast?_eq_some_iff.1 last
      rw [shape, Text.cells_append_sep (by decide)] at cut
      exact nil_not_mem_literal literal (cut ▸ List.mem_append_right _ (List.mem_singleton.2 rfl))
    split
    next empty =>
      rw [empty] at cut
      exact absurd (cut ▸ List.mem_singleton.2 rfl) (nil_not_mem_literal literal)
    next => rw [if_neg last, cut]
  · have last : pattern.toList.getLast? = some ' ' := by rw [whole, List.getLast?_concat]
    split
    next empty =>
      rw [empty] at last
      cases last
    next => rw [if_pos last, whole, List.dropLast_concat, cells_literal literal nonempty]

end

section
variable {tail : List Char} (literal : Literal (firstWord tail))
include literal

theorem negated_literal : negated tail = false := by
  have more : tail ≠ ['!', '!'] := by
    rintro rfl
    exact absurd literal.negation (by decide)
  rw [negated_eq_isNegation more, literal.negation]

theorem test_literal (varId : UInt32) (t : Token) :
    test varId t tail = .ofBool (firstWord tail == t.text.toList) := by
  have no_set : set? (firstWord tail) t.text.toList = none := by
    rw [set?, if_neg fun both => literal.bracket both.1]
  have one : hasAlternatives (firstWord tail) = false := by
    refine Bool.eq_false_iff.2 fun several => ?_
    obtain ⟨mem, other | long⟩ := (hasAlternatives_iff _).1 several
    · exact other (literal.bar mem).1
    · exact absurd (literal.bar mem).2 (Nat.not_le.2 long)
  simp only [test, if_neg literal.percent, no_set, one, negated_literal literal,
    Bool.false_eq_true, if_false]

end

end Pattern

namespace Chain

open Pattern
open Text (firstWord wordTails)

variable {c : Chain} {order A C : List Handle}

/-- Both matchers make the same walk, also over a chain that is broken. -/
theorem matchTails_eq_matchTexts (c : Chain) {tails : List (List Char)}
    (literal : ∀ tail ∈ tails, Literal (firstWord tail)) (varId : UInt32) (untested : Bool)
    (start : Option Handle) :
    c.matchTails varId untested start tails = c.matchTexts start (tails.map firstWord) := by
  induction tails generalizing untested start with
  | nil => cases start <;> rfl
  | cons tail tails ih =>
      have next := ih fun tail mem => literal tail (List.mem_cons_of_mem _ mem)
      have word := literal tail List.mem_cons_self
      rw [List.map_cons]
      cases start with
      | none =>
          rw [matchTails, matchTexts, negated_literal word]
          rfl
      | some h =>
          rw [matchTails, matchTexts]
          cases c.node h with
          | error f => rfl
          | ok n =>
              rw [ok_bind, ok_bind, negated_literal word, test_literal word, Bool.and_false,
                Bool.false_and, Bool.false_and, if_neg Bool.false_ne_true]
              by_cases same : n.token.text.toList = firstWord tail
              · rw [if_pos same, same, beq_self_eq_true]
                exact next false n.next
              · rw [if_neg same, beq_eq_false_iff_ne.2 (Ne.symm same)]
                rfl

theorem matchTexts_eq (sound : c.view.Sound (A ++ C)) (texts : List (List Char)) :
    c.matchTexts C.head? texts =
      .ok (texts.isPrefixOf ((C.filterMap c.token?).map (·.text.toList))) := by
  induction texts generalizing A C with
  | nil => cases C <;> rfl
  | cons text texts ih =>
      cases C with
      | nil => rfl
      | cons h C =>
          obtain ⟨n, here, -, next⟩ := exists_node_of_sound sound
          have found : c.token? h = some n.token := congrArg _ here
          rw [List.append_cons] at sound
          rw [List.head?_cons, matchTexts, node_eq_ok_iff.2 here, ok_bind, next, ih sound,
            List.filterMap_cons_some found, List.map_cons, List.isPrefixOf_cons_cons]
          by_cases same : n.token.text.toList = text
          · rw [if_pos same, same, beq_self_eq_true, Bool.true_and]
          · rw [if_neg same, beq_eq_false_iff_ne.2 (Ne.symm same)]
            rfl

/-- On a pattern of plain words the plain matcher and the full one give the same answer: whether the
words are the texts of the tokens from the start on, one by one. -/
theorem matchesPlain_exact (sound : c.view.Sound order) (start : Option Handle)
    (live : ∀ h, start = some h → c.contains h = true) {ws : List (List Char)} {pattern : String}
    (literal : ∀ w ∈ ws, Literal w) (spells : Spells ws pattern.toList) (varId : UInt32) :
    c.matchesAt start pattern varId =
        (c.matchesPlain start pattern).map (fun answer => { answer, reports := [] }) ∧
      c.matchesPlain start pattern = .ok (ws.isPrefixOf
        (((order.dropWhile (some · != start)).filterMap c.token?).map (·.text.toList))) := by
  obtain ⟨A, C, rfl, rfl, part, -⟩ := exists_part sound live
  have texts := words_of_spells literal spells
  have firsts : (wordTails pattern.toList).map firstWord = ws :=
    (Text.map_firstWord_wordTails pattern.toList).trans texts
  have literals : ∀ tail ∈ wordTails pattern.toList, Literal (firstWord tail) := by
    intro tail mem
    apply literal
    rw [← firsts]
    exact List.mem_map_of_mem mem
  have unasked : "%varid%".toList ∉ words pattern := by
    intro mem
    rw [texts] at mem
    exact (literal _ mem).percent rfl
  have plain : c.matchesPlain C.head? pattern = c.matchTexts C.head? ws := by
    rw [matchesPlain, plainTexts_of_spells literal spells]
  have full : c.matchElements C.head? pattern varId = c.matchTexts C.head? ws := by
    rw [matchElements, matchTails_eq_matchTexts c literals, firsts]
  refine ⟨?_, ?_⟩
  · rw [matchesAt, guarded, misused_eq_false (.inr unasked), full, plain]
    rfl
  · rw [plain, matchTexts_eq sound, part]

theorem declaration_spelled :
    ∃ order, declaration.view.Sound order ∧ Spells ["int".toList, "x".toList] "int x ".toList ∧
      declaration.matchesPlain (some ⟨0, 0⟩) "int x " = .ok true ∧
      declaration.matchesAt (some ⟨0, 0⟩) "int x " 0 = .ok { answer := true, reports := [] } := by
  obtain ⟨order, sound⟩ := sound_of_validate (c := declaration) (by decide) (by decide)
  have spells : Spells ["int".toList, "x".toList] "int x ".toList := .inr ⟨by decide, by decide⟩
  have literal : ∀ w ∈ ["int".toList, "x".toList], Literal w := by
    intro w mem
    simp only [List.mem_cons, List.not_mem_nil, or_false] at mem
    rcases mem with rfl | rfl
    · exact ⟨by decide, by decide, by decide, by decide, by decide, by decide⟩
    · exact ⟨by decide, by decide, by decide, by decide, by decide, by decide⟩
  have ran : declaration.matchesPlain (some ⟨0, 0⟩) "int x " = .ok true := rfl
  have both := (matchesPlain_exact sound (some ⟨0, 0⟩) (fun h here => by cases here; rfl) literal
    spells 0).1
  rw [ran] at both
  exact ⟨order, sound, spells, ran, both⟩

-- A single space spells no words, and the matchers do not agree on it.
example : declaration.matchesPlain (some ⟨0, 0⟩) " " = .ok false ∧
    declaration.matchesAt (some ⟨0, 0⟩) " " 0 = .ok { answer := true, reports := [] } :=
  ⟨rfl, rfl⟩

end Chain

end TokenStream
