import TokenStream.Proofs.Pattern.Search
/-!
Negated elements in the middle of a chain. `!!` in front of a word asks for one token with any other
text, and the pattern goes on behind that token. A bar in the word gets in the way: the test takes
the element for alternatives then, two exclamation marks and all, while the rules for both ends of a
chain go on to take it for a negation.
-/
namespace TokenStream

namespace Pattern

open Text (firstWord wordTails)

variable {w : List Char}

/-- A word that is not the one asked about does not make a misuse. -/
theorem misused_append (other : w ≠ "%varid%".toList) (space : ' ' ∉ w) {p q : String}
    (chars : p.toList = w ++ ' ' :: q.toList) (varId : UInt32) :
    misused p varId = misused q varId := by
  have plain : ∀ c ∈ w, (c == ' ') = false := by
    intro c mem
    simpa using ne_of_mem_of_not_mem mem space
  have apart : ("%varid%".toList == w) = false := by simpa using Ne.symm other
  rw [misused, misused, chars, Text.cells_append_sep (by decide), Text.cells_of_no_sep plain,
    List.singleton_append, List.contains_cons, apart, Bool.false_or]

/-- The test of a negated word without a bar: any other text will do. -/
theorem test_negation (varId : UInt32) (t : Token) (nonempty : w ≠ []) (space : ' ' ∉ w)
    (bar : '|' ∉ w) (rest : List Char) :
    test varId t ('!' :: '!' :: w ++ ' ' :: rest) = .ofBool (w != t.text.toList) := by
  have word : firstWord ('!' :: '!' :: w ++ ' ' :: rest) = '!' :: '!' :: w :=
    Text.firstWord_append (by simpa using space) rest
  have one : hasAlternatives ('!' :: '!' :: w) = false := by simp [hasAlternatives, bar]
  have more : negated ('!' :: '!' :: w ++ ' ' :: rest) = true := by
    obtain ⟨c, w, rfl⟩ := List.exists_cons_of_ne_nil nonempty
    rfl
  have no_class : ¬ ('!' :: '!' :: w).head? = some '%' := by simp
  have no_set : set? ('!' :: '!' :: w) t.text.toList = none := by simp [set?]
  simp only [test, word, if_neg no_class, no_set, one, more, Bool.false_eq_true, if_false, if_true]
  rfl

end Pattern

namespace Chain

open Pattern
open Text (wordTails)

variable {c : Chain} {order A C : List Handle} {h p : Handle} {w : List Char}

/-- Where a token stands before the walk, the rule for the first token of a chain is out of play. -/
theorem matchTails_inner (sound : c.view.Sound (A ++ C)) (inner : A ≠ []) (varId : UInt32)
    (untested : Bool) (tails : List (List Char)) :
    c.matchTails varId untested C.head? tails = c.matchTails varId false C.head? tails := by
  cases C with
  | nil =>
      induction tails with
      | nil => rfl
      | cons tail tails ih =>
          rw [List.head?_nil] at ih ⊢
          rw [matchTails, matchTails, ih]
  | cons h C =>
      cases tails with
      | nil => rfl
      | cons tail tails =>
          obtain ⟨n, here, prev, -⟩ := exists_node_of_sound sound
          have preceded : n.prev.isNone = false := by
            rw [prev, List.getLast?_eq_some_getLast inner]
            rfl
          rw [List.head?_cons, matchTails, matchTails, node_eq_ok_iff.2 here, ok_bind, ok_bind,
            preceded]
          simp only [Bool.and_false, Bool.false_and]

/-- One element that negates a word: it uses the token up or fails, and the rest of the pattern is
matched as if it stood alone. -/
theorem matchTails_negation (sound : c.view.Sound (A ++ h :: C)) (inner : A ≠ []) {t : Token}
    (found : c.token? h = some t) (nonempty : w ≠ []) (space : ' ' ∉ w) (bar : '|' ∉ w)
    (varId : UInt32) (rest : List Char) :
    c.matchTails varId true (some h) (wordTails ('!' :: '!' :: w ++ ' ' :: rest)) =
      if w = t.text.toList then .ok false
      else c.matchTails varId true C.head? (wordTails rest) := by
  obtain ⟨n, here, -, next⟩ := exists_node_of_sound sound
  obtain rfl : n.token = t := by simpa [token?, here] using found
  have tails : wordTails ('!' :: '!' :: w ++ ' ' :: rest) =
      ('!' :: '!' :: w ++ ' ' :: rest) :: wordTails rest :=
    Text.wordTails_append (by simpa using space) rest (List.cons_ne_nil _ _)
  have past : c.view.Sound ((A ++ [h]) ++ C) := by rwa [← List.append_cons]
  -- neither `h` nor what comes after it is the first token
  have still := matchTails_inner sound inner varId true
    (('!' :: '!' :: w ++ ' ' :: rest) :: wordTails rest)
  rw [List.head?_cons] at still
  rw [tails, still, matchTails, node_eq_ok_iff.2 here, ok_bind,
    test_negation varId n.token nonempty space bar rest, next,
    matchTails_inner past (by simp) varId true]
  by_cases same : w = n.token.text.toList
  · rw [if_pos same, bne, beq_iff_eq.2 same]
    rfl
  · rw [if_neg same, bne, beq_eq_false_iff_ne.2 same]
    rfl

/-- Behind a first token, an element that negates a word is satisfied by any other text, and the
rest of the pattern goes on with the token after it. -/
theorem matchesAt_negation (sound : c.view.Sound order) (preceded : c.previous h = .ok (some p))
    {w : String} (nonempty : w ≠ "") (space : ' ' ∉ w.toList) (bar : '|' ∉ w.toList) (q : String)
    (varId : UInt32) :
    ∃ t next here beyond, c.token h = .ok t ∧ c.next h = .ok next ∧
      c.matchesAt next q varId = .ok beyond ∧
      c.matchesAt (some h) ("!!" ++ w ++ " " ++ q) varId = .ok here ∧
      (here.answer = true ↔ t.text ≠ w ∧ beyond.answer = true) ∧
      here.reports = beyond.reports := by
  obtain ⟨n, found, -⟩ := exists_of_bind_eq_ok preceded
  have shown : c.token? h = some n.token := congrArg _ (node_eq_ok_iff.1 found)
  have mem : h ∈ order := (sound.mem_iff h).2 (Option.isSome_iff_exists.2 ⟨_, shown⟩)
  obtain ⟨A, C, rfl⟩ := List.append_of_mem mem
  have inner : A ≠ [] := by
    rw [previous_of_sound sound, Except.ok.injEq] at preceded
    rintro rfl
    cases preceded
  have past : c.view.Sound ((A ++ [h]) ++ C) := by rwa [← List.append_cons]
  obtain ⟨b, after⟩ := exists_matchTails past varId true (wordTails q.toList)
  have chars : ("!!" ++ w ++ " " ++ q).toList = '!' :: '!' :: w.toList ++ ' ' :: q.toList := by
    simp
  have filled : w.toList ≠ [] := by simpa using nonempty
  have element : c.matchElements (some h) ("!!" ++ w ++ " " ++ q) varId =
      .ok (decide (n.token.text ≠ w) && b) := by
    rw [matchElements, chars, matchTails_negation sound inner shown filled space bar, after]
    by_cases word : n.token.text = w
    · rw [if_pos (congrArg String.toList word.symm), decide_eq_false (not_not.2 word)]
      rfl
    · rw [if_neg fun text => word (String.toList_injective text.symm), decide_eq_true word]
      rfl
  have same : misused ("!!" ++ w ++ " " ++ q) varId = misused q varId :=
    misused_append (by simp) (by simpa using space) chars varId
  refine ⟨n.token, C.head?, _, _, token_ok shown, next_of_sound sound,
    by rw [matchesAt, matchElements, after, guarded_eq], by rw [matchesAt, element, guarded_eq],
    ?_, ?_⟩
  · cases bad : misused q varId <;> simp [same, bad]
  · simp only [misuseReports, ← misused_iff, same]

theorem declaration_not_returned :
    ∃ order, declaration.view.Sound order ∧ declaration.previous ⟨1, 0⟩ = .ok (some ⟨0, 0⟩) ∧
      ∃ here, declaration.matchesAt (some ⟨1, 0⟩) "!!return ;" 0 = .ok here ∧
        here.answer = true := by
  obtain ⟨order, sound⟩ := sound_of_validate (c := declaration) (by decide) (by decide)
  obtain ⟨t, next, here, beyond, found, step, after, ran, exact, -⟩ :=
    matchesAt_negation sound (h := ⟨1, 0⟩) (p := ⟨0, 0⟩) rfl (w := "return") (by decide) (by decide)
      (by decide) ";" 0
  cases found
  cases step
  cases after
  exact ⟨order, sound, rfl, here, ran, exact.2 ⟨by decide, rfl⟩⟩

-- `||` lists an empty alternative even behind two exclamation marks, so `!!||` asks nothing of `x`
-- and leaves it to the next element.
theorem bars_hide_negation :
    ∃ order, declaration.view.Sound order ∧ declaration.previous ⟨1, 0⟩ = .ok (some ⟨0, 0⟩) ∧
      (declaration.token? ⟨1, 0⟩).map (·.text) = some "x" ∧
      declaration.next ⟨1, 0⟩ = .ok (some ⟨2, 0⟩) ∧
      declaration.matchesAt (some ⟨2, 0⟩) ";" 0 = .ok { answer := true, reports := [] } ∧
      declaration.matchesAt (some ⟨1, 0⟩) "!!|| ;" 0 = .ok { answer := false, reports := [] } ∧
      declaration.matchesAt (some ⟨2, 0⟩) "x" 0 = .ok { answer := false, reports := [] } ∧
      declaration.matchesAt (some ⟨1, 0⟩) "!!|| x" 0 = .ok { answer := true, reports := [] } := by
  obtain ⟨order, sound⟩ := sound_of_validate (c := declaration) (by decide) (by decide)
  exact ⟨order, sound, rfl, rfl, rfl, rfl, rfl, rfl, rfl⟩

end Chain

end TokenStream
