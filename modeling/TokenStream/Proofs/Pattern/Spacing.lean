import TokenStream.Proofs.Pattern.Reference
/-!
Patterns that differ in their spaces alone. What an element asks of a token is read off the rest of
the pattern, which reaches past the element in two places: two exclamation marks are a negation only
if something comes after them, and alternatives are scanned on past their end by a text that has a
space just there. Where neither comes up, spaces beside spaces and at the ends of a pattern say
nothing.
-/
namespace TokenStream

namespace Pattern

open Text (firstWord wordTails tailsFrom)

/-- A pattern with more spaces before it, after it, or beside one that it has. -/
inductive Respaced (pattern : List Char) : List Char → Prop
  | same : Respaced pattern pattern
  | before {spaced : List Char} : Respaced pattern spaced → Respaced pattern (' ' :: spaced)
  | after {spaced : List Char} : Respaced pattern spaced → Respaced pattern (spaced ++ [' '])
  | between {front back : List Char} : Respaced pattern (front ++ ' ' :: back) →
      Respaced pattern (front ++ ' ' :: ' ' :: back)

/-- A text that a scan over these alternatives does not take for an ended one, and that has no space
which could stand for the one after them. -/
structure Scannable (text word : List Char) : Prop where
  begun : exhausted text = false
  within : ¬ Overruns text word

theorem Plain.scannable {t : Token} (plain : Plain t) (word : List Char) :
    Scannable t.text.toList word :=
  ⟨plain.begun, not_overruns_of_no_space plain.space word⟩

/-! ### Words -/

theorem words_ofList_append (front back : List Char) :
    words (.ofList (front ++ ' ' :: back)) = words (.ofList front) ++ words (.ofList back) := by
  rw [words, words, words, String.toList_ofList, String.toList_ofList, String.toList_ofList,
    Text.cells_append_sep (by decide), List.filter_append]

theorem words_cons_space (s : List Char) : words (.ofList (' ' :: s)) = words (.ofList s) :=
  words_ofList_append [] s

theorem words_concat_space (s : List Char) : words (.ofList (s ++ [' '])) = words (.ofList s) :=
  (words_ofList_append s []).trans (List.append_nil _)

theorem Respaced.words_eq {pattern spaced : List Char} (respaced : Respaced pattern spaced) :
    words (.ofList spaced) = words (.ofList pattern) := by
  induction respaced with
  | same => rfl
  | before _ ih => rw [words_cons_space, ih]
  | after _ ih => rw [words_concat_space, ih]
  | between _ ih =>
      rw [words_ofList_append] at ih
      rw [words_ofList_append, words_cons_space, ih]

theorem misused_congr {p q : String} (same : words p = words q) (varId : UInt32) :
    misused p varId = misused q varId := by
  rw [Bool.eq_iff_iff, misused_iff, misused_iff, same]

/-! ### The last word -/

/-- A tail is the rest of the pattern from one of its words on, so that the words after it are
those of the pattern after that one. -/
theorem words_suffix_of_mem_tailsFrom {inWord : Bool} {s tail : List Char}
    (mem : tail ∈ tailsFrom inWord s) :
    (tailsFrom false tail).map firstWord <:+ (tailsFrom inWord s).map firstWord := by
  induction s generalizing inWord with
  | nil => cases mem
  | cons c s ih =>
      by_cases space : c = ' '
      · rw [tailsFrom, if_pos space] at mem ⊢
        exact ih mem
      · cases inWord with
        | true =>
            rw [tailsFrom, if_neg space, if_pos rfl] at mem ⊢
            exact ih mem
        | false =>
            rw [tailsFrom, if_neg space, if_neg (by decide)] at mem ⊢
            rcases List.mem_cons.1 mem with rfl | mem
            · rw [tailsFrom, if_neg space, if_neg (by decide)]
            · exact (ih mem).trans (List.suffix_cons _ _)

/-- Two exclamation marks with nothing after them are the last word. -/
theorem getLast?_words_of_mem {pattern : String}
    (mem : ['!', '!'] ∈ wordTails pattern.toList) : (words pattern).getLast? = some ['!', '!'] := by
  obtain ⟨earlier, whole⟩ := words_suffix_of_mem_tailsFrom mem
  have firsts : (wordTails pattern.toList).map firstWord = words pattern :=
    Text.map_firstWord_wordTails pattern.toList
  have last : (tailsFrom false ['!', '!']).map firstWord = [['!', '!']] := rfl
  rw [last] at whole
  rw [← firsts, wordTails, ← whole, List.getLast?_concat]

/-! ### Elements -/

theorem test_congr {tail tail' : List Char} (word : firstWord tail = firstWord tail')
    (negation : negated tail = negated tail') (varId : UInt32) {t : Token}
    (texts : hasAlternatives (firstWord tail) = true →
      Scannable t.text.toList (firstWord tail)) :
    test varId t tail = test varId t tail' := by
  simp only [test, ← word, ← negation]
  by_cases bar : hasAlternatives (firstWord tail) = true
  · obtain ⟨begun, within⟩ := texts bar
    rw [compareAlternatives_local begun within, word, ← compareAlternatives_local begun]
    rwa [← word]
  · simp only [bar, Bool.false_eq_true, if_false]

end Pattern

namespace Chain

open Pattern
open Text (firstWord wordTails)

variable {c : Chain}

/-- The walk over the chain is the same for two patterns with the same words. -/
theorem matchTails_congr {tails tails' : List (List Char)}
    (same : tails.map firstWord = tails'.map firstWord)
    (more : ['!', '!'] ∉ tails) (more' : ['!', '!'] ∉ tails')
    (texts : ∀ tail ∈ tails, hasAlternatives (firstWord tail) = true →
      ∀ h t, c.token? h = some t → Scannable t.text.toList (firstWord tail))
    (varId : UInt32) (untested : Bool) (start : Option Handle) :
    c.matchTails varId untested start tails = c.matchTails varId untested start tails' := by
  induction tails generalizing tails' untested start with
  | nil =>
      obtain rfl : tails' = [] := by simpa using same.symm
      rfl
  | cons tail tails ih =>
      obtain ⟨tail', tails', rfl, word, rest⟩ :
          ∃ tail' rest', tails' = tail' :: rest' ∧ firstWord tail = firstWord tail' ∧
            tails.map firstWord = rest'.map firstWord := by
        cases tails' with
        | nil => cases same
        | cons tail' tails' =>
            obtain ⟨word, rest⟩ := List.cons.inj same
            exact ⟨tail', tails', rfl, word, rest⟩
      have next := ih rest (mt (List.mem_cons_of_mem _) more) (mt (List.mem_cons_of_mem _) more')
        fun tail mem => texts tail (List.mem_cons_of_mem _ mem)
      have negation : negated tail = negated tail' := by
        rw [negated_eq_isNegation (fun eq => more (eq ▸ List.mem_cons_self)),
          negated_eq_isNegation (fun eq => more' (eq ▸ List.mem_cons_self)), word]
      cases start with
      | none => rw [matchTails, matchTails, negation, next]
      | some h =>
          rw [matchTails, matchTails, negation]
          cases here : c.node h with
          | error f => rfl
          | ok n =>
              have found : c.token? h = some n.token := by
                rw [token?, node_eq_ok_iff.1 here]
                rfl
              have judged := test_congr word negation varId fun bar =>
                texts tail List.mem_cons_self bar h n.token found
              rw [ok_bind, ok_bind, judged, next, next, next]

/-- More spaces do not change what a pattern matches, nor what is reported, unless its last word is
two exclamation marks or a token of the chain takes the scan past the end of its alternatives. -/
theorem matchesAt_respaced (c : Chain) (start : Option Handle) (varId : UInt32) {p q : String}
    (respaced : Respaced p.toList q.toList)
    (ending : (words p).getLast? ≠ some ['!', '!'])
    (texts : ∀ word ∈ words p, hasAlternatives word = true →
      ∀ h t, c.token? h = some t → Scannable t.text.toList word) :
    c.matchesAt start q varId = c.matchesAt start p varId := by
  have same : words q = words p := by
    simpa only [String.ofList_toList] using respaced.words_eq
  have firsts (pattern : String) : (wordTails pattern.toList).map firstWord = words pattern :=
    Text.map_firstWord_wordTails pattern.toList
  have more : ['!', '!'] ∉ wordTails p.toList := mt getLast?_words_of_mem ending
  have more' : ['!', '!'] ∉ wordTails q.toList := mt getLast?_words_of_mem (same ▸ ending)
  have walk : c.matchElements start q varId = c.matchElements start p varId := by
    refine (matchTails_congr ?_ more more' ?_ varId true start).symm
    · rw [firsts, firsts, same]
    · intro tail mem
      exact texts _ (firsts p ▸ List.mem_map_of_mem mem)
  rw [matchesAt, matchesAt, guarded, guarded, misused_congr same, walk]

theorem declaration_respaced :
    declaration.matchesAt (some ⟨0, 0⟩) " !!return %type%   %var% ;|= " 0 =
      .ok { answer := true, reports := [] } := by
  let front := "!!return %type%".toList
  have between : Respaced "!!return %type% %var% ;|=".toList "!!return %type%   %var% ;|=".toList :=
    @Respaced.between _ front _ (@Respaced.between _ front _ .same)
  have spaced : Respaced "!!return %type% %var% ;|=".toList
      " !!return %type%   %var% ;|= ".toList := .before (.after between)
  rw [matchesAt_respaced declaration (some ⟨0, 0⟩) 0 spaced (by decide)
    fun word _ _ _ _ found => (plain_of_declaration found).scannable word]
  rfl

/-- `a b` and `b`, of which the first is one token. -/
def blankInside : Chain :=
  let slot (token : Token) (next prev : Option Handle) : Slot :=
    { generation := 0, node := some { token, next, prev, link := none } }
  { slots := #[slot (.bare "a b") (some ⟨1, 0⟩) none, slot (.bare "b") none (some ⟨0, 0⟩)]
    free := []
    live := 2
    front := some ⟨0, 0⟩
    back := some ⟨1, 0⟩ }

/-- A space after two exclamation marks makes a negation of them, and a second space between two
elements keeps a text with a space in it from being an alternative. -/
theorem spaces_tell :
    (∃ order, blankInside.view.Sound order) ∧
      blankInside.matchesAt (some ⟨0, 0⟩) "!!" 0 = .ok { answer := false, reports := [] } ∧
      blankInside.matchesAt (some ⟨0, 0⟩) "!! " 0 = .ok { answer := true, reports := [] } ∧
      blankInside.matchesAt (some ⟨0, 0⟩) "x|a b" 0 = .ok { answer := true, reports := [] } ∧
      blankInside.matchesAt (some ⟨0, 0⟩) "x|a  b" 0 = .ok { answer := false, reports := [] } :=
  ⟨sound_of_validate (by decide) (by decide), rfl, rfl, rfl, rfl⟩

end Chain

end TokenStream
