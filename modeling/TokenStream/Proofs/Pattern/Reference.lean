import TokenStream.Pattern.Match
import TokenStream.Proofs.Chain.Integrity
import TokenStream.Proofs.Pattern.Locality
/-!
The element language of patterns, read word by word, and the matcher held to it. The matcher hands
the whole rest of the pattern to its tests; that a test depends on the first word of it alone takes
tokens without spaces and null characters, and negated words that name a text.
-/
namespace TokenStream

namespace Pattern

open Text (firstWord wordTails)

def words (pattern : String) : List (List Char) :=
  (Text.cells (· == ' ') pattern.toList).filter (!·.isEmpty)

def isNegation (word : List Char) : Bool :=
  ['!', '!'].isPrefixOf word

/-- What the words between percent signs say of a token. -/
def keywords (varId : UInt32) (t : Token) : List (String × Bool) :=
  [("%var%", t.lexical.name),
   ("%type%", t.lexical.name && t.varId == 0 && t.text != "delete"),
   ("%any%", true),
   ("%varid%", t.varId == varId),
   ("%num%", t.lexical.number),
   ("%bool%", t.lexical.boolean),
   ("%str%", t.text.toList.head? == some '"'),
   ("%or%", t.text == "|"),
   ("%oror%", t.text == "||")]

def Comparison.verdict : Comparison → Verdict
  | .hit => .accept
  | .miss => .reject
  | .emptyAlternative => .pass

/-- What a word says of a token. The first closing bracket of a set is not in it. -/
def judge (varId : UInt32) (t : Token) (word : List Char) : Verdict :=
  let text := t.text.toList
  if word.head? = some '%' then
    .ofBool (((keywords varId t).lookup (String.ofList word)).getD (word == text))
  else if isNegation word then .ofBool (word.drop 2 != text)
  else if word.head? = some '[' ∧ ']' ∈ word ∧ Text.byteLength text = 1 then
    .ofBool (text.all ((word.drop 1).erase ']').contains)
  else if '|' ∈ word ∧ (word.head? ≠ some '|' ∨ 2 < Text.byteLength word) then
    (compareAlternatives word text).verdict
  else .ofBool (word == text)

/-- Whether the words, one after the other, hold of the tokens from here on. The flag says that no
word has been tested yet and the first token is the head of its chain. -/
def accepts (varId : UInt32) : Bool → List Token → List (List Char) → Bool
  | _, _, [] => true
  | opening, [], word :: rest => isNegation word && accepts varId opening [] rest
  | opening, t :: after, word :: rest =>
    if opening && isNegation word && !after.isEmpty then accepts varId true (t :: after) rest
    else
      match judge varId t word with
      | .accept => accepts varId false after rest
      | .reject => false
      | .pass => accepts varId false (t :: after) rest

/-- A token as patterns can speak of it. -/
structure Plain (t : Token) : Prop where
  space : ' ' ∉ t.text.toList
  null : '\x00' ∉ t.text.toList

theorem Plain.begun {t : Token} (plain : Plain t) : exhausted t.text.toList = false :=
  exhausted_eq_false (by simpa using t.nonempty) plain.null

/-- A word that starts like a negation is one, and has no alternatives. -/
def Definite (word : List Char) : Prop :=
  isNegation word = true → 2 < Text.byteLength word ∧ '|' ∉ word

instance : DecidablePred Definite := fun _ => inferInstanceAs (Decidable (_ → _))

/-! ### Locality -/

theorem byteLength_cons (c : Char) (s : List Char) :
    Text.byteLength (c :: s) = c.utf8Size + Text.byteLength s := by
  have shift : ∀ (s : List Char) (n : Nat),
      s.foldl (fun n c => n + c.utf8Size) n = n + s.foldl (fun n c => n + c.utf8Size) 0 := by
    intro s
    induction s with
    | nil => intro n; rfl
    | cons d s ih =>
        intro n
        rw [List.foldl_cons, List.foldl_cons, ih, ih (0 + d.utf8Size)]
        omega
  rw [Text.byteLength, List.foldl_cons, shift, Nat.zero_add]
  rfl

theorem length_le_byteLength (s : List Char) : s.length ≤ Text.byteLength s := by
  induction s with
  | nil => exact Nat.le_refl 0
  | cons c s ih =>
      have size := c.utf8Size_pos
      rw [byteLength_cons, List.length_cons]
      omega

/-- The rest of a pattern is negated exactly if its first word is, unless it is two exclamation
marks and nothing more. -/
theorem negated_eq_isNegation {tail : List Char} (more : tail ≠ ['!', '!']) :
    negated tail = isNegation (firstWord tail) := by
  by_cases starts : ∃ rest, tail = '!' :: '!' :: rest
  · obtain ⟨rest, rfl⟩ := starts
    have isNeg : isNegation (firstWord ('!' :: '!' :: rest)) = true := rfl
    cases rest with
    | nil => exact absurd rfl more
    | cons c rest => rw [isNeg]; rfl
  · have no_word : isNegation (firstWord tail) = false := by
      refine Bool.eq_false_iff.2 fun isNeg => ?_
      have opens := (List.isPrefixOf_iff_prefix.1 isNeg).trans (List.takeWhile_prefix _)
      obtain ⟨rest, eq⟩ := opens
      exact starts ⟨rest, eq.symm⟩
    rw [no_word]
    unfold negated
    split
    next c rest => exact absurd ⟨c :: rest, rfl⟩ starts
    · rfl

/-- With the words in order, that exception does not arise. -/
theorem negated_eq {tail : List Char} (definite : Definite (firstWord tail)) :
    negated tail = isNegation (firstWord tail) := by
  refine negated_eq_isNegation ?_
  rintro rfl
  exact absurd (definite rfl).1 (by decide)

theorem lookup_keywords (varId : UInt32) (t : Token) (word : List Char) :
    (keywords varId t).lookup (String.ofList word) =
      (TokenClass.ofWord? word).map (·.admits varId t) := by
  unfold TokenClass.ofWord?
  generalize String.ofList word = text
  split
  case h_10 =>
    refine List.lookup_eq_none_iff.2 ?_
    simp_all [keywords]
  all_goals rfl

theorem oneByte?_eq (text : List Char) :
    oneByte? text = if Text.byteLength text = 1 then text.head? else none := by
  match text with
  | [] => rfl
  | [c] =>
      rw [byteLength_cons]
      rfl
  | c :: d :: rest =>
      have long := length_le_byteLength (c :: d :: rest)
      rw [List.length_cons, List.length_cons] at long
      rw [if_neg (by omega)]
      rfl

theorem length_eq_one_of_byteLength {text : List Char} (size : Text.byteLength text = 1) :
    ∃ c, text = [c] := by
  have short := length_le_byteLength text
  rw [size] at short
  match text with
  | [] => cases size
  | [c] => exact ⟨c, rfl⟩
  | c :: d :: rest => exact absurd short (by simp)

theorem setLists_eq (word : List Char) (c : Char) :
    setLists word c = ((word.drop 1).erase ']').contains c := by
  unfold setLists
  by_cases closing : c = ']'
  · subst closing
    rw [if_pos rfl, Bool.eq_iff_iff, decide_eq_true_iff, List.contains_iff_mem,
      ← List.count_pos_iff, List.count_erase_self]
    omega
  · rw [if_neg closing, Bool.eq_iff_iff, List.contains_iff_mem, List.contains_iff_mem,
      List.mem_erase_of_ne closing]

/-- A word is a set for tokens of one byte only, and `set?` finds that byte. -/
theorem set?_eq (word text : List Char) :
    set? word text =
      if word.head? = some '[' ∧ ']' ∈ word ∧ Text.byteLength text = 1
      then text.head? else none := by
  simp only [set?, oneByte?_eq, List.contains_iff_mem, ← and_assoc]
  by_cases brackets : word.head? = some '[' ∧ ']' ∈ word
  · simp only [brackets, true_and, and_self, if_true]
  · simp only [brackets, false_and, if_false]

theorem hasAlternatives_iff (word : List Char) :
    hasAlternatives word = true ↔
      '|' ∈ word ∧ (word.head? ≠ some '|' ∨ 2 < Text.byteLength word) := by
  simp [hasAlternatives]

theorem test_eq_judge (varId : UInt32) {t : Token} (plain : Plain t) {tail : List Char}
    (definite : Definite (firstWord tail)) :
    test varId t tail = judge varId t (firstWord tail) := by
  simp only [test, judge, lookup_keywords, set?_eq, hasAlternatives_iff]
  rw [compareAlternatives_firstWord plain.begun plain.space, negated_eq definite]
  generalize firstWord tail = word at definite
  by_cases percent : word.head? = some '%'
  · simp only [if_pos percent]
    cases TokenClass.ofWord? word <;> rfl
  · simp only [if_neg percent]
    by_cases isNeg : isNegation word = true
    · have first : word.head? = some '!' := by
        obtain ⟨rest, rfl⟩ := List.isPrefixOf_iff_prefix.1 isNeg
        rfl
      have no_set : ¬ word.head? = some '[' := by rw [first]; decide
      have no_bar := (definite isNeg).2
      simp only [no_set, no_bar, isNeg, false_and, if_false, if_true]
    · simp only [isNeg, if_false, Bool.false_eq_true]
      by_cases set : word.head? = some '[' ∧ ']' ∈ word ∧ Text.byteLength t.text.toList = 1
      · obtain ⟨c, only⟩ := length_eq_one_of_byteLength set.2.2
        rw [only] at set ⊢
        simp only [if_pos set, List.head?_cons, setLists_eq, List.all_cons, List.all_nil,
          Bool.and_true]
      · simp only [if_neg set]
        rfl

theorem misused_iff {pattern : String} {varId : UInt32} :
    misused pattern varId = true ↔ varId = 0 ∧ "%varid%".toList ∈ words pattern := by
  have word : (!("%varid%".toList).isEmpty) = true := by decide
  simp only [misused, words, Bool.and_eq_true, beq_iff_eq, List.contains_iff_mem, List.mem_filter,
    word, and_true]

/-- Whether a pattern is misused is decided by the matcher's own test. -/
instance decidableMisused (pattern : String) (varId : UInt32) :
    Decidable (varId = 0 ∧ "%varid%".toList ∈ words pattern) :=
  decidable_of_iff _ misused_iff

end Pattern

namespace Chain

open Pattern
open Text (firstWord wordTails)

variable {c : Chain}

theorem isEmpty_filterMap_token? {C : List Handle} (live : ∀ h ∈ C, (c.token? h).isSome = true) :
    (C.filterMap c.token?).isEmpty = C.isEmpty := by
  cases C with
  | nil => rfl
  | cons h C =>
      obtain ⟨t, found⟩ := Option.isSome_iff_exists.1 (live h List.mem_cons_self)
      rw [List.filterMap_cons_some found]
      rfl

/-- The matcher's test for a negation to be passed over, by what stands around the node. -/
theorem passes_over_eq {A C : List Handle} {h : Handle} {n : Node} (prev : n.prev = A.getLast?)
    (next : n.next = C.head?) (live : ∀ k ∈ h :: C, (c.token? k).isSome = true) {tail : List Char}
    (definite : Definite (firstWord tail)) (untested : Bool) :
    (untested && negated tail && n.prev.isNone && n.next.isSome) =
      (untested && A.isEmpty && isNegation (firstWord tail) &&
        !(C.filterMap c.token?).isEmpty) := by
  have before : A.getLast?.isNone = A.isEmpty := by cases A <;> simp
  have after : C.head?.isSome = !C.isEmpty := by cases C <;> rfl
  have rest := isEmpty_filterMap_token? fun k mem => live k (List.mem_cons_of_mem h mem)
  rw [negated_eq definite, next, prev, before, after, rest]
  cases A.isEmpty <;> cases isNegation (firstWord tail) <;> cases untested <;> rfl

/-- The nodes before the walk are `A`, those from it on are `C`. -/
theorem matchTails_eq_accepts (varId : UInt32) {A C : List Handle} (sound : c.view.Sound (A ++ C))
    (plain : ∀ h t, c.token? h = some t → Plain t) {tails : List (List Char)}
    (definite : ∀ tail ∈ tails, Definite (firstWord tail)) (untested : Bool) :
    c.matchTails varId untested C.head? tails =
      .ok (accepts varId (untested && A.isEmpty) (C.filterMap c.token?) (tails.map firstWord)) := by
  induction tails generalizing A C untested with
  | nil =>
      unfold matchTails accepts
      cases C <;> rfl
  | cons tail tails ih =>
      have first := definite tail List.mem_cons_self
      have others : ∀ tail ∈ tails, Definite (firstWord tail) := by
        intro tail mem
        exact definite tail (List.mem_cons_of_mem _ mem)
      cases C with
      | nil =>
          rw [List.head?_nil, List.filterMap_nil, List.map_cons, matchTails, accepts,
            negated_eq first]
          cases isNegation (firstWord tail) with
          | false => rfl
          | true => exact ih sound others untested
      | cons h C =>
          have live : ∀ k ∈ h :: C, (c.token? k).isSome = true := by
            intro k mem
            exact (sound.mem_iff k).1 (List.mem_append_right A mem)
          obtain ⟨n, here, prevN, nextN⟩ := exists_node_of_sound sound
          have found : c.token? h = some n.token := congrArg _ here
          rw [List.head?_cons, List.filterMap_cons_some found, List.map_cons, matchTails, accepts,
            node_eq_ok_iff.2 here, ok_bind, passes_over_eq prevN nextN live first,
            test_eq_judge varId (plain h _ found) first]
          split
          next skipped =>
            -- the walk stays where it is, and is still at the front
            have opening : (untested && A.isEmpty) = true := by
              simp only [Bool.and_eq_true] at skipped ⊢
              exact skipped.1.1
            have untouched : untested = true := (Bool.and_eq_true_iff.1 opening).1
            subst untouched
            have step := ih sound others true
            rw [List.head?_cons, List.filterMap_cons_some found, opening] at step
            exact step
          next tested =>
            cases judge varId n.token (firstWord tail) with
            | accept =>
                -- the node moves over to the part before the walk
                rw [List.append_cons] at sound
                have step := ih sound others false
                rw [← nextN] at step
                exact step
            | reject => rfl
            | pass =>
                have step := ih sound others false
                rw [List.head?_cons, List.filterMap_cons_some found] at step
                exact step

theorem misused_eq_false {varId : UInt32} {pattern : String}
    (asked : varId ≠ 0 ∨ "%varid%".toList ∉ words pattern) : misused pattern varId = false := by
  refine Bool.eq_false_iff.2 fun wrong => ?_
  obtain ⟨zero, listed⟩ := misused_iff.1 wrong
  rcases asked with given | absent
  · exact given zero
  · exact absent listed

/-- On a valid chain the matcher answers as the element language says, and reports nothing. -/
theorem matchesAt_exact {order : List Handle} (sound : c.view.Sound order)
    (plain : ∀ h t, c.token? h = some t → Plain t) (start : Option Handle)
    (live : ∀ h, start = some h → c.contains h = true) (pattern : String) (varId : UInt32)
    (definite : ∀ word ∈ words pattern, Definite word)
    (asked : varId ≠ 0 ∨ "%varid%".toList ∉ words pattern) :
    c.matchesAt start pattern varId =
      .ok { answer := accepts varId (start == c.front)
              ((order.dropWhile (some · != start)).filterMap c.token?) (words pattern)
            reports := [] } := by
  obtain ⟨A, C, rfl, rfl, part, opening⟩ := exists_part sound live
  have front : c.front = (A ++ C).head? := sound.ring.next_none
  have firsts : (wordTails pattern.toList).map firstWord = words pattern :=
    Text.map_firstWord_wordTails pattern.toList
  have definite' : ∀ tail ∈ wordTails pattern.toList, Definite (firstWord tail) := by
    intro tail mem
    apply definite
    rw [← firsts]
    exact List.mem_map_of_mem mem
  have answer := matchTails_eq_accepts varId sound plain definite' true
  rw [firsts, Bool.true_and, opening, ← front] at answer
  rw [matchesAt, guarded, misused_eq_false asked, part, matchElements, answer]
  rfl

/-- `int x ;` -/
def declaration : Chain :=
  let slot (token : Token) (next prev : Option Handle) : Slot :=
    { generation := 0, node := some { token, next, prev, link := none } }
  { slots := #[slot (.bare "int") (some ⟨1, 0⟩) none,
      slot (.bare "x") (some ⟨2, 0⟩) (some ⟨0, 0⟩), slot (.bare ";") none (some ⟨1, 0⟩)]
    free := []
    live := 3
    front := some ⟨0, 0⟩
    back := some ⟨2, 0⟩ }

theorem plain_of_declaration {h : Handle} {t : Token} (found : declaration.token? h = some t) :
    Plain t := by
  obtain ⟨n, here, rfl⟩ := exists_node_of_token found
  have mem := Array.mem_of_getElem? (node?_eq_some_iff.1 here)
  simp only [declaration, List.mem_toArray, List.mem_cons, Slot.mk.injEq, Option.some.injEq,
    List.not_mem_nil, or_false] at mem
  rcases mem with ⟨-, rfl⟩ | ⟨-, rfl⟩ | ⟨-, rfl⟩
  · exact ⟨by decide, by decide⟩
  · exact ⟨by decide, by decide⟩
  · exact ⟨by decide, by decide⟩

theorem declaration_accepted :
    ∃ order, declaration.view.Sound order ∧
      accepts 0 true ((order.dropWhile (some · != some ⟨0, 0⟩)).filterMap declaration.token?)
        (words "!!return %type% %var% ;|=") = true := by
  obtain ⟨order, sound⟩ := sound_of_validate (c := declaration) (by decide) (by decide)
  have front_live : ∀ h, some ⟨0, 0⟩ = some h → declaration.contains h = true := by
    rintro _ ⟨⟩
    rfl
  have answer := matchesAt_exact sound (fun _ _ => plain_of_declaration) (some ⟨0, 0⟩) front_live
    "!!return %type% %var% ;|=" 0 (by decide) (.inr (by decide))
  have ran : declaration.matchesAt (some ⟨0, 0⟩) "!!return %type% %var% ;|=" 0 =
      .ok { answer := true, reports := [] } := rfl
  rw [ran] at answer
  injection answer with same
  injection same with accepted
  exact ⟨order, sound, accepted.symm⟩

end Chain

end TokenStream
