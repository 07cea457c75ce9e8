import Mathlib.Data.List.Infix
import Mathlib.Data.List.TakeWhile
import TokenStream.Pattern.Element
/-!
How far a comparison with alternatives looks. The alternatives end at the first space, but a
character that the text goes on with is followed before it is asked whether it ends them. A text
that goes on with a space just where the alternatives end is compared with what comes after them;
any other text is compared with the alternatives alone.
-/
namespace TokenStream.Pattern

open Text (firstWord)

/-- The alternatives end in a part of the text after which the text has a space. Such a part starts
with the alternatives or behind one of their bars. -/
def Overruns (text word : List Char) : Prop :=
  ∃ part, part ++ [' '] <+: text ∧ '|' :: part <:+ '|' :: word

instance (text word : List Char) : Decidable (Overruns text word) :=
  decidable_of_iff
    (∃ part ∈ text.inits, part ++ [' '] <+: text ∧ '|' :: part <:+ '|' :: word) <| by
    constructor
    · rintro ⟨part, -, overrun⟩
      exact ⟨part, overrun⟩
    · rintro ⟨part, space, last⟩
      exact ⟨part, (List.mem_inits _ _).2 ((List.prefix_append part _).trans space), space, last⟩

variable {text word : List Char}

theorem not_overruns_of_no_space (space : ' ' ∉ text) (word : List Char) :
    ¬ Overruns text word := by
  rintro ⟨part, goes_on, -⟩
  exact space (goes_on.subset (List.mem_append_right part List.mem_cons_self))

theorem exhausted_eq_false (nonempty : text ≠ []) (null : '\x00' ∉ text) :
    exhausted text = false := by
  obtain ⟨c, rest, rfl⟩ := List.exists_cons_of_ne_nil nonempty
  have ne : c ≠ '\x00' := by
    rintro rfl
    exact null List.mem_cons_self
  simpa [exhausted] using ne

/-! ### Within the first word -/

/-- Neither what is pending, which may be the whole text, nor the text itself behind a later bar
takes the scan past the space. -/
theorem scanFrom_firstWord (begun : exhausted text = false) (tail : List Char) (seen : Bool)
    (scan : Scan)
    (state : ∀ pending whole, scan = .follow pending whole →
      (whole = true → pending = text) ∧ ¬ firstWord tail ++ [' '] <+: pending)
    (behind : ∀ part, '|' :: part <:+ firstWord tail → ¬ part ++ [' '] <+: text) :
    scanFrom text seen scan tail = scanFrom text seen scan (firstWord tail) := by
  induction tail generalizing seen scan with
  | nil => rfl
  | cons h tail ih =>
      by_cases end_word : h = ' '
      · subst end_word
        have stop : firstWord (' ' :: tail) = [] := rfl
        rw [stop] at state ⊢
        cases scan with
        | skip => rfl
        | follow pending whole =>
            obtain ⟨all, ends⟩ := state pending whole rfl
            have other : pending.head? ≠ some ' ' := by
              intro first
              obtain ⟨rest, rfl⟩ := List.head?_eq_some_iff.1 first
              exact ends (List.prefix_append [' '] rest)
            have full : whole = true → exhausted pending = false := by
              intro untouched
              rw [all untouched, begun]
            cases whole with
            | true => simp [scanFrom, other, full rfl]
            | false => simp [scanFrom, other]
      · have word : firstWord (h :: tail) = h :: firstWord tail :=
          Text.firstWord_cons_of_ne end_word tail
        rw [word] at state behind ⊢
        have later : ∀ part, '|' :: part <:+ firstWord tail → ¬ part ++ [' '] <+: text :=
          fun part last => behind part (last.trans (List.suffix_cons h _))
        have skipped : scanFrom text seen .skip tail =
            scanFrom text seen .skip (firstWord tail) :=
          ih seen .skip (fun _ _ same => nomatch same) later
        have again (bar : h = '|') (seen : Bool) : scanFrom text seen (.follow text true) tail =
            scanFrom text seen (.follow text true) (firstWord tail) := by
          refine ih seen _ ?_ later
          rintro pending whole ⟨⟩
          exact ⟨fun _ => rfl, behind _ (bar ▸ List.suffix_refl _)⟩
        cases scan with
        | skip =>
            unfold scanFrom
            split_ifs with _ bar
            · rfl
            · exact again bar seen
            · exact skipped
        | follow pending whole =>
            obtain ⟨-, ends⟩ := state pending whole rfl
            have next (first : pending.head? = some h) :
                scanFrom text seen (.follow pending.tail false) tail =
                  scanFrom text seen (.follow pending.tail false) (firstWord tail) := by
              obtain ⟨pending, rfl⟩ := List.head?_eq_some_iff.1 first
              refine ih seen _ ?_ later
              rintro pending whole ⟨⟩
              refine ⟨(fun no => nomatch no), fun goes_on => ends ?_⟩
              rw [List.cons_append]
              exact (List.prefix_cons_inj h).2 goes_on
            unfold scanFrom
            split_ifs with followed _ bar
            · exact next followed.2
            · rfl
            · rfl
            · exact again bar _
            · rfl
            · rfl
            · rfl
            · exact skipped

theorem compareAlternatives_local (begun : exhausted text = false) {tail : List Char}
    (within : ¬ Overruns text (firstWord tail)) :
    compareAlternatives tail text = compareAlternatives (firstWord tail) text := by
  refine scanFrom_firstWord begun tail false _ ?_ ?_
  · rintro pending whole ⟨⟩
    exact ⟨fun _ => rfl, fun goes_on => within ⟨_, goes_on, List.suffix_refl _⟩⟩
  · intro part last goes_on
    exact within ⟨part, goes_on, last.trans (List.suffix_cons '|' _)⟩

/-- A text without a space is compared with the first word alone. -/
theorem compareAlternatives_firstWord (begun : exhausted text = false) (space : ' ' ∉ text)
    (tail : List Char) :
    compareAlternatives tail text = compareAlternatives (firstWord tail) text :=
  compareAlternatives_local begun (not_overruns_of_no_space space _)

/-! ### Past the first word -/

/-- What is pending of a text with a space in it, as long as that space has not been met. -/
def Scan.Unspent (text : List Char) : Scan → Prop
  | .skip => True
  | .follow pending _ => pending <:+ text ∧ ' ' ∈ pending

section
variable (null : '\x00' ∉ text)
include null

theorem Scan.Unspent.exhausted {pending : List Char} {whole : Bool}
    (unspent : (Scan.follow pending whole).Unspent text) : exhausted pending = false :=
  exhausted_eq_false (List.ne_nil_of_mem unspent.2) fun mem => null (unspent.1.subset mem)

/-- No word decides on a text with a space in it. -/
theorem scanFrom_undecided (space : ' ' ∈ text) (single : ' ' ∉ word) (full : '\x00' ∉ word)
    (seen : Bool) {scan : Scan} (unspent : scan.Unspent text) (rest : List Char) :
    ∃ seen' scan', scan'.Unspent text ∧
      scanFrom text seen scan (word ++ rest) = scanFrom text seen' scan' rest := by
  induction word generalizing seen scan with
  | nil => exact ⟨seen, scan, unspent, rfl⟩
  | cons h word ih =>
      rw [List.mem_cons, not_or] at single full
      obtain ⟨no_space, single⟩ := single
      obtain ⟨no_null, full⟩ := full
      have inside : ¬ (h = ' ' ∨ h = '\x00') := not_or.2 ⟨Ne.symm no_space, Ne.symm no_null⟩
      have go (seen : Bool) {scan : Scan} (unspent : scan.Unspent text) :=
        ih single full seen unspent
      have start : (Scan.follow text true).Unspent text := ⟨List.suffix_refl text, space⟩
      have skipping : Scan.skip.Unspent text := trivial
      rw [List.cons_append]
      cases scan with
      | skip =>
          rw [scanFrom, if_neg inside]
          split_ifs
          · exact go seen start
          · exact go seen skipping
      | follow pending whole =>
          have left := unspent.exhausted null
          rw [scanFrom]
          simp only [left, inside, Bool.false_eq_true, and_false, if_false]
          split_ifs with followed
          · obtain ⟨pending, rfl⟩ := List.head?_eq_some_iff.1 followed.2
            have within : (Scan.follow pending false).Unspent text :=
              ⟨(List.suffix_cons h pending).trans unspent.1,
                (List.mem_cons.1 unspent.2).resolve_left no_space⟩
            exact go seen within
          · exact go _ start
          · exact go seen skipping

/-- A text is found where it stands, whatever it has in it. -/
theorem scanFrom_self {pending : List Char} (part : pending <:+ text) (seen whole : Bool) :
    scanFrom text seen (.follow pending whole) pending = .hit := by
  induction pending generalizing whole with
  | nil => rfl
  | cons h pending ih =>
      have ne : h ≠ '\x00' := by
        rintro rfl
        exact null (part.subset List.mem_cons_self)
      rw [scanFrom, if_pos ⟨ne, rfl⟩]
      exact ih ((List.suffix_cons h pending).trans part) false

/-- A text without a bar, taken past the space, is found there and only there. -/
theorem compareAlternatives_of_overruns (bar : '|' ∉ text) (single : ' ' ∉ word)
    (full : '\x00' ∉ word) (overruns : Overruns text word) :
    ∃ rest, compareAlternatives (word ++ ' ' :: rest) text = .hit ∧
      compareAlternatives word text ≠ .hit := by
  obtain ⟨part, ⟨rest, whole⟩, last⟩ := overruns
  rw [List.append_assoc, List.singleton_append] at whole
  have space : ' ' ∈ text := by
    rw [← whole]
    exact List.mem_append_right part List.mem_cons_self
  have start : (Scan.follow text true).Unspent text := ⟨List.suffix_refl text, space⟩
  refine ⟨rest, ?_, ?_⟩
  · rcases List.suffix_cons_iff.1 last with same | ⟨front, rfl⟩
    · obtain rfl : part = word := (List.cons.inj same).2
      rw [whole]
      exact scanFrom_self null (List.suffix_refl text) false true
    · -- the bar before the last alternative starts the text again
      have front_single : ' ' ∉ front := fun mem => single (List.mem_append_left _ mem)
      have front_full : '\x00' ∉ front := fun mem => full (List.mem_append_left _ mem)
      obtain ⟨seen, scan, unspent, reached⟩ := scanFrom_undecided null space front_single front_full
        false start ('|' :: part ++ ' ' :: rest)
      have again (seen : Bool) : scanFrom text seen (.follow text true) (part ++ ' ' :: rest) =
          .hit := by
        rw [whole]
        exact scanFrom_self null (List.suffix_refl text) seen true
      rw [compareAlternatives, List.append_assoc, reached, List.cons_append]
      cases scan with
      | skip => exact again seen
      | follow pending fresh =>
          have other : pending.head? ≠ some '|' := fun first =>
            bar (unspent.1.subset (List.mem_of_head? first))
          have ended := unspent.exhausted null
          rw [scanFrom, if_neg (fun both => other both.2)]
          simp only [ended, Bool.false_eq_true, and_false, if_false, if_true]
          exact again _
  · obtain ⟨seen, scan, unspent, reached⟩ :=
      scanFrom_undecided null space single full false start []
    rw [List.append_nil] at reached
    rw [compareAlternatives, reached]
    cases scan with
    | skip =>
        rw [scanFrom]
        cases seen <;> decide
    | follow pending fresh =>
        rw [scanFrom, unspent.exhausted null]
        cases seen <;> cases fresh <;> decide

end

theorem firstWord_firstWord (tail : List Char) : firstWord (firstWord tail) = firstWord tail :=
  List.takeWhile_idem

/-- An element with alternatives asks nothing more of a token than its own word does. -/
theorem test_local {t : Token} (begun : exhausted t.text.toList = false) {tail : List Char}
    (within : ¬ Overruns t.text.toList (firstWord tail))
    (several : hasAlternatives (firstWord tail) = true) (varId : UInt32) :
    test varId t tail = test varId t (firstWord tail) := by
  simp only [test, firstWord_firstWord, several, if_true, compareAlternatives_local begun within]

/-- A text is compared with the alternatives before the first space, and so is a token, unless the
alternatives end in a part of the text after which the text has a space itself. Those that do can be
followed by what finds the text, which they do not list. -/
theorem compareAlternatives_bounded (nonempty : text ≠ []) (null : '\x00' ∉ text)
    (tail : List Char) :
    (¬ Overruns text (firstWord tail) →
      compareAlternatives tail text = compareAlternatives (firstWord tail) text ∧
      ∀ (t : Token) (varId : UInt32), t.text.toList = text →
        hasAlternatives (firstWord tail) = true →
        test varId t tail = test varId t (firstWord tail)) ∧
    (Overruns text (firstWord tail) → '|' ∉ text → '\x00' ∉ tail →
      ∃ rest, compareAlternatives (firstWord tail ++ ' ' :: rest) text = .hit ∧
        compareAlternatives (firstWord tail) text ≠ .hit) := by
  have begun := exhausted_eq_false nonempty null
  refine ⟨fun within => ⟨compareAlternatives_local begun within, ?_⟩, ?_⟩
  · rintro t varId rfl several
    exact test_local begun within several varId
  · intro overruns bar full
    have word_full : '\x00' ∉ firstWord tail := fun mem =>
      full ((List.takeWhile_prefix _).subset mem)
    exact compareAlternatives_of_overruns null bar (Text.space_not_mem_firstWord tail) word_full
      overruns

-- The text stands behind the alternatives, but they end in none of its parts.
theorem text_behind_not_listed :
    "a b".toList ≠ [] ∧ '\x00' ∉ "a b".toList ∧
      ¬ Overruns "a b".toList (firstWord "a|x a b".toList) ∧
      compareAlternatives "a|x a b".toList "a b".toList = .miss := by
  have nonempty : "a b".toList ≠ [] := by decide
  have null : '\x00' ∉ "a b".toList := by decide
  have within : ¬ Overruns "a b".toList (firstWord "a|x a b".toList) := by decide
  refine ⟨nonempty, null, within, ?_⟩
  rw [((compareAlternatives_bounded nonempty null _).1 within).1]
  decide

/-- The alternatives `x` and `a` list no `a b`, but it is found if `b` is the next word. -/
theorem space_followed :
    "a b".toList ≠ [] ∧ '\x00' ∉ "a b".toList ∧
      compareAlternatives "x|a b".toList "a b".toList = .hit ∧
      compareAlternatives (firstWord "x|a b".toList) "a b".toList = .miss := by
  decide

end TokenStream.Pattern
