import TokenStream.Pattern.Alternatives
import TokenStream.Text.Cells
/-!
A comparison with alternatives is a question about a list of texts: is the text one of them, and if
not, is one of them empty? The list is what stands between the bars, up to the first space or null
character. The scan, which starts the text again at every bar, answers just that for any text that
could be one of the list.
-/
namespace TokenStream.Pattern

/-! ### The list of alternatives -/

/-- Where a list of alternatives ends. -/
def closes (c : Char) : Bool :=
  c == ' ' || c == '\x00'

/-- The alternatives that a text starts with. -/
def alternatives (s : List Char) : List (List Char) :=
  Text.cells (· == '|') (s.takeWhile (!closes ·))

theorem alternatives_nil : alternatives [] = [[]] := rfl

theorem alternatives_close {h : Char} (close : closes h = true) (s : List Char) :
    alternatives (h :: s) = [[]] := by
  rw [alternatives, List.takeWhile_cons_of_neg (by simpa using close)]
  rfl

theorem alternatives_bar (s : List Char) : alternatives ('|' :: s) = [] :: alternatives s := by
  rw [alternatives, List.takeWhile_cons_of_pos (by decide), Text.cells_cons, if_pos (by decide)]
  rfl

theorem alternatives_cons {h : Char} (inside : closes h = false) (bar : h ≠ '|')
    {s here : List Char} {later : List (List Char)} (rest : alternatives s = here :: later) :
    alternatives (h :: s) = (h :: here) :: later := by
  rw [alternatives, List.takeWhile_cons_of_pos (by simpa using inside), Text.cells_cons,
    if_neg (by simpa using bar)]
  exact congrArg (List.modifyHead (h :: ·)) rest

/-- A text that has nothing in it that could end it among others. -/
structure Separable (text : List Char) : Prop where
  nonempty : text ≠ []
  space : ' ' ∉ text
  bar : '|' ∉ text
  null : '\x00' ∉ text

variable {text : List Char}

/-- The comparison that two answers decide: whether the text is listed, and whether an empty one
is. -/
def outcome (hit empty : Prop) [Decidable hit] [Decidable empty] : Comparison :=
  if hit then .hit else if empty then .emptyAlternative else .miss

theorem outcome_congr {hit hit' empty empty' : Prop} [Decidable hit] [Decidable hit']
    [Decidable empty] [Decidable empty'] (hits : hit ↔ hit') (empties : empty ↔ empty') :
    outcome hit empty = outcome hit' empty' := by
  simp only [outcome, hits, empties]

/-! ### The scan -/

namespace Scan

/-- The states of a scan for this text. What is pending is the rest of it, and at the start of an
alternative all of it. -/
def For (text : List Char) : Scan → Prop
  | .skip => True
  | .follow pending whole => pending <:+ text ∧ (whole = true → pending = text)

/-- What a scan comes to where `here` is left of an alternative and `later` are those after it. An
alternative that is skipped does not count. -/
def answer (text : List Char) (seen : Bool) (here : List Char) (later : List (List Char)) :
    Scan → Comparison
  | .skip => outcome (text ∈ later) (seen = true ∨ [] ∈ later)
  | .follow pending whole =>
    outcome (here = pending ∨ text ∈ later)
      (seen = true ∨ (whole = true ∧ here = []) ∨ [] ∈ later)

theorem for_skip (text : List Char) : For text .skip := trivial

theorem for_start (text : List Char) : For text (.follow text true) :=
  ⟨List.suffix_refl text, fun _ => rfl⟩

variable {pending here : List Char} {later : List (List Char)}

theorem answer_skip_bar (seen : Bool) :
    answer text seen [] (here :: later) .skip =
      answer text seen here later (.follow text true) := by
  refine outcome_congr ?_ ?_
  · rw [List.mem_cons, eq_comm]
  · simp only [List.mem_cons, List.nil_eq, true_and]

theorem answer_follow_bar (seen whole : Bool) (left : pending ≠ []) :
    answer text seen [] (here :: later) (.follow pending whole) =
      answer text (seen || whole) here later (.follow text true) := by
  refine outcome_congr ?_ ?_
  · simp only [left, false_or, List.mem_cons, eq_comm]
  · simp only [Bool.or_eq_true, List.mem_cons, List.nil_eq, and_true, true_and, or_assoc]

theorem answer_follow_cons (h : Char) (seen whole : Bool) :
    answer text seen (h :: here) later (.follow (h :: pending) whole) =
      answer text seen here later (.follow pending false) := by
  refine outcome_congr ?_ ?_
  · rw [List.cons.injEq, and_iff_right rfl]
  · simp

theorem answer_skip_cons {h : Char} (seen whole : Bool) (differs : pending.head? ≠ some h) :
    answer text seen (h :: here) later (.follow pending whole) =
      answer text seen here later .skip := by
  have ne : ¬ h :: here = pending := by
    rintro rfl
    exact differs rfl
  refine outcome_congr ?_ ?_
  · rw [or_iff_right ne]
  · simp

end Scan

section
variable (separable : Separable text) (seen : Bool)
include separable

/-- Nothing but its end exhausts a part of the text. -/
theorem exhausted_iff {pending : List Char} (part : pending <:+ text) :
    exhausted pending = true ↔ pending = [] := by
  cases pending with
  | nil => simp [exhausted]
  | cons c pending =>
      have ne : c ≠ '\x00' := by
        rintro rfl
        exact separable.null (part.subset List.mem_cons_self)
      simpa [exhausted] using ne

theorem scanFrom_nil {scan : Scan} (state : scan.For text) :
    scanFrom text seen scan [] = scan.answer text seen [] [] := by
  cases scan with
  | skip => simp [scanFrom, Scan.answer, outcome, withoutHit]
  | follow pending whole =>
      simp only [scanFrom, exhausted_iff separable state.1]
      cases whole <;> simp [Scan.answer, outcome, withoutHit, eq_comm]

/-- What closes the alternatives is as good as the end. -/
theorem scanFrom_close {scan : Scan} (state : scan.For text) {h : Char} (close : closes h = true)
    (s : List Char) : scanFrom text seen scan (h :: s) = scanFrom text seen scan [] := by
  have ends : h = ' ' ∨ h = '\x00' := by simpa [closes] using close
  have bar : h ≠ '|' := by
    rintro rfl
    exact absurd close (by decide)
  cases scan with
  | skip => simp only [scanFrom, if_pos ends]
  | follow pending whole =>
      obtain ⟨part, all⟩ := state
      have other : ¬ (h ≠ '\x00' ∧ pending.head? = some h) := by
        rintro ⟨ne, first⟩
        obtain rfl := ends.resolve_right ne
        exact separable.space (part.subset (List.mem_of_head? first))
      simp only [scanFrom, if_neg other, if_neg bar, if_pos ends, exhausted_iff separable part]
      by_cases done : pending = []
      · have within : ¬ whole = true := fun start =>
          separable.nonempty ((all start).symm.trans done)
        simp [done, within]
      · simp [done]

/-- A bar ends one alternative, which is a hit if nothing of the text is left. The next starts. -/
theorem scanFrom_bar {pending : List Char} (part : pending <:+ text) (whole : Bool)
    (s : List Char) :
    scanFrom text seen (.follow pending whole) ('|' :: s) =
      if pending = [] then .hit else scanFrom text (seen || whole) (.follow text true) s := by
  have other : pending.head? ≠ some '|' := by
    intro first
    exact separable.bar (part.subset (List.mem_of_head? first))
  have null : ¬ ('|' : Char) = '\x00' := by decide
  simp only [scanFrom, other, null, exhausted_iff separable part, and_false, false_and, if_false,
    if_true]

omit separable in
/-- Any other character is followed if the text goes on with it. -/
theorem scanFrom_follow {h : Char} (inside : closes h = false) (bar : h ≠ '|')
    (pending : List Char) (whole : Bool) (s : List Char) :
    scanFrom text seen (.follow pending whole) (h :: s) =
      if pending.head? = some h then scanFrom text seen (.follow pending.tail false) s
      else scanFrom text seen .skip s := by
  obtain ⟨space, null⟩ : h ≠ ' ' ∧ h ≠ '\x00' := by simpa [closes] using inside
  simp only [scanFrom, ne_eq, null, space, bar, not_false_eq_true, true_and, false_and, or_self,
    if_false]

omit separable in
theorem scanFrom_skip {h : Char} (inside : closes h = false) (bar : h ≠ '|') (s : List Char) :
    scanFrom text seen .skip (h :: s) = scanFrom text seen .skip s := by
  obtain ⟨space, null⟩ : h ≠ ' ' ∧ h ≠ '\x00' := by simpa [closes] using inside
  simp only [scanFrom, null, space, bar, or_self, if_false]

/-- From any state on, the scan comes to what the list of alternatives says. -/
theorem scanFrom_eq {scan : Scan} (state : scan.For text) {s here : List Char}
    {later : List (List Char)} (cut : alternatives s = here :: later) :
    scanFrom text seen scan s = scan.answer text seen here later := by
  induction s generalizing seen scan here later with
  | nil =>
      rw [alternatives_nil] at cut
      cases cut
      exact scanFrom_nil separable seen state
  | cons h s ih =>
      obtain ⟨next, rest, tail⟩ : ∃ next rest, alternatives s = next :: rest :=
        List.exists_cons_of_ne_nil (Text.cells_ne_nil _ _)
      have start (seen : Bool) : scanFrom text seen (.follow text true) s =
          Scan.answer text seen next rest (.follow text true) := ih seen (Scan.for_start text) tail
      have skipped : scanFrom text seen .skip s = Scan.answer text seen next rest .skip :=
        ih seen (Scan.for_skip text) tail
      by_cases close : closes h = true
      · rw [alternatives_close close] at cut
        cases cut
        rw [scanFrom_close separable seen state close, scanFrom_nil separable seen state]
      rw [Bool.not_eq_true] at close
      by_cases bar : h = '|'
      · subst bar
        rw [alternatives_bar, tail] at cut
        cases cut
        cases scan with
        | skip =>
            rw [Scan.answer_skip_bar, ← start]
            rfl
        | follow pending whole =>
            rw [scanFrom_bar separable seen state.1]
            by_cases done : pending = []
            · simp [done, Scan.answer, outcome]
            · rw [if_neg done, start, Scan.answer_follow_bar seen whole done]
      · rw [alternatives_cons close bar tail] at cut
        cases cut
        cases scan with
        | skip => exact (scanFrom_skip seen close bar s).trans skipped
        | follow pending whole =>
            rw [scanFrom_follow seen close bar]
            by_cases first : pending.head? = some h
            · obtain ⟨pending, rfl⟩ := List.head?_eq_some_iff.1 first
              have part : pending <:+ text := (List.suffix_cons h pending).trans state.1
              have within : Scan.For text (.follow pending false) := ⟨part, fun no => nomatch no⟩
              rw [if_pos first, List.tail_cons, ih seen within tail, Scan.answer_follow_cons]
            · rw [if_neg first, skipped, Scan.answer_skip_cons seen whole first]

end

/-- Comparing a text with alternatives tells whether it is listed among them, and if not, whether an
empty one is. -/
theorem compareAlternatives_exact (separable : Separable text) (s : List Char) :
    compareAlternatives s text =
      if text ∈ alternatives s then .hit
      else if [] ∈ alternatives s then .emptyAlternative else .miss := by
  obtain ⟨here, later, cut⟩ : ∃ here later, alternatives s = here :: later :=
    List.exists_cons_of_ne_nil (Text.cells_ne_nil _ _)
  rw [compareAlternatives, scanFrom_eq separable false (Scan.for_start text) cut, cut]
  refine outcome_congr ?_ ?_
  · rw [List.mem_cons, eq_comm]
  · simp only [Bool.false_eq_true, false_or, true_and, List.mem_cons, List.nil_eq]

-- The text may end an alternative, or come after the space, where it is none.
theorem type_listed : Separable "long".toList ∧
    compareAlternatives "int|long| x".toList "long".toList = .hit ∧
    compareAlternatives "int|long| x".toList "x".toList = .emptyAlternative := by
  have long : Separable "long".toList := ⟨by decide, by decide, by decide, by decide⟩
  have name : Separable "x".toList := ⟨by decide, by decide, by decide, by decide⟩
  refine ⟨long, ?_, ?_⟩
  · rw [compareAlternatives_exact long]
    decide
  · rw [compareAlternatives_exact name]
    decide

end TokenStream.Pattern
