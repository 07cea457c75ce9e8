import TokenStream.Proofs.Dump.Link
import TokenStream.Proofs.Dump.RoundTrip
/-!
A chain that was loaded from a dump, written and loaded again. What the reader accepts the writer
writes in a form of its own, so tokens, files, lines and brackets come back the same. One form of
token does not come back: the writer leaves out an identity of zero, and if the text before it ends
in an at sign and a number, the reader takes that number for the identity.
-/
namespace TokenStream.Dump

open Chain
open Text (IsWord blankWords)

/-- A token with no variable identity that looks as if it had one. -/
def Ambiguous (t : Token) : Prop :=
  t.varId = 0 ∧ ∃ before digits, t.text.toList = before ++ '@' :: digits ∧ before ≠ [] ∧
    Text.isDigits digits = true

/-! ### Words that were read -/

theorem isWord_of_mem_lineItems {line w : List Char} (mem : .token w ∈ lineItems line) :
    IsWord w := by
  have part : w ∈ blankWords line := by
    unfold lineItems at mem
    split at mem
    next => cases mem
    next first rest words =>
      rw [words]
      split_ifs at mem
      · cases mem
      all_goals
        simp only [List.mem_cons, List.mem_map, reduceCtorEq, false_or, Item.token.injEq,
          exists_eq_right] at mem
      · exact List.mem_cons_of_mem _ (List.mem_of_mem_tail mem)
      · exact List.mem_cons_of_mem _ mem
      · exact List.mem_cons.2 mem
  obtain ⟨nonempty, solid⟩ := Text.mem_blankWords part
  exact ⟨nonempty, solid⟩

theorem isWord_of_mem_items {text : String} {w : List Char} {number : Nat}
    (mem : (.token w, number) ∈ items text) : IsWord w := by
  obtain ⟨⟨line, n⟩, -, inside⟩ := List.mem_flatMap.1 mem
  obtain ⟨item, listed, same⟩ := List.mem_map.1 inside
  cases same
  exact isWord_of_mem_lineItems listed

theorem isWord_of_readToken {number : Nat} {w : List Char} {text : String} {varId : UInt32}
    (read : readToken number w = .ok (text, varId)) (word : IsWord w) : IsWord text.toList := by
  unfold readToken at read
  split at read
  next =>
    cases read
    rwa [String.toList_ofList]
  next before digits cut =>
    obtain ⟨rfl, nonempty, -⟩ := cutVarId?_eq_some_iff.1 cut
    split at read
    next =>
      cases read
      rw [String.toList_ofList]
      exact ⟨nonempty, fun c mem => word.solid c (List.mem_append_left _ mem)⟩
    next => cases read

theorem Reads.isWord {names : Names} {place final : Place} {items : List (Item × Nat)}
    {more : List (Token × Nat)} (reads : Reads names place items final more)
    (words : ∀ w number, (.token w, number) ∈ items → IsWord w) :
    ∀ t ∈ more.map Prod.fst, IsWord t.text.toList := by
  induction reads with
  | done => simp
  | moved _ _ _ ih =>
      exact ih fun w number mem => words w number (List.mem_cons_of_mem _ mem)
  | token _ read _ ih =>
      intro t mem
      rcases List.mem_cons.1 mem with rfl | mem
      · exact isWord_of_readToken read (words _ _ List.mem_cons_self)
      · exact ih (fun w number mem => words w number (List.mem_cons_of_mem _ mem)) t mem

theorem writable_of_isWord {t : Token} (word : IsWord t.text.toList) (clear : ¬ Ambiguous t) :
    Writable t where
  word := word
  unmarked unnamed before digits shape nonempty := by
    refine Bool.eq_false_iff.2 fun number => ?_
    exact clear ⟨unnamed, before, digits, shape, nonempty, number⟩

end TokenStream.Dump

namespace TokenStream.Chain

open Dump
open Text (IsWord)

/-- A dump that was read with links is that of a chain whose links are its brackets. -/
theorem exists_joined_of_parse {text : String} {names : Names} {options : Options} {c : Chain}
    (links : options.linkBrackets = true) (read : parse text names options = .ok c) :
    ∃ rows : List Row, Joined c rows ∧ rows.length ≤ Limits.dumpTokens ∧
      ∀ t ∈ rows.map Row.token, IsWord t.text.toList := by
  obtain ⟨order, final, more, reads, room, -, -⟩ := exists_reads_of_parse read
  obtain ⟨rows, same, outcome⟩ := parse_of_reads links (few_of_parse read) reads room
  have tokens : more.map Prod.fst = rows.map Row.token := by
    rw [← same, List.map_map]
    rfl
  have size : more.length = rows.length := by
    rw [← same, List.length_map]
  rcases outcome with ⟨d, ok, joined⟩ | ⟨e, error, -⟩
  · cases ok.symm.trans read
    refine ⟨rows, joined, by omega, ?_⟩
    rw [← tokens]
    exact reads.isWord fun w number mem => isWord_of_mem_items mem
  · cases error.symm.trans read

/-- A dump that is read, written and read again. If no token of it is ambiguous, no file goes back
to an earlier line and the lines of the new dump can be numbered, the second chain has the same
tokens as the first, and its brackets have the same partners. -/
theorem reload_stable {text : String} {c : Chain} (read : parse text none {} = .ok c) :
    ∃ order out, c.Valid order ∧ c.render c.front true none none = .ok out ∧
      let tokens := order.filterMap c.token?
      ((∀ t ∈ tokens, ¬ Ambiguous t) →
        tokens.Pairwise (fun a b => a.file = b.file → a.line ≤ b.line) →
        (Text.lines out.toList).length < UInt32.size →
        ∃ d order', parse out none {} = .ok d ∧ d.Valid order' ∧
          (order'.filterMap d.token?).map (fun t => (t.text, t.file, t.line, t.varId)) =
            tokens.map (fun t => (t.text, t.file, t.line, t.varId)) ∧
          ∀ i j, d.LinksTo order' i j ↔ c.LinksTo order i j) := by
  obtain ⟨rows, joined, short, words⟩ := exists_joined_of_parse rfl read
  refine ⟨rows.map Row.handle, _, joined.valid, render_eq joined.valid.sound none none, ?_⟩
  dsimp only
  rw [joined.tokens]
  intro clear forward few
  have texts : (rows.map Row.token).map (·.text) = rows.map Row.text := by
    rw [List.map_map]
    rfl
  have nested := joined.nested
  rw [← texts] at nested
  obtain ⟨d, order', parsed, valid, essences, lines⟩ :=
    parse_written (by simpa using short) none none {} (fun _ none_given => nomatch none_given)
      (fun t mem => writable_of_isWord (words t mem) (clear t mem)) (fun _ _ => trivial)
      (fun _ => nested) few
  obtain ⟨rows', joined', -, -⟩ := exists_joined_of_parse rfl parsed
  obtain rfl := valid.sound.unique joined'.valid.sound
  rw [joined'.tokens] at essences lines
  have same : rows'.map Row.text = rows.map Row.text := by
    have first := congrArg (List.map Prod.fst) essences
    rw [List.map_map, List.map_map, List.map_map, List.map_map] at first
    exact first
  refine ⟨d, _, parsed, valid, ?_, ?_⟩
  · have both := congrArg₂ List.zip essences (lines forward)
    rw [List.zip_map', List.zip_map'] at both
    have all := congrArg (List.map fun t => (t.1.1, t.1.2.1, t.2, t.1.2.2)) both
    rw [List.map_map, List.map_map, List.map_map, List.map_map] at all
    rw [joined'.tokens, List.map_map, List.map_map]
    exact all
  · intro i j
    rw [linksTo_iff valid (by simp) joined'.links, linksTo_iff joined.valid (by simp) joined.links,
      same]

/-- `( x )` as it is loaded, with an identity on the name. -/
def parenthesized : Chain :=
  let slot (t : Token) (varId : UInt32) (next prev link : Option Handle) : Slot :=
    { generation := 0
      node := some { token := { t with varId, line := 1 }, next, prev, link } }
  { slots := #[slot (.bare "(") 0 (some ⟨1, 0⟩) none (some ⟨2, 0⟩),
      slot (.bare "x") 3 (some ⟨2, 0⟩) (some ⟨0, 0⟩) none,
      slot (.bare ")") 0 none (some ⟨1, 0⟩) (some ⟨0, 0⟩)]
    free := []
    live := 3
    front := some ⟨0, 0⟩
    back := some ⟨2, 0⟩ }

theorem parenthesized_reloaded :
    ∃ order d order', parse "1: ( x@3 )" none {} = .ok parenthesized ∧
      parse "\n\n##file 0\n1: ( x@3 )\n" none {} = .ok d ∧ parenthesized.Valid order ∧
      d.Valid order' ∧ ∀ i j, d.LinksTo order' i j ↔ parenthesized.LinksTo order i j := by
  have read : parse "1: ( x@3 )" none {} = .ok parenthesized := rfl
  obtain ⟨order, out, valid, rendered, back⟩ := reload_stable read
  have written : parenthesized.render parenthesized.front true none none =
      .ok "\n\n##file 0\n1: ( x@3 )\n" := rfl
  cases written.symm.trans rendered
  have plain {text : String} (absent : '@' ∉ text.toList) :
      ¬ ∃ before digits, text.toList = before ++ '@' :: digits ∧ before ≠ [] ∧
        Text.isDigits digits = true := by
    rintro ⟨before, digits, shape, -⟩
    exact absent (by rw [shape]; simp)
  have token (t : Token) (mem : t ∈ order.filterMap parenthesized.token?) :
      t.line = 1 ∧ ¬ Ambiguous t := by
    obtain ⟨h, -, found⟩ := List.mem_filterMap.1 mem
    obtain ⟨n, here, rfl⟩ := exists_node_of_token found
    have slot := Array.mem_of_getElem? (node?_eq_some_iff.1 here)
    simp only [parenthesized, List.mem_toArray, List.mem_cons, Slot.mk.injEq, Option.some.injEq,
      List.not_mem_nil, or_false] at slot
    rcases slot with ⟨-, rfl⟩ | ⟨-, rfl⟩ | ⟨-, rfl⟩
    · exact ⟨rfl, fun ambiguous => plain (by decide) ambiguous.2⟩
    · exact ⟨rfl, fun ambiguous => plain (by decide) ambiguous.2⟩
    · exact ⟨rfl, fun ambiguous => plain (by decide) ambiguous.2⟩
  obtain ⟨d, order', parsed, valid', -, links⟩ :=
    back (fun t mem => (token t mem).2)
      (List.pairwise_of_forall_mem_list fun a memA b memB _ => by
        rw [(token a memA).1, (token b memB).1]
        exact UInt32.le_refl 1)
      (by decide)
  exact ⟨order, d, order', read, parsed, valid, valid', links⟩

/-- A reload takes the end of a text for the identity of zero that was not written. -/
theorem identity_of_zero_lost :
    ∃ c d out, parse "1: a@5@0" none {} = .ok c ∧ c.front = some ⟨0, 0⟩ ∧
      c.render c.front true none none = .ok out ∧ (Text.lines out.toList).length < UInt32.size ∧
      parse out none {} = .ok d ∧ d.front = some ⟨0, 0⟩ ∧
      (c.token? ⟨0, 0⟩).map (fun t => (t.text, t.varId)) = some ("a@5", 0) ∧
      (d.token? ⟨0, 0⟩).map (fun t => (t.text, t.varId)) = some ("a", 5) :=
  ⟨_, _, _, rfl, rfl, rfl, by decide, rfl, rfl, rfl, rfl⟩

end TokenStream.Chain
