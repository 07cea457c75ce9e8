import TokenStream.Proofs.Dump.Reload
/-!
Why and where the reader stops. It reads item after item until one of them is refused, so an error
is that of one item, met in a state that all items before it have led to. Such a state holds a valid
chain: no step of the reader breaks a contract of the chain, and the check at the end finds nothing.
-/
namespace TokenStream.Dump

open Chain
open Text (IsWord)

/-- The errors that an item of a dump can be refused with. -/
inductive Raises : Item × Nat → Error → Prop
  | unknownFile {name : List Char} {number : Nat} :
      Raises (.header name, number) (.unknownFile number (String.ofList name))
  | badLineMarker {word : List Char} {number : Nat} :
      Raises (.marker word, number) (.badLineMarker number (String.ofList word))
  | tooManyTokens {word : List Char} {number : Nat} :
      Raises (.token word, number) .tooManyTokens
  | badVarId {word : List Char} {number : Nat} :
      Raises (.token word, number) (.badVarId number (String.ofList word))
  | nestingTooDeep {word : List Char} {number : Nat} :
      Raises (.token word, number) (.nestingTooDeep number)
  | unbalancedBracket {word : List Char} {number : Nat} {text : String} {varId : UInt32} :
      readToken number word = .ok (text, varId) →
      Raises (.token word, number) (.unbalancedBracket number text)

section
variable {names : Names} {options : Options} {s : State} {order : List Handle} {read : List Token}
  {stack : List Bracket} {number : Nat}

/-! ### One item -/

theorem readFile_refused {name : List Char} {f : Failure}
    (failed : readFile names number name = .error f) :
    f = .refused (.unknownFile number (String.ofList name)) := by
  unfold readFile at failed
  dsimp only at failed
  split at failed
  · cases failed
  · split at failed
    · cases failed
    · exact (Except.error.inj failed).symm

theorem readMarker_refused {word : List Char} {f : Failure}
    (failed : readMarker number word = .error f) :
    f = .refused (.badLineMarker number (String.ofList word)) := by
  unfold readMarker at failed
  split at failed
  · cases failed
  · split at failed
    · cases failed
    · exact (Except.error.inj failed).symm

theorem readToken_refused {word : List Char} {f : Failure}
    (failed : readToken number word = .error f) :
    f = .refused (.badVarId number (String.ofList word)) := by
  unfold readToken at failed
  split at failed
  · cases failed
  · split at failed
    · cases failed
    · exact (Except.error.inj failed).symm

theorem trackBracket_refused (loaded : Loaded s order read stack) {x : Handle} (mem : x ∈ order)
    (last : ∀ o ∈ s.openers, o.handle ≠ x) {text : String} {f : Failure}
    (failed : trackBracket number x text s = .error f) :
    f = .refused (.nestingTooDeep number) ∨ f = .refused (.unbalancedBracket number text) := by
  rcases bracket_cases text with ⟨b, rfl⟩ | ⟨b, rfl⟩ | other
  · rw [trackBracket_opening] at failed
    split at failed
    · exact .inl (Except.error.inj failed).symm
    · cases failed
  · cases openers : s.openers with
    | nil =>
        rw [trackBracket_closing_nil number x b openers] at failed
        exact .inr (Except.error.inj failed).symm
    | cons o rest =>
        obtain ⟨_, t, waiting, -⟩ := exists_opens loaded.opens o (by simp [openers])
        rw [trackBracket_closing_cons number x b openers waiting] at failed
        split at failed
        next fits =>
          -- opener and closer are two live nodes, so they can be linked
          rw [openers] at last
          have live := loaded.handles o (by simp [openers])
          obtain ⟨d, ok, -⟩ := linkPair_ok loaded.valid (last o List.mem_cons_self) live mem
          rw [ok] at failed
          cases failed
        next => exact .inr (Except.error.inj failed).symm
  · rw [trackBracket_plain other] at failed
    cases failed

theorem readWord_refused (loaded : Loaded s order read stack) {word : List Char}
    (isWord : IsWord word) {f : Failure} (failed : readWord options number s word = .error f) :
    ∃ e, f = .refused e ∧ Raises (.token word, number) e ∧
      (e = .tooManyTokens ↔ Limits.dumpTokens ≤ read.length) := by
  by_cases full : Limits.dumpTokens ≤ read.length
  · rw [readWord, loaded.live_eq, if_pos full] at failed
    exact ⟨.tooManyTokens, (Except.error.inj failed).symm, .tooManyTokens, iff_of_true rfl full⟩
  have open_ : ¬ Limits.dumpTokens ≤ s.chain.live := loaded.live_eq ▸ full
  cases token : readToken number word with
  | error g =>
      simp only [readWord, if_neg open_, token] at failed
      cases failed
      refine ⟨_, readToken_refused token, .badVarId, iff_of_false (by rintro ⟨⟩) full⟩
  | ok parts =>
      obtain ⟨text, varId⟩ := parts
      have nonempty : text ≠ "" := by
        rintro rfl
        exact (isWord_of_readToken token isWord).nonempty rfl
      obtain ⟨t, x, step, loadedT, new, -, -, openers, -⟩ :=
        readWord_eq options loaded (Nat.not_le.1 full) token nonempty
      rw [step] at failed
      split at failed
      next =>
        have last : ∀ o ∈ t.openers, o.handle ≠ x := openers ▸ loaded.openers_ne new
        have mem : x ∈ order ++ [x] := List.mem_append_right order List.mem_cons_self
        rcases trackBracket_refused loadedT mem last failed with deep | unbalanced
        · exact ⟨_, deep, .nestingTooDeep, iff_of_false (by rintro ⟨⟩) full⟩
        · exact ⟨_, unbalanced, .unbalancedBracket token,
            iff_of_false (by rintro ⟨⟩) full⟩
      next => cases failed

theorem moveTo_refused {item : Item × Nat} {place : Place} {f : Failure}
    (failed : moveTo names place item = .error f) :
    ∃ e, f = .refused e ∧ Raises item e ∧ e ≠ .tooManyTokens := by
  obtain ⟨kind, number⟩ := item
  cases kind with
  | header name =>
      cases file : readFile names number name with
      | ok found =>
          rw [moveTo, file] at failed
          cases failed
      | error g =>
          rw [moveTo, file] at failed
          cases failed
          exact ⟨_, readFile_refused file, .unknownFile, by rintro ⟨⟩⟩
  | marker word =>
      cases mark : readMarker number word with
      | ok line =>
          rw [moveTo, mark] at failed
          cases failed
      | error g =>
          rw [moveTo, mark] at failed
          cases failed
          exact ⟨_, readMarker_refused mark, .badLineMarker, by rintro ⟨⟩⟩
  | token word => cases failed

theorem readItem_refused (loaded : Loaded s order read stack) {item : Item × Nat}
    (words : ∀ w n, item = (.token w, n) → IsWord w) {f : Failure}
    (failed : readItem names options s item = .error f) :
    ∃ e, f = .refused e ∧ Raises item e ∧
      (e = .tooManyTokens ↔
        (tokenLine? item).isSome = true ∧ Limits.dumpTokens ≤ read.length) := by
  by_cases word : ∃ word number, item = (.token word, number)
  · obtain ⟨word, number, rfl⟩ := word
    obtain ⟨e, refused, raises, full⟩ :=
      readWord_refused loaded (words word number rfl) failed
    exact ⟨e, refused, raises, full.trans (and_iff_right rfl).symm⟩
  · have other : ∀ w, item.1 ≠ .token w := fun w same => word ⟨w, item.2, Prod.ext same rfl⟩
    rw [readItem_of_move names options other] at failed
    cases moved : moveTo names s.place item with
    | ok place =>
        rw [moved] at failed
        cases failed
    | error g =>
        rw [moved] at failed
        cases failed
        obtain ⟨e, refused, raises, room⟩ := moveTo_refused moved
        refine ⟨e, refused, raises, iff_of_false room ?_⟩
        rintro ⟨isToken, -⟩
        obtain ⟨kind, number⟩ := item
        cases kind with
        | token w => exact other w rfl
        | header name => cases isToken
        | marker w => cases isToken

/-! ### A whole run -/

/-- A fold fails where it meets the first element that its step fails on. -/
theorem foldlM_eq_error_iff {σ α ε : Type} {step : σ → α → Except ε σ} {l : List α} {s : σ}
    {e : ε} :
    l.foldlM step s = .error e ↔
      ∃ before x after t, l = before ++ x :: after ∧ before.foldlM step s = .ok t ∧
        step t x = .error e := by
  constructor
  · intro failed
    induction l generalizing s with
    | nil => cases failed
    | cons a l ih =>
        rw [List.foldlM_cons] at failed
        cases first : step s a with
        | error e' =>
            rw [first] at failed
            cases failed
            exact ⟨[], a, l, s, rfl, rfl, first⟩
        | ok s₁ =>
            rw [first] at failed
            obtain ⟨before, x, after, t, rfl, run, stop⟩ := ih failed
            refine ⟨a :: before, x, after, t, rfl, ?_, stop⟩
            rw [List.foldlM_cons, first]
            exact run
  · rintro ⟨before, x, after, t, rfl, run, stop⟩
    rw [List.foldlM_append, run, ok_bind, List.foldlM_cons, stop]
    rfl

/-- What the reader has read holds one token for each item that is one. -/
theorem exists_loaded {before : List (Item × Nat)}
    (run : before.foldlM (readItem names options) .start = .ok s) :
    ∃ order read stack, Loaded s order read stack ∧
      read.length = (before.filterMap tokenLine?).length ∧ read.length ≤ Limits.dumpTokens := by
  obtain ⟨order, more, stack, reads, loaded, few, -⟩ :=
    loaded_start.exists_reads (Nat.zero_le _) run
  refine ⟨order, more.map Prod.fst, stack, loaded, ?_, ?_⟩
  · rw [← reads.lines, List.length_map, List.length_map]
  · rw [List.length_map]
    simpa using few

theorem exists_refused {text : String} {f : Failure}
    (failed : (items text).foldlM (readItem names options) .start = .error f) :
    ∃ before item after s e, items text = before ++ item :: after ∧
      before.foldlM (readItem names options) .start = .ok s ∧ f = .refused e ∧ Raises item e ∧
      (e = .tooManyTokens ↔ (tokenLine? item).isSome = true ∧
        (before.filterMap tokenLine?).length = Limits.dumpTokens) := by
  obtain ⟨before, item, after, s, split, run, stop⟩ := foldlM_eq_error_iff.1 failed
  obtain ⟨order, read, stack, loaded, count, room⟩ := exists_loaded run
  have words : ∀ w n, item = (.token w, n) → IsWord w := by
    rintro w n rfl
    have mem : (Item.token w, n) ∈ items text := by simp [split]
    exact isWord_of_mem_items mem
  obtain ⟨e, refused, raises, full⟩ := readItem_refused loaded words stop
  refine ⟨before, item, after, s, e, split, run, refused, raises, full.trans ?_⟩
  rw [← count]
  exact and_congr_right fun _ => ⟨fun enough => Nat.le_antisymm room enough, fun same => same.ge⟩

/-- How reading ends: with the state after all items, or with the first of them that is refused. -/
theorem parse_cases {text : String} (few : (Text.lines text.toList).length < UInt32.size)
    (names : Names) (options : Options) :
    (∃ s order read stack, Loaded s order read stack ∧ read.length ≤ Limits.dumpTokens ∧
      (items text).foldlM (readItem names options) .start = .ok s ∧
      parse text names options = finish options s) ∨
    ∃ before item after s e, items text = before ++ item :: after ∧
      before.foldlM (readItem names options) .start = .ok s ∧
      parse text names options = .error (.refused e) ∧ Raises item e ∧
      (e = .tooManyTokens ↔ (tokenLine? item).isSome = true ∧
        (before.filterMap tokenLine?).length = Limits.dumpTokens) := by
  rw [parse_eq few]
  cases run : (items text).foldlM (readItem names options) .start with
  | ok s =>
      obtain ⟨order, read, stack, loaded, -, room⟩ := exists_loaded run
      exact .inl ⟨s, order, read, stack, loaded, room, rfl, rfl⟩
  | error f =>
      obtain ⟨before, item, after, s, e, split, start, rfl, raises, full⟩ := exists_refused run
      exact .inr ⟨before, item, after, s, e, split, start, rfl, raises, full⟩

theorem readItem_unchecked (check : Bool) :
    readItem names { options with validate := check } = readItem names options := by
  funext s item
  obtain ⟨kind, number⟩ := item
  cases kind <;> rfl

theorem parse_unchecked {text : String} (few : (Text.lines text.toList).length < UInt32.size)
    (names : Names) (options : Options) (check : Bool) :
    parse text names { options with validate := check } = parse text names options := by
  rw [parse_eq few, parse_eq few, readItem_unchecked]
  cases run : (items text).foldlM (readItem names options) .start with
  | error f => rfl
  | ok s =>
      obtain ⟨order, read, stack, loaded, -, -⟩ := exists_loaded run
      rw [ok_bind, ok_bind]
      rcases loaded.finish_cases with ⟨-, done⟩ | ⟨line, b, refused⟩
      · rw [done, done]
      · rw [refused, refused]

theorem parse_of_full {text : String} (few : (Text.lines text.toList).length < UInt32.size)
    {before after : List (Item × Nat)} {word : List Char}
    (split : items text = before ++ (.token word, number) :: after)
    (run : before.foldlM (readItem names options) .start = .ok s)
    (full : (before.filterMap tokenLine?).length = Limits.dumpTokens) :
    parse text names options = .error (.refused .tooManyTokens) := by
  obtain ⟨order, read, stack, loaded, count, -⟩ := exists_loaded run
  have stop : readItem names options s (.token word, number) =
      .error (.refused .tooManyTokens) := by
    rw [readItem, moveTo, ok_bind]
    show readWord options number s word = _
    rw [readWord, loaded.live_eq, if_pos (count.trans full).ge]
    rfl
  rw [parse_eq few, foldlM_eq_error_iff.2 ⟨before, _, after, s, split, run, stop⟩]
  rfl

/-- Reading ends with a chain in order and within the limit, or is refused for a reason that the
dump itself gives. -/
theorem parse_outcome {text : String} (few : (Text.lines text.toList).length < UInt32.size)
    (names : Names) (options : Options) :
    (∃ c, parse text names options = .ok c ∧ c.live ≤ Limits.dumpTokens ∧ c.validate = .ok ()) ∨
    ∃ e, parse text names options = .error (.refused e) ∧ (∀ v, e ≠ .invalidChain v) ∧
      (e = .tooManyTokens →
        ∃ before word number after s, items text = before ++ (.token word, number) :: after ∧
          before.foldlM (readItem names options) .start = .ok s ∧
          (before.filterMap tokenLine?).length = Limits.dumpTokens) := by
  rcases parse_cases few names options with
    ⟨s, order, read, stack, loaded, room, -, ended⟩ |
      ⟨before, item, after, s, e, split, run, refused, raises, full⟩
  · rcases loaded.finish_cases with ⟨-, done⟩ | ⟨line, b, refused⟩
    · exact .inl ⟨s.chain, ended.trans (done options), loaded.live_eq.trans_le room,
        validate_of_sound loaded.valid.stored.live_eq loaded.valid.sound⟩
    · exact .inr ⟨_, ended.trans (refused options), by rintro v ⟨⟩, by rintro ⟨⟩⟩
  · refine .inr ⟨e, refused, ?_, fun limit => ?_⟩
    · rintro v rfl
      cases raises
    · obtain ⟨isToken, count⟩ := full.1 limit
      obtain ⟨kind, number⟩ := item
      cases kind with
      | token word => exact ⟨before, word, number, after, s, split, run, count⟩
      | header name => cases isToken
      | marker word => cases isToken

/-- Reading a dump whose lines can be numbered breaks no contract of the chain, and the check at the
end of it has no effect. The chain is within the limit, and reading stops at the limit exactly if
one more word comes after as many have been read. -/
theorem parse_safe {text : String} (few : (Text.lines text.toList).length < UInt32.size)
    (names : Names) (options : Options) :
    (∀ f, parse text names options ≠ .error (.fault f)) ∧
    (∀ v, parse text names options ≠ .error (.refused (.invalidChain v))) ∧
    (∀ check, parse text names { options with validate := check } = parse text names options) ∧
    (∀ c, parse text names options = .ok c →
      c.live ≤ Limits.dumpTokens ∧ c.validate = .ok ()) ∧
    (parse text names options = .error (.refused .tooManyTokens) ↔
      ∃ before word number after s, items text = before ++ (.token word, number) :: after ∧
        before.foldlM (readItem names options) .start = .ok s ∧
        (before.filterMap tokenLine?).length = Limits.dumpTokens) := by
  have stops : (∃ before word number after s,
      items text = before ++ (.token word, number) :: after ∧
        before.foldlM (readItem names options) .start = .ok s ∧
        (before.filterMap tokenLine?).length = Limits.dumpTokens) →
      parse text names options = .error (.refused .tooManyTokens) := by
    rintro ⟨before, word, number, after, s, split, run, full⟩
    exact parse_of_full few split run full
  have unchecked := parse_unchecked few names options
  rcases parse_outcome few names options with ⟨c, ok, room, checked⟩ | ⟨e, refused, valid, limit⟩
  · rw [ok] at stops ⊢
    refine ⟨by rintro f ⟨⟩, by rintro v ⟨⟩, ?_, ?_, ?_⟩
    · intro check
      rw [unchecked, ok]
    · rintro _ ⟨⟩
      exact ⟨room, checked⟩
    · exact ⟨by rintro ⟨⟩, stops⟩
  · rw [refused] at stops ⊢
    refine ⟨by rintro f ⟨⟩, ?_, ?_, by rintro c ⟨⟩, ?_⟩
    · rintro v ⟨⟩
      exact valid v rfl
    · intro check
      rw [unchecked, refused]
    · refine ⟨?_, stops⟩
      rintro ⟨⟩
      exact limit rfl

end

-- Words with and without an identity, a marker and brackets, read with the check and without it.
theorem call_read_unchecked :
    ∃ c, parse "3: f@7 (\n@ )" none {} = .ok c ∧ c.validate = .ok () ∧
      parse "3: f@7 (\n@ )" none { validate := false } = .ok c := by
  have few : (Text.lines "3: f@7 (\n@ )".toList).length < UInt32.size := by decide
  obtain ⟨-, -, unchecked, within, -⟩ := parse_safe few none {}
  obtain ⟨c, read⟩ : ∃ c, parse "3: f@7 (\n@ )" none {} = .ok c := ⟨_, rfl⟩
  exact ⟨c, read, (within c read).2, (unchecked false).trans read⟩

end TokenStream.Dump
