import Mathlib.Data.String.Basic
import TokenStream.Dump.File
import TokenStream.Proofs.Dump.Link
import TokenStream.Proofs.Dump.Refusal
/-!
Where a dump is wrong. An error that names a line is about something that stands on this line, and
it is the first of its kind: the lines before it can be read, and what comes after it is not looked
at. A bracket that is still open at the end is the one exception, as the whole text is read before
anything is wrong with it.
-/
namespace TokenStream.Dump

open Chain
open Text (blankWords)

section
variable {names : Names} {options : Options} {s s' : State} {number k : Nat} {e : Error}
  {lines lines' before after : List (List Char)} {line line' : List Char}

/-! ### Line after line -/

/-- The words of each line of a text. -/
def wordLines (text : String) : List (List (List Char)) :=
  (Text.lines text.toList).map blankWords

theorem readLine_congr (same : blankWords line = blankWords line') :
    readLine names options s number line = readLine names options s number line' := by
  unfold readLine
  rw [same]

theorem readLines_cons :
    readLines names options number s (line :: after) =
      if UInt32.size ≤ number then .error (.fault .exhausted)
      else readLine names options s number line >>= fun t =>
        readLines names options (number + 1) t after := by
  rw [readLines]
  split <;> rfl

/-- The reader sees nothing of a text but the words of its lines. -/
theorem readLines_congr (same : lines.map blankWords = lines'.map blankWords) :
    readLines names options number s lines = readLines names options number s lines' := by
  induction lines generalizing lines' number s with
  | nil =>
      rw [List.map_nil, eq_comm, List.map_eq_nil_iff] at same
      rw [same]
  | cons line lines ih =>
      obtain ⟨line', rest, rfl, first, later⟩ := List.map_eq_cons_iff.1 same.symm
      have others (t : State) : readLines names options (number + 1) t lines =
          readLines names options (number + 1) t rest := ih later.symm
      rw [readLines_cons, readLines_cons, readLine_congr first]
      simp only [others]

theorem readLines_append :
    readLines names options number s (before ++ after) =
      readLines names options number s before >>= fun t =>
        readLines names options (number + before.length) t after := by
  induction before generalizing number s with
  | nil => rfl
  | cons line before ih =>
      have shift : number + (line :: before).length = number + 1 + before.length := by
        rw [List.length_cons]
        omega
      rw [List.cons_append, readLines_cons, readLines_cons, shift]
      split
      · rfl
      · cases readLine names options s number line with
        | error f => rfl
        | ok t => exact ih

/-- An error is that of one line, met in the state that the lines before it have led to. -/
theorem readLines_eq_refused_iff :
    readLines names options number s lines = .error (.refused e) ↔
      ∃ before line after t, lines = before ++ line :: after ∧
        readLines names options number s before = .ok t ∧ number + before.length < UInt32.size ∧
        readLine names options t (number + before.length) line = .error (.refused e) := by
  constructor
  · intro refused
    induction lines generalizing number s with
    | nil => cases refused
    | cons line lines ih =>
        rw [readLines_cons] at refused
        split at refused
        · cases refused
        next fits =>
          cases first : readLine names options s number line with
          | error f =>
              rw [first] at refused
              cases refused
              exact ⟨[], line, lines, s, rfl, rfl, Nat.not_le.1 fits, first⟩
          | ok t =>
              rw [first] at refused
              obtain ⟨before, here, after, u, rfl, read, room, stop⟩ := ih refused
              have shift : number + (line :: before).length = number + 1 + before.length := by
                rw [List.length_cons]
                omega
              refine ⟨line :: before, here, after, u, rfl, ?_, shift ▸ room, shift ▸ stop⟩
              rw [readLines_cons, if_neg fits, first]
              exact read
  · rintro ⟨before, line, after, t, rfl, read, room, stop⟩
    rw [readLines_append, read, ok_bind, readLines_cons, if_neg (Nat.not_le.2 room), stop]
    rfl

/-! ### What an error is about -/

theorem Raises.line_eq {item : Item × Nat} (raises : Raises item e) (line : e.line? = some k) :
    item.2 = k := by
  cases raises with
  | tooManyTokens => cases line
  | unknownFile | badLineMarker | badVarId | nestingTooDeep => exact Option.some.inj line
  | unbalancedBracket => exact Option.some.inj line

/-- The line that refuses to be read, with the item on it that is the reason. -/
theorem exists_stop (refused : readLines names options 1 .start lines = .error (.refused e))
    (line : e.line? = some k) :
    ∃ before here after t item, lines = before ++ here :: after ∧ k = 1 + before.length ∧
      k < UInt32.size ∧ readLines names options 1 .start before = .ok t ∧
      readLine names options t k here = .error (.refused e) ∧ item ∈ lineItems here ∧
      Raises (item, k) e := by
  obtain ⟨before, here, after, t, rfl, read, room, stop⟩ := readLines_eq_refused_iff.1 refused
  have few := few_of_readLines (by decide) read
  have run := read
  rw [readLines_eq_readAll few, readAll_eq] at run
  have inside := stop
  rw [readLine_eq] at inside
  obtain ⟨part, item, rest, u, split, step, failed⟩ := foldlM_eq_error_iff.1 inside
  -- the reader has come to the item by way of the lines before and of the words before it
  have longer {items : List (Item × Nat)}
      (run : items.foldlM (readItem names options) .start = .ok t) :
      (items ++ part).foldlM (readItem names options) .start = .ok u := by
    rw [List.foldlM_append, run]
    exact step
  obtain ⟨order, tokens, stack, loaded, -, -⟩ := exists_loaded (longer run)
  have mem : item ∈ numbered (1 + before.length) here := by simp [split]
  obtain ⟨kind, listed, rfl⟩ := List.mem_map.1 mem
  have words : ∀ w n, (kind, 1 + before.length) = (Item.token w, n) → Text.IsWord w := by
    rintro w n ⟨⟩
    exact isWord_of_mem_lineItems listed
  obtain ⟨e', same, raises, -⟩ := readItem_refused loaded words failed
  cases same
  obtain rfl : 1 + before.length = k := raises.line_eq line
  exact ⟨before, here, after, t, kind, rfl, rfl, room, read, stop, listed, raises⟩

/-! ### What is still open -/

/-- Each token that was read is that of a word among the items, and on its line. -/
theorem Reads.exists_word {place final : Place} {items : List (Item × Nat)}
    {more : List (Token × Nat)} (reads : Reads names place items final more) :
    ∀ mark ∈ more, ∃ word varId, (.token word, mark.2) ∈ items ∧
      readToken mark.2 word = .ok (mark.1.text, varId) := by
  induction reads with
  | done => simp
  | moved _ _ _ ih =>
      intro mark mem
      obtain ⟨word, varId, listed, token⟩ := ih mark mem
      exact ⟨word, varId, List.mem_cons_of_mem _ listed, token⟩
  | token _ token _ ih =>
      intro mark mem
      rcases List.mem_cons.1 mem with rfl | mem
      · exact ⟨_, _, List.mem_cons_self, token⟩
      · obtain ⟨word, varId, listed, token⟩ := ih mark mem
        exact ⟨word, varId, List.mem_cons_of_mem _ listed, token⟩

/-- What the end of the text is refused for is an opening bracket among its items. -/
theorem exists_unclosed {items : List (Item × Nat)}
    (run : items.foldlM (readItem names options) .start = .ok s)
    (refused : finish options s = .error (.refused e)) :
    ∃ (b : Bracket) (line : Nat), e = .unbalancedBracket line b.opening ∧
      ∃ item ∈ items, Raises item e := by
  obtain ⟨order, more, stack, reads, loaded, few, off⟩ :=
    loaded_start.exists_reads (Nat.zero_le _) run
  cases links : options.linkBrackets with
  | false =>
      have opens := loaded.opens
      rw [off links] at opens
      have done := loaded.finish_nil (List.forall₂_nil_right_iff.1 opens) options
      cases done.symm.trans refused
  | true =>
      obtain ⟨rows, same, ⟨t, ok, -, linked⟩ | ⟨e', failed, -⟩⟩ :=
        linked_start.run links reads rfl (by simpa using few)
      · cases ok.symm.trans run
        rcases linked.finish options with ⟨done, -⟩ | ⟨b, line, open_, ended, leaves⟩
        · cases done.symm.trans refused
        cases ended.symm.trans refused
        obtain ⟨before, inner, marks, -⟩ := leaves.exists_opened
        have mem : (b.opening, line) ∈ ([] ++ rows).map Row.mark :=
          marks ▸ List.mem_append_right before List.mem_cons_self
        obtain ⟨row, listed, mark⟩ := List.mem_map.1 mem
        obtain ⟨text, here⟩ := Prod.mk.inj mark
        have read : (row.token, row.line) ∈ more := same ▸ List.mem_map_of_mem listed
        obtain ⟨word, varId, inside, token⟩ := reads.exists_word _ read
        refine ⟨b, line, rfl, _, inside, ?_⟩
        rw [← text, ← here]
        exact .unbalancedBracket token
      · cases failed.symm.trans run

/-- Where the whole text was read, the error is about a bracket on one of its lines. -/
theorem exists_opening (read : readLines names options 1 .start lines = .ok s)
    (refused : finish options s = .error (.refused e)) (line : e.line? = some k) :
    ∃ b here item, e = .unbalancedBracket k (Bracket.opening b) ∧ 1 ≤ k ∧
      lines[k - 1]? = some here ∧ item ∈ lineItems here ∧ Raises (item, k) e := by
  have few := few_of_readLines (by decide) read
  rw [readLines_eq_readAll few, readAll_eq] at read
  obtain ⟨b, number, rfl, item, mem, raises⟩ := exists_unclosed read refused
  obtain rfl : number = k := Option.some.inj line
  obtain ⟨⟨here, number⟩, counted, inside⟩ := List.mem_flatMap.1 mem
  obtain ⟨kind, listed, rfl⟩ := List.mem_map.1 inside
  obtain rfl := raises.line_eq rfl
  obtain ⟨first, place⟩ := List.mk_mem_zipIdx_iff_le_and_getElem?_sub.1 counted
  exact ⟨b, here, kind, rfl, first, place, listed, raises⟩

end

/-! ### The first fault -/

/-- Text with the first lines of another one only, each with its newline. -/
def firstLines (n : Nat) (text : String) : String :=
  String.ofList (((Text.lines text.toList).take n).flatMap (· ++ ['\n']))

theorem lines_flatMap {lines : List (List Char)} (single : ∀ line ∈ lines, '\n' ∉ line) :
    Text.lines (lines.flatMap (· ++ ['\n'])) = lines := by
  have cut : Text.cells (· == '\n') (lines.flatMap (· ++ ['\n'])) = lines ++ [[]] := by
    induction lines with
    | nil => rfl
    | cons line lines ih =>
        have rest := ih fun line mem => single line (List.mem_cons_of_mem _ mem)
        rw [List.flatMap_cons, List.append_assoc, List.singleton_append,
          Text.cells_append_sep (by decide), rest,
          Text.cells_of_no_sep (no_newline (single line List.mem_cons_self))]
        rfl
  rw [Text.lines, cut, List.reverse_append]
  simp

theorem mem_cells_of_mem_lines {text line : List Char} (mem : line ∈ Text.lines text) :
    line ∈ Text.cells (· == '\n') text := by
  rw [← List.mem_reverse]
  unfold Text.lines at mem
  split at mem
  next rest cut =>
    rw [cut]
    exact List.mem_cons_of_mem _ (List.mem_reverse.1 mem)
  next => exact List.mem_reverse.1 mem

theorem wordLines_firstLines (n : Nat) (text : String) :
    wordLines (firstLines n text) = (wordLines text).take n := by
  have single : ∀ line ∈ (Text.lines text.toList).take n, '\n' ∉ line := by
    intro line mem newline
    have cell := mem_cells_of_mem_lines (List.mem_of_mem_take mem)
    exact absurd (Text.isSep_eq_false_of_mem_cells cell '\n' newline) (by decide)
  rw [wordLines, firstLines, String.toList_ofList, lines_flatMap single, wordLines, List.map_take]

theorem length_lines_le (text : List Char) : (Text.lines text).length ≤ text.length + 1 := by
  have cells : (Text.cells (· == '\n') text).reverse.length ≤ text.length + 1 := by
    rw [List.length_reverse, Text.length_cells]
    have few := List.countP_le_length (p := (· == '\n')) (l := text)
    omega
  unfold Text.lines
  split
  next rest cut =>
    rw [cut, List.length_cons] at cells
    rw [List.length_reverse]
    omega
  next => rwa [List.length_reverse]

theorem length_toList_le (text : String) : text.toList.length ≤ text.utf8ByteSize := by
  have bytes (s : List Char) : s.length ≤ (String.ofList s).utf8ByteSize := by
    rw [String.utf8ByteSize_ofList]
    induction s with
    | nil => exact Nat.le_refl 0
    | cons c s ih =>
        have size := c.utf8Size_pos
        rw [List.length_cons, String.utf8Len_cons]
        omega
  have all := bytes text.toList
  rwa [String.ofList_toList] at all

theorem length_lines_lt {text : String} (size : text.utf8ByteSize ≤ Limits.dumpBytes) :
    (Text.lines text.toList).length < UInt32.size := by
  have few := length_lines_le text.toList
  have short := length_toList_le text
  have limit : Limits.dumpBytes + 1 < UInt32.size := by decide
  omega

theorem utf8ByteSize_of_text? {contents : Contents} {text : String}
    (read : contents.text? = some text) : text.utf8ByteSize = contents.bytes.get.size := by
  unfold Contents.text? String.fromUTF8? at read
  split at read
  next valid =>
    cases read
    rfl
  next => cases read

theorem readFound_text {contents : Contents} {text : String} (read : contents.text? = some text)
    (path : String) (names : Names) (options : Options) :
    readFound path (.file contents) names options =
      if Limits.dumpBytes < contents.size then
        refusedFile path (.fileTooLarge contents.size) "Dump file exceeds maximum size"
          [("size", toString contents.size)]
      else Dump.read text names options := by
  rw [readFound, read]

/-- Where two texts agree on some lines, the one is cut where the other is. -/
theorem exists_cut_of_take {text other : String} {before after : List (List Char)}
    {here : List Char} (split : Text.lines text.toList = before ++ here :: after)
    (same : (wordLines other).take (1 + before.length) =
      (wordLines text).take (1 + before.length)) :
    ∃ before' here' after', Text.lines other.toList = before' ++ here' :: after' ∧
      before'.map blankWords = before.map blankWords ∧ blankWords here' = blankWords here := by
  have shape : wordLines text =
      (before.map blankWords ++ [blankWords here]) ++ after.map blankWords := by
    rw [wordLines, split]
    simp
  rw [shape, List.take_left' (by simp [Nat.add_comm]), wordLines, ← List.map_take] at same
  obtain ⟨before', one, cut, first, last⟩ := List.map_eq_append_iff.1 same
  obtain ⟨here', rfl, words⟩ := List.map_eq_singleton_iff.1 last
  refine ⟨before', here', (Text.lines other.toList).drop (1 + before.length), ?_, first, words⟩
  rw [List.append_cons, ← cut, List.take_append_drop]

/-- An error that names a line is about an item of that line. It is the first one: whatever comes
after this line, the error is the same, and without this line and what comes after it there is none
while the lines are read. Only a bracket that is still open at the end is found when all lines have
been read. A file with that text is refused for its size or read, and then its lines can be
numbered. -/
theorem parse_located (text : String) (names : Names) (options : Options) :
    (∀ path contents, contents.text? = some text → contents.size = contents.bytes.get.size →
      (readFound path (.file contents) names options).result =
          .error (.refused (.fileTooLarge contents.size)) ∨
        readFound path (.file contents) names options = read text names options ∧
          (Text.lines text.toList).length < UInt32.size) ∧
    ∀ e k, parse text names options = .error (.refused e) → e.line? = some k →
      (1 ≤ k ∧ k ≤ (Text.lines text.toList).length ∧
        ∃ here item, (Text.lines text.toList)[k - 1]? = some here ∧ item ∈ lineItems here ∧
          Raises (item, k) e) ∧
      ((∃ b s, e = .unbalancedBracket k (Bracket.opening b) ∧
          readLines names options 1 .start (Text.lines text.toList) = .ok s) ∨
        (∀ other, (wordLines other).take k = (wordLines text).take k →
          parse other names options = .error (.refused e)) ∧
        ∀ other, wordLines other = (wordLines text).take (k - 1) →
          ∃ s, readLines names options 1 .start (Text.lines other.toList) = .ok s) := by
  constructor
  · intro path contents found size
    rw [readFound_text found]
    split
    next => exact .inl rfl
    next fits =>
      rw [size, ← utf8ByteSize_of_text? found] at fits
      exact .inr ⟨rfl, length_lines_lt (Nat.not_lt.1 fits)⟩
  intro e k refused line
  rw [parse] at refused
  cases read : readLines names options 1 .start (Text.lines text.toList) with
  | ok s =>
      rw [read] at refused
      obtain ⟨b, here, item, opening, first, place, listed, raises⟩ :=
        exists_opening read refused line
      have short := (List.getElem?_eq_some_iff.1 place).1
      exact ⟨⟨first, by omega, here, item, place, listed, raises⟩, .inl ⟨b, s, opening, rfl⟩⟩
  | error f =>
      rw [read] at refused
      cases refused
      obtain ⟨before, here, after, t, item, split, rfl, room, start, stop, listed, raises⟩ :=
        exists_stop read line
      have place : (Text.lines text.toList)[1 + before.length - 1]? = some here := by
        simp [split]
      have short := (List.getElem?_eq_some_iff.1 place).1
      refine ⟨⟨by omega, by omega, here, item, place, listed, raises⟩, .inr ⟨?_, ?_⟩⟩
      · intro other same
        obtain ⟨before', here', after', cut, first, last⟩ := exists_cut_of_take split same
        have count : before'.length = before.length := by
          simpa using congrArg List.length first
        rw [← count] at room stop
        rw [← readLines_congr first] at start
        rw [← readLine_congr last] at stop
        rw [parse, readLines_eq_refused_iff.2 ⟨before', here', after', t, cut, start, room, stop⟩]
        rfl
      · intro other same
        refine ⟨t, ?_⟩
        rw [← start]
        refine readLines_congr ?_
        rw [wordLines, wordLines, split, Nat.add_sub_cancel_left] at same
        simpa using same

-- The identity on the second line is the fault, whatever the third line says.
theorem identity_located :
    ∃ e, parse "a\n( x@99999999999\n]" none {} = .error (.refused e) ∧ e.line? = some 2 ∧
      parse "a \r\n( x@99999999999" none {} = .error (.refused e) ∧
      ∃ s, readLines none {} 1 .start
        (Text.lines (firstLines 1 "a\n( x@99999999999\n]").toList) = .ok s := by
  have refused : parse "a\n( x@99999999999\n]" none {} =
      .error (.refused (.badVarId 2 "x@99999999999")) := rfl
  obtain ⟨-, atEnd | ⟨same, clear⟩⟩ :=
    (parse_located "a\n( x@99999999999\n]" none {}).2 _ 2 refused rfl
  · obtain ⟨b, s, no, -⟩ := atEnd
    cases no
  · exact ⟨_, refused, rfl, same _ (by decide), clear _ (wordLines_firstLines 1 _)⟩

end TokenStream.Dump
