import TokenStream.Dump.Reader
/-!
How the reader takes a text that grows at its end. A new line is read after all lines before it,
and a word at the end of a line that opened with a file header or a marker is read as one token
more, after all that stands before it.
-/
namespace TokenStream

namespace Text

/-- Text without a separator goes to the last cell. -/
theorem cells_append_of_no_sep {isSep : Char → Bool} {s t : List Char}
    (plain : ∀ c ∈ t, isSep c = false) {before : List (List Char)} {last : List Char}
    (cut : cells isSep s = before ++ [last]) :
    cells isSep (s ++ t) = before ++ [last ++ t] := by
  induction s generalizing before last with
  | nil =>
      have alone : [] ++ [[]] = before ++ [last] := cut
      obtain ⟨rfl, same⟩ := List.append_inj' alone rfl
      obtain rfl : [] = last := List.cons.inj same |>.1
      exact cells_of_no_sep plain
  | cons c s ih =>
      rcases List.eq_nil_or_concat (cells isSep s) with empty | ⟨inner, cell, cutS⟩
      · exact absurd empty (cells_ne_nil isSep s)
      · rw [List.concat_eq_append] at cutS
        have grown := ih cutS
        rw [cells_cons, cutS] at cut
        rw [List.cons_append, cells_cons, grown]
        split at cut
        next sep =>
          rw [← List.cons_append] at cut
          obtain ⟨rfl, same⟩ := List.append_inj' cut rfl
          obtain rfl : cell = last := List.cons.inj same |>.1
          rw [if_pos sep]
          rfl
        next other =>
          rw [if_neg other]
          cases inner with
          | nil =>
              have alone : [] ++ [c :: cell] = before ++ [last] := cut
              obtain ⟨rfl, same⟩ := List.append_inj' alone rfl
              obtain rfl : c :: cell = last := List.cons.inj same |>.1
              rfl
          | cons first inner =>
              rw [List.cons_append, List.modifyHead_cons, ← List.cons_append] at cut
              obtain ⟨rfl, same⟩ := List.append_inj' cut rfl
              obtain rfl : cell = last := List.cons.inj same |>.1
              rfl

/-- What stands between two blanks. -/
structure IsWord (w : List Char) : Prop where
  nonempty : w ≠ []
  solid : ∀ c ∈ w, isBlank c = false

theorem isWord_of_all {w : List Char} (nonempty : w.isEmpty = false)
    (solid : w.all (fun c => !isBlank c) = true) : IsWord w where
  nonempty := by simpa using nonempty
  solid c mem := by simpa using List.all_eq_true.1 solid c mem

theorem IsWord.newline_not_mem {w : List Char} (word : IsWord w) : '\n' ∉ w := by
  intro mem
  exact absurd (word.solid '\n' mem) (by decide)

theorem blankWords_of_isWord {w : List Char} (word : IsWord w) : blankWords w = [w] := by
  rw [blankWords, cells_of_no_sep word.solid]
  simp [word.nonempty]

theorem blankWords_append_space (s t : List Char) :
    blankWords (s ++ ' ' :: t) = blankWords s ++ blankWords t := by
  have space : isBlank ' ' = true := by decide
  rw [blankWords, cells_append_sep space, List.filter_append]
  rfl

theorem blankWords_append_word {w : List Char} (word : IsWord w) (s : List Char) :
    blankWords (s ++ ' ' :: w) = blankWords s ++ [w] := by
  rw [blankWords_append_space, blankWords_of_isWord word]

theorem not_isBlank_of_isDigit {c : Char} (digit : c.isDigit = true) : isBlank c = false := by
  rw [Char.isDigit, Bool.and_eq_true, decide_eq_true_eq, decide_eq_true_eq] at digit
  have least : 48 ≤ c.toNat := UInt32.le_iff_toNat_le.1 digit.1
  have most : c.toNat ≤ 57 := UInt32.le_iff_toNat_le.1 digit.2
  simp only [isBlank, blankRanges, List.any_cons, List.any_nil, Bool.or_eq_false_iff,
    Bool.and_eq_false_iff, decide_eq_false_iff_not, and_true]
  omega

theorem isWord_toString (n : UInt32) : IsWord (toString n).toList := by
  obtain ⟨nonempty, digits⟩ := isDigits_iff.1 (isDigits_toString n)
  exact ⟨nonempty, fun c mem => not_isBlank_of_isDigit (digits c mem)⟩

end Text

namespace Dump

open Text (IsWord blankWords)

/-- Reads lines as `readLines` does, however large their numbers get. -/
def readAll (names : Names) (options : Options) (number : Nat) (s : State)
    (lines : List (List Char)) : Except Failure State :=
  (lines.zipIdx number).foldlM (fun s (line, number) => readLine names options s number line) s

/-- What the reader has made of a text, if it ends here. -/
def scan (names : Names) (options : Options) (text : String) : Except Failure State :=
  readAll names options 1 .start (Text.cells (· == '\n') text.toList)

/-- A line that opened with a file header or a marker takes words as tokens. -/
def Opened (line : List Char) : Prop :=
  (∃ name rest, blankWords line = "##file".toList :: name :: rest) ∨
    ∃ (n : UInt32) (rest : List (List Char)),
      blankWords line = ((toString n).toList ++ [':']) :: rest

/-- The last line of the text takes words as tokens. -/
def TakesWords (text : String) : Prop :=
  ∃ before last, Text.cells (· == '\n') text.toList = before ++ [last] ∧ Opened last

section
variable {names : Names} {options : Options} {s : State}

/-! ### One line -/

theorem readMarker_toString (number : Nat) (n : UInt32) :
    readMarker number ((toString n).toList ++ [':']) = .ok (some n) := by
  have digits : markerDigits? ((toString n).toList ++ [':']) = some (toString n).toList := by
    rw [markerDigits?, List.getLast?_concat, List.dropLast_concat,
      if_pos ⟨rfl, Text.isDigits_toString n⟩]
  rw [readMarker, digits]
  simp only [Text.readDigits32?_toString]

theorem readLine_header {line name : List Char} {rest : List (List Char)}
    (words : blankWords line = "##file".toList :: name :: rest) (number : Nat) :
    readLine names options s number line =
      readFile names number name >>= fun file =>
        readWords options number { s with place := s.place.enter file } rest := by
  unfold readLine
  rw [words]
  rfl

theorem readLine_marker {line : List Char} {n : UInt32} {rest : List (List Char)}
    (words : blankWords line = ((toString n).toList ++ [':']) :: rest) (number : Nat) :
    readLine names options s number line =
      readWords options number { s with place := s.place.atLine n } rest := by
  obtain ⟨nonempty, digits⟩ := Text.isDigits_iff.1 (Text.isDigits_toString n)
  obtain ⟨c, more, first⟩ := List.exists_cons_of_ne_nil nonempty
  have other : c ≠ '#' := by
    rintro rfl
    exact absurd (digits '#' (first ▸ List.mem_cons_self)) (by decide)
  have no_banner : "###".toList.isPrefixOf ((toString n).toList ++ [':']) = false := by
    refine Bool.eq_false_iff.2 fun opens => ?_
    obtain ⟨rest, eq⟩ := List.isPrefixOf_iff_prefix.1 opens
    rw [first] at eq
    exact other (List.cons.inj eq).1.symm
  have no_header : ¬ (toString n).toList ++ [':'] = "##file".toList := by
    rw [first]
    simp [other]
  unfold readLine
  rw [words]
  simp only [no_banner, Bool.false_eq_true, if_false, if_neg no_header,
    readMarker_toString]
  rfl

theorem readWords_concat (number : Nat) (words : List (List Char)) (w : List Char) :
    readWords options number s (words ++ [w]) =
      readWords options number s words >>= fun s => readWord options number s w := by
  unfold readWords
  rw [List.foldlM_append]
  simp only [List.foldlM_cons, List.foldlM_nil, bind_pure]

theorem Opened.append_word {line w : List Char} (opened : Opened line) (word : IsWord w) :
    Opened (line ++ ' ' :: w) := by
  have grown := Text.blankWords_append_word word line
  rcases opened with ⟨name, rest, words⟩ | ⟨n, rest, words⟩
  · rw [words] at grown
    exact .inl ⟨name, rest ++ [w], grown⟩
  · rw [words] at grown
    exact .inr ⟨n, rest ++ [w], grown⟩

theorem readLine_word {line w : List Char} (opened : Opened line) (word : IsWord w)
    (number : Nat) :
    readLine names options s number (line ++ ' ' :: w) =
      readLine names options s number line >>= fun s => readWord options number s w := by
  have grown := Text.blankWords_append_word word line
  rcases opened with ⟨name, rest, words⟩ | ⟨n, rest, words⟩
  · rw [words] at grown
    rw [readLine_header grown, readLine_header words, bind_assoc]
    congr 1
    funext file
    exact readWords_concat number rest w
  · rw [words] at grown
    rw [readLine_marker grown, readLine_marker words]
    exact readWords_concat number rest w

/-! ### The whole text -/

theorem readLines_eq_readAll {number : Nat} {lines : List (List Char)}
    (few : number + lines.length ≤ UInt32.size) :
    readLines names options number s lines = readAll names options number s lines := by
  induction lines generalizing number s with
  | nil => rfl
  | cons line lines ih =>
      rw [List.length_cons] at few
      have fits : ¬ UInt32.size ≤ number := by omega
      have rest (next : State) : readLines names options (number + 1) next lines =
          readAll names options (number + 1) next lines := ih (by omega)
      rw [readLines, if_neg fits]
      simp only [rest]
      rfl

theorem readAll_concat (number : Nat) (lines : List (List Char)) (line : List Char) :
    readAll names options number s (lines ++ [line]) =
      readAll names options number s lines >>= fun s =>
        readLine names options s (number + lines.length) line := by
  unfold readAll
  rw [List.zipIdx_append, List.foldlM_append]
  simp only [List.zipIdx_cons, List.zipIdx_nil, List.foldlM_cons, List.foldlM_nil, bind_pure]

/-- The line at the end of a text is closed by its newline, which changes nothing. -/
theorem parse_newline {text : String}
    (few : (Text.lines (text ++ "\n").toList).length < UInt32.size) :
    parse (text ++ "\n") names options = scan names options text >>= finish options := by
  have cut : Text.cells (· == '\n') (text ++ "\n").toList =
      Text.cells (· == '\n') text.toList ++ [[]] := by
    rw [String.toList_append]
    exact Text.cells_append_sep (by decide) text.toList []
  have lines : Text.lines (text ++ "\n").toList = Text.cells (· == '\n') text.toList := by
    rw [Text.lines, cut, List.reverse_append]
    simp
  rw [lines] at few
  rw [parse, lines, readLines_eq_readAll (by omega), scan]

theorem no_newline {line : List Char} (single : '\n' ∉ line) :
    ∀ c ∈ line, (c == '\n') = false := by
  intro c mem
  refine Bool.eq_false_iff.2 fun same => ?_
  rw [beq_iff_eq] at same
  exact single (same ▸ mem)

theorem scan_line {text : String} (read : scan names options text = .ok s) {line : List Char}
    (single : '\n' ∉ line) {grown : String} (shape : grown.toList = text.toList ++ '\n' :: line) :
    Text.cells (· == '\n') grown.toList = Text.cells (· == '\n') text.toList ++ [line] ∧
      ∃ number, scan names options grown = readLine names options s number line := by
  have cut : Text.cells (· == '\n') grown.toList =
      Text.cells (· == '\n') text.toList ++ [line] := by
    rw [shape, Text.cells_append_sep (by decide), Text.cells_of_no_sep (no_newline single)]
  refine ⟨cut, 1 + (Text.cells (· == '\n') text.toList).length, ?_⟩
  unfold scan at read ⊢
  rw [cut, readAll_concat, read]
  rfl

theorem scan_word {text : String} (read : scan names options text = .ok s)
    (takes : TakesWords text) {w : List Char} (word : IsWord w) {grown : String}
    (shape : grown.toList = text.toList ++ ' ' :: w) :
    (∃ number, scan names options grown = readWord options number s w) ∧ TakesWords grown := by
  obtain ⟨before, last, cut, opened⟩ := takes
  have single : '\n' ∉ ' ' :: w := by
    intro mem
    rcases List.mem_cons.1 mem with space | mem
    · exact absurd space (by decide)
    · exact word.newline_not_mem mem
  have cutG := Text.cells_append_of_no_sep (no_newline single) cut
  rw [← shape] at cutG
  refine ⟨⟨1 + before.length, ?_⟩, before, _, cutG, opened.append_word word⟩
  unfold scan at read ⊢
  rw [cut, readAll_concat] at read
  rw [cutG, readAll_concat]
  simp only [readLine_word opened word]
  rw [← bind_assoc, read]
  rfl

/-! ### What the writer appends -/

theorem scan_header {text : String} (read : scan names options text = .ok s) {label : String}
    (word : IsWord label.toList) {file : UInt32}
    (found : ∀ number, readFile names number label.toList = .ok file) :
    scan names options (text ++ "\n\n##file " ++ label) =
        .ok { s with place := s.place.enter file } ∧
      TakesWords (text ++ "\n\n##file " ++ label) := by
  have blank : (text ++ "\n").toList = text.toList ++ '\n' :: [] := by
    rw [String.toList_append]
    rfl
  have shape : (text ++ "\n\n##file " ++ label).toList =
      (text ++ "\n").toList ++ '\n' :: ("##file".toList ++ ' ' :: label.toList) := by
    have opening : "\n\n##file ".toList = "\n".toList ++ '\n' :: ("##file".toList ++ [' ']) := rfl
    simp only [String.toList_append, opening, List.append_assoc, List.cons_append,
      List.nil_append]
  have words : blankWords ("##file".toList ++ ' ' :: label.toList) =
      ["##file".toList, label.toList] := by
    rw [Text.blankWords_append_word word]
    rfl
  have single : '\n' ∉ "##file".toList ++ ' ' :: label.toList := by
    intro mem
    rcases List.mem_append.1 mem with mem | mem
    · exact absurd mem (by decide)
    · rcases List.mem_cons.1 mem with space | mem
      · exact absurd space (by decide)
      · exact word.newline_not_mem mem
  obtain ⟨-, n, empty⟩ := scan_line read (by simp) blank
  have between : scan names options (text ++ "\n") = .ok s := empty
  obtain ⟨cut, number, scanned⟩ := scan_line between single shape
  refine ⟨?_, _, _, cut, .inl ⟨_, _, words⟩⟩
  rw [scanned, readLine_header words, found]
  rfl

theorem scan_marker {text : String} (read : scan names options text = .ok s) (n : UInt32) :
    scan names options (text ++ s!"\n{n.toNat}:") = .ok { s with place := s.place.atLine n } ∧
      TakesWords (text ++ s!"\n{n.toNat}:") := by
  have shape : (text ++ s!"\n{n.toNat}:").toList =
      text.toList ++ '\n' :: ((toString n).toList ++ [':']) := by
    have same : toString n.toNat = toString n := rfl
    simp only [String.toList_append, same]
    rfl
  have word : IsWord ((toString n).toList ++ [':']) := by
    refine ⟨by simp, ?_⟩
    intro c mem
    rcases List.mem_append.1 mem with digit | colon
    · exact (Text.isWord_toString n).solid c digit
    · obtain rfl : c = ':' := List.mem_singleton.1 colon
      decide
  have words := Text.blankWords_of_isWord word
  obtain ⟨cut, number, scanned⟩ := scan_line read word.newline_not_mem shape
  refine ⟨?_, _, _, cut, .inr ⟨n, [], words⟩⟩
  rw [scanned, readLine_marker words]
  rfl

theorem scan_banner (title : Option String)
    (clean : ∀ text, title = some text → '\n' ∉ text.toList) :
    scan names options (banner title) = .ok .start := by
  have empty : scan names options "" = .ok .start := rfl
  cases title with
  | none => exact empty
  | some title =>
      have shape : ("\n### " ++ title ++ " ###").toList =
          "".toList ++ '\n' :: ("###".toList ++ ' ' :: (title.toList ++ " ###".toList)) := by
        simp only [String.toList_append]
        rfl
      have single : '\n' ∉ "###".toList ++ ' ' :: (title.toList ++ " ###".toList) := by
        have clean := clean title rfl
        simp [clean]
      obtain ⟨-, n, read⟩ := scan_line empty single shape
      have words : ∃ rest, blankWords ("###".toList ++ ' ' :: (title.toList ++ " ###".toList)) =
          "###".toList :: rest := by
        rw [Text.blankWords_append_space]
        exact ⟨_, rfl⟩
      obtain ⟨rest, words⟩ := words
      have skipped : scan names options ("\n### " ++ title ++ " ###") = .ok .start := by
        rw [read, readLine, words]
        rfl
      have last : (banner (some title)).toList =
          ("\n### " ++ title ++ " ###").toList ++ '\n' :: [] := by
        have ending : " ###\n".toList = " ###".toList ++ ['\n'] := rfl
        simp only [banner, String.toList_append, ending, List.append_assoc, toString]
      obtain ⟨-, m, done⟩ := scan_line skipped (by simp) last
      exact done

end

end Dump

end TokenStream
