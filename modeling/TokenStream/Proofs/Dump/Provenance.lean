import TokenStream.Proofs.Dump.Link
import TokenStream.Proofs.Dump.Section
/-!
Where the tokens of a dump come from. A token is in the file of the last header before it and on the
last line marked in that file's sections, however often other files come between them. Text before
the first header is in file 0, but the line that it comes to is lost at that header, and file 0 has
line 0 again until a section of its own marks one.
-/
namespace TokenStream.Dump

open Chain

/-- What an item says, if it can be read. -/
def piece? (names : Names) : Item × Nat → Option (Piece (List Char))
  | (.header name, number) =>
    match readFile names number name with
    | .ok file => some (.header file)
    | .error _ => none
  | (.marker word, number) =>
    match readMarker number word with
    | .ok (some line) => some (.marker line.toNat)
    | _ => none
  | (.token word, _) => some (.token word)

/-- The line last marked in the sections of the files asked for. -/
def lastLine? {α : Type} (asked : Option UInt32 → Bool) (pieces : List (Piece α)) : Option Nat :=
  (linesIn asked none pieces).getLast?

/-- A marker before the first header is the last one of file 0, and a section of it is open. -/
def Forgotten {α : Type} (pieces : List (Piece α)) : Prop :=
  fileAfter none pieces = some 0 ∧ lastLine? (· == some 0) pieces = none ∧
    lastLine? (· == none) pieces ≠ none

instance {α : Type} (pieces : List (Piece α)) : Decidable (Forgotten pieces) :=
  inferInstanceAs (Decidable (_ ∧ _ ∧ _))

/-! ### What a place stands for -/

/-- Where the reader stands after these pieces. -/
structure Place.After {α : Type} (place : Place) (pieces : List (Piece α)) : Prop where
  file : place.file = fileAfter none pieces
  unheaded : place.file = none → place.line.toNat = (lastLine? (· == none) pieces).getD 0
  lines : ∀ f, (place.lineIn f).toNat = (lastLine? (· == some f) pieces).getD 0

theorem Place.After.start {α : Type} : Place.start.After ([] : List (Piece α)) :=
  ⟨rfl, fun _ => rfl, fun _ => rfl⟩

section
variable {α : Type} {place : Place} {pieces : List (Piece α)}

theorem lastLine?_header (asked : Option UInt32 → Bool) (pieces : List (Piece α)) (file : UInt32) :
    lastLine? asked (pieces ++ [.header file]) = lastLine? asked pieces := by
  rw [lastLine?, linesIn_append]
  exact congrArg List.getLast? (List.append_nil _)

theorem lastLine?_token (asked : Option UInt32 → Bool) (pieces : List (Piece α)) (a : α) :
    lastLine? asked (pieces ++ [.token a]) = lastLine? asked pieces := by
  rw [lastLine?, linesIn_append]
  exact congrArg List.getLast? (List.append_nil _)

theorem lastLine?_marker (asked : Option UInt32 → Bool) (pieces : List (Piece α)) (line : Nat) :
    lastLine? asked (pieces ++ [.marker line]) =
      if asked (fileAfter none pieces) then some line else lastLine? asked pieces := by
  rw [lastLine?, linesIn_append, linesIn]
  split
  · exact List.getLast?_concat
  · exact congrArg List.getLast? (List.append_nil _)

theorem Place.After.token (after : place.After pieces) (a : α) :
    place.After (pieces ++ [.token a]) := by
  refine ⟨?_, ?_, ?_⟩
  · rw [fileAfter_append, after.file]
    rfl
  · rw [lastLine?_token]
    exact after.unheaded
  · intro f
    rw [lastLine?_token]
    exact after.lines f

theorem Place.After.header (after : place.After pieces) (file : UInt32) :
    (place.enter file).After (pieces ++ [.header file]) := by
  refine ⟨?_, ?_, ?_⟩
  · rw [fileAfter_append]
    rfl
  · rintro ⟨⟩
  · intro f
    rw [lastLine?_header, lineIn_enter]
    exact after.lines f

theorem Place.After.marker (after : place.After pieces) (line : UInt32) :
    (place.atLine line).After (pieces ++ [.marker line.toNat]) := by
  refine ⟨?_, ?_, ?_⟩
  · rw [fileAfter_append]
    exact after.file
  · intro unheaded
    have here : place.file = none := unheaded
    rw [lastLine?_marker, ← after.file, here]
    rfl
  · intro f
    rw [lastLine?_marker, ← after.file, lineIn_atLine]
    by_cases here : place.file = some f
    · rw [if_pos here, if_pos (by simpa using here)]
      rfl
    · rw [if_neg here, if_neg (by simpa using here)]
      exact after.lines f

end

/-- The reader goes where an item says, and stays where it is if the item says nothing. -/
theorem moveTo_cases {names : Names} {place next : Place} {item : Item × Nat}
    (moved : moveTo names place item = .ok next) :
    (∃ file, piece? names item = some (.header file) ∧ next = place.enter file) ∨
    (∃ line : UInt32, piece? names item = some (.marker line.toNat) ∧ next = place.atLine line) ∨
    (∃ word, piece? names item = some (.token word) ∧ next = place) ∨
    (∃ word, item.1 = .marker word ∧ markerDigits? word = none ∧ piece? names item = none ∧
      next = place) := by
  obtain ⟨kind, number⟩ := item
  cases kind with
  | header name =>
      cases found : readFile names number name with
      | error e =>
          rw [moveTo, found] at moved
          cases moved
      | ok file =>
          rw [moveTo, found] at moved
          cases moved
          exact .inl ⟨file, by rw [piece?, found], rfl⟩
  | marker word =>
      cases found : readMarker number word with
      | error e =>
          rw [moveTo, found] at moved
          cases moved
      | ok line =>
          rw [moveTo, found] at moved
          cases moved
          cases line with
          | some line => exact .inr (.inl ⟨line, by rw [piece?, found], rfl⟩)
          | none =>
              have digits := readMarker_eq_none_iff.1 found
              exact .inr (.inr (.inr ⟨word, rfl, digits, by rw [piece?, found], rfl⟩))
  | token word =>
      cases moved
      exact .inr (.inr (.inl ⟨word, rfl, rfl⟩))

theorem Place.After.move {names : Names} {place next : Place} {pieces : List (Piece (List Char))}
    (after : place.After pieces) {item : Item × Nat} (moved : moveTo names place item = .ok next) :
    next.After (pieces ++ (piece? names item).toList) := by
  rcases moveTo_cases moved with
    ⟨file, said, rfl⟩ | ⟨line, said, rfl⟩ | ⟨word, said, rfl⟩ | ⟨-, -, -, said, rfl⟩
  · rw [said]
    exact after.header file
  · rw [said]
    exact after.marker line
  · rw [said]
    exact after.token word
  · rw [said]
    simpa using after

/-! ### File 0 -/

section
variable {α : Type} {pieces : List (Piece α)}

theorem linesIn_headed {asked : Option UInt32 → Bool} (other : asked none = false)
    (unheaded : fileAfter none pieces = none) : linesIn asked none pieces = [] := by
  induction pieces with
  | nil => rfl
  | cons piece pieces ih =>
      cases piece with
      | header file =>
          obtain ⟨f, headed⟩ := exists_fileAfter file pieces
          cases headed.symm.trans unheaded
      | marker line =>
          rw [linesIn, other]
          exact ih unheaded
      | token a => exact ih unheaded

/-- What counts as file 0 comes in two parts, the text before the first header and the sections. -/
theorem linesIn_zero (pieces : List (Piece α)) :
    linesIn (·.getD 0 == 0) none pieces =
      linesIn (· == none) none pieces ++ linesIn (· == some 0) none pieces := by
  induction pieces with
  | nil => rfl
  | cons piece pieces ih =>
      cases piece with
      | header file =>
          have nothing : linesIn (· == none) (some file) pieces = [] :=
            linesIn_eq_nil (fun _ => rfl) file pieces
          have sections : linesIn (·.getD 0 == 0) (some file) pieces =
              linesIn (· == some 0) (some file) pieces :=
            linesIn_congr (fun f => by simp) file pieces
          rw [linesIn, linesIn, linesIn, nothing, sections, List.nil_append]
      | marker line => exact congrArg (line :: ·) ih
      | token a => exact ih

theorem lastLine?_zero (pieces : List (Piece α)) :
    lastLine? (·.getD 0 == 0) pieces =
      (lastLine? (· == some 0) pieces).or (lastLine? (· == none) pieces) := by
  rw [lastLine?, linesIn_zero, List.getLast?_append]
  rfl

theorem Place.After.line_eq {place : Place} (after : place.After pieces) :
    place.line.toNat =
      if Forgotten pieces then 0
      else (lastLine? (·.getD 0 == place.file.getD 0) pieces).getD 0 := by
  obtain ⟨file, unheaded, lines⟩ := after
  cases here : place.file with
  | none =>
      rw [here] at file
      have kept : ¬ Forgotten pieces := by
        rintro ⟨headed, -⟩
        cases file.trans headed
      have none_headed : lastLine? (· == some 0) pieces = none := by
        rw [lastLine?, linesIn_headed rfl file.symm]
        rfl
      rw [if_neg kept, unheaded here, Option.getD_none, lastLine?_zero, none_headed, Option.none_or]
  | some f =>
      rw [here] at file
      have line : place.line = place.lineIn f := by rw [Place.lineIn, if_pos here]
      rw [line, lines f, Option.getD_some]
      by_cases zero : f = 0
      · subst zero
        rw [lastLine?_zero]
        split
        next forgotten =>
          rw [forgotten.2.1]
          rfl
        next kept =>
          cases sections : lastLine? (· == some (0 : UInt32)) pieces with
          | some line => rfl
          | none =>
              have no_stray : lastLine? (· == none) pieces = none := by
                by_contra stray
                exact kept ⟨file.symm, sections, stray⟩
              rw [no_stray]
              rfl
      · have kept : ¬ Forgotten pieces := by
          rintro ⟨headed, -⟩
          exact zero (Option.some.inj (file.trans headed))
        have same : (fun g : Option UInt32 => g.getD 0 == f) = (· == some f) := by
          funext g
          cases g with
          | none => simpa using Ne.symm zero
          | some g => rfl
        rw [if_neg kept, same]

end

/-! ### Tokens -/

/-- The tokens that come of a run are the words among its items, each read at the place of the
pieces before it. -/
theorem Reads.exists_place {names : Names} {place final : Place} {items : List (Item × Nat)}
    {more : List (Token × Nat)} (reads : Reads names place items final more)
    {pieces : List (Piece (List Char))} (after : place.After pieces)
    {before rest : List (Item × Nat)} {word : List Char} {number : Nat}
    (split : items = before ++ (.token word, number) :: rest) :
    ∃ (text : String) (varId : UInt32) (here : Place) (nonempty : text ≠ ""),
      readToken number word = .ok (text, varId) ∧
      here.After (pieces ++ before.filterMap (piece? names)) ∧
      more[(before.filterMap tokenLine?).length]? = some (here.token nonempty varId, number) := by
  induction reads generalizing pieces before with
  | done => simp at split
  | @moved _ _ _ item _ _ other moved _ ih =>
      cases before with
      | nil =>
          obtain ⟨rfl, -⟩ := List.cons.inj split
          exact absurd rfl (other word)
      | cons item' before =>
          obtain ⟨rfl, behind⟩ := List.cons.inj split
          obtain ⟨text, varId, here, nonempty, read, arrived, found⟩ :=
            ih (after.move moved) behind
          have no_token : tokenLine? item = none := by
            obtain ⟨kind, n⟩ := item
            cases kind with
            | token w => exact absurd rfl (other w)
            | header name => rfl
            | marker w => rfl
          refine ⟨text, varId, here, nonempty, read, ?_, ?_⟩
          · rw [List.append_assoc] at arrived
            rw [List.filterMap_cons]
            cases said : piece? names item <;> simpa [said] using arrived
          · rw [List.filterMap_cons_none no_token]
            exact found
  | @token place _ n w text varId _ _ nonempty read _ ih =>
      cases before with
      | nil =>
          obtain ⟨same, -⟩ := List.cons.inj split
          cases same
          refine ⟨text, varId, place, nonempty, read, ?_, rfl⟩
          simpa using after
      | cons item' before =>
          obtain ⟨rfl, behind⟩ := List.cons.inj split
          obtain ⟨text', varId', here, nonempty', read', arrived, found⟩ :=
            ih (after.token w) behind
          refine ⟨text', varId', here, nonempty', read', ?_, found⟩
          rw [List.append_assoc] at arrived
          exact arrived

theorem markerDigits?_of_mem_items {text : String} {word : List Char} {number : Nat}
    (mem : (.marker word, number) ∈ items text) : (markerDigits? word).isSome = true := by
  obtain ⟨⟨line, n⟩, -, inside⟩ := List.mem_flatMap.1 mem
  obtain ⟨item, listed, same⟩ := List.mem_map.1 inside
  cases same
  unfold lineItems at listed
  split at listed
  next => cases listed
  next first rest words =>
    have no_marker (words : List (List Char)) : Item.marker word ∉ words.map Item.token := by
      simp
    split_ifs at listed with banner header marker
    · cases listed
    · rcases List.mem_cons.1 listed with same | listed
      · cases same
      · exact absurd listed (no_marker _)
    · rcases List.mem_cons.1 listed with same | listed
      · cases same
        exact marker
      · exact absurd listed (no_marker _)
    · exact absurd listed (no_marker _)

theorem Reads.readable {names : Names} {place final : Place} {items : List (Item × Nat)}
    {more : List (Token × Nat)} (reads : Reads names place items final more)
    (marked : ∀ word number, (.marker word, number) ∈ items → (markerDigits? word).isSome = true) :
    ∀ item ∈ items, (piece? names item).isSome = true := by
  induction reads with
  | done => simp
  | @moved _ _ _ item _ _ _ moved _ ih =>
      intro item' mem
      rcases List.mem_cons.1 mem with rfl | mem
      · rcases moveTo_cases moved with
          ⟨file, said, -⟩ | ⟨line, said, -⟩ | ⟨word, said, -⟩ | ⟨word, kind, silent, -, -⟩
        · rw [said, Option.isSome_some]
        · rw [said, Option.isSome_some]
        · rw [said, Option.isSome_some]
        · have digits := marked word item'.2 (by rw [← kind]; exact List.mem_cons_self)
          rw [silent] at digits
          cases digits
      · exact ih (fun word n mem => marked word n (List.mem_cons_of_mem _ mem)) item' mem
  | token _ _ _ ih =>
      intro item' mem
      rcases List.mem_cons.1 mem with rfl | mem
      · rfl
      · exact ih (fun word n mem => marked word n (List.mem_cons_of_mem _ mem)) item' mem

/-- In a dump that was read every header and every marker says something, and every word is a token
of the file of the last header before it, or of file 0. Its line is the one last marked in the
sections of that file, text before the first header counted to file 0, or 0 if none was; but what
was marked before the first header is forgotten behind it. -/
theorem parse_provenance {text : String} {names : Names} {options : Options} {c : Chain}
    (read : parse text names options = .ok c) :
    (∀ item ∈ items text, (piece? names item).isSome = true) ∧
    ∃ order, c.Valid order ∧
      (order.filterMap c.token?).length = ((items text).filterMap tokenLine?).length ∧
      ∀ before word number after, items text = before ++ (.token word, number) :: after →
        ∃ t, (order.filterMap c.token?)[(before.filterMap tokenLine?).length]? = some t ∧
          readToken number word = .ok (t.text, t.varId) ∧
          let pieces := before.filterMap (piece? names)
          t.file = (fileAfter none pieces).getD 0 ∧
          t.line.toNat =
            if Forgotten pieces then 0
            else (lastLine? (·.getD 0 == t.file) pieces).getD 0 := by
  obtain ⟨order, final, more, reads, -, valid, tokens⟩ := exists_reads_of_parse read
  refine ⟨reads.readable fun word number => markerDigits?_of_mem_items, order, valid, ?_, ?_⟩
  · rw [tokens, ← reads.lines, List.length_map, List.length_map]
  · intro before word number after split
    obtain ⟨text, varId, here, nonempty, word_read, arrived, found⟩ :=
      reads.exists_place .start split
    rw [List.nil_append] at arrived
    refine ⟨here.token nonempty varId, ?_, word_read, ?_, ?_⟩
    · rw [tokens, List.getElem?_map, found]
      rfl
    · exact congrArg (·.getD 0) arrived.file
    · exact arrived.line_eq

theorem returning_resumes :
    ∃ c order t, parse "##file 0\n2: a\n##file 1\n1: b\n##file 0 c" none {} = .ok c ∧
      c.Valid order ∧ (order.filterMap c.token?)[2]? = some t ∧ t.text = "c" ∧ t.file = 0 ∧
      t.line.toNat = 2 := by
  obtain ⟨c, read⟩ : ∃ c, parse "##file 0\n2: a\n##file 1\n1: b\n##file 0 c" none {} = .ok c :=
    ⟨_, rfl⟩
  obtain ⟨-, order, valid, -, place⟩ := parse_provenance read
  have split : items "##file 0\n2: a\n##file 1\n1: b\n##file 0 c" =
      [(.header ['0'], 1), (.marker ['2', ':'], 2), (.token ['a'], 2), (.header ['1'], 3),
        (.marker ['1', ':'], 4), (.token ['b'], 4), (.header ['0'], 5)] ++
      [(.token ['c'], 5)] := by decide
  obtain ⟨t, found, word, file, line⟩ := place _ _ _ _ split
  have text_of : t.text = "c" := congrArg Prod.fst (Except.ok.inj word).symm
  have zero : t.file = 0 := file
  rw [zero] at line
  exact ⟨c, order, t, read, valid, found, text_of, zero, line⟩

/-- File 0 was left on line 5, but it resumes on line 0. -/
theorem line_before_header_lost :
    ∃ c, parse "5: a\n##file 1\n1: b\n##file 0 c" none {} = .ok c ∧
      (c.token? ⟨2, 0⟩).map (fun t => (t.text, t.file, t.line)) = some ("c", 0, 0) ∧
      (items "5: a\n##file 1\n1: b\n##file 0 c").getLast? = some (.token ['c'], 4) ∧
      lastLine? (·.getD 0 == 0)
        ((items "5: a\n##file 1\n1: b\n##file 0 c").dropLast.filterMap (piece? none)) = some 5 :=
  ⟨_, rfl, rfl, by decide, by decide⟩

end TokenStream.Dump
