import TokenStream.Proofs.Dump.Load
import TokenStream.Proofs.Dump.Section
import TokenStream.Proofs.Dump.Words
/-!
A chain that is written as a dump and read back has the same tokens. Reader and writer are in the
same file at every token. They are at the same place as long as no file goes back to an earlier
line; where one does, the reader stays on the later line and nothing else goes wrong.
-/
namespace TokenStream.Dump

open Chain

/-! ### Writing and reading side by side -/

section
variable {names : Names} {options : Options} {s : State} {text : String}

theorem scan_markers_upto (read : scan names options text = .ok s) (takes : TakesWords text)
    (line : UInt32) (k : Nat) (bound : line.toNat + k < UInt32.size) :
    let out := (List.range' (line.toNat + 1) k).foldl (fun text n => text ++ s!"\n{n}:") text
    scan names options out =
        .ok { s with place := if k = 0 then s.place
                else s.place.atLine (UInt32.ofNat (line.toNat + k)) } ∧
      TakesWords out := by
  induction k with
  | zero => exact ⟨read, takes⟩
  | succ k ih =>
      obtain ⟨before, -⟩ := ih (by omega)
      have next := scan_marker before (UInt32.ofNat (line.toNat + (k + 1)))
      rw [UInt32.toNat_ofNat_of_lt' bound] at next
      have last : line.toNat + 1 + k = line.toNat + (k + 1) := by omega
      simp only [List.range'_1_concat, List.foldl_append, List.foldl_cons, List.foldl_nil, last]
      refine ⟨?_, next.2⟩
      rw [next.1]
      cases k <;> rfl

theorem scan_markers (read : scan names options text = .ok s) (takes : TakesWords text)
    (line target : UInt32) :
    scan names options (writeMarkers text line target) =
        .ok { s with place := if line < target then s.place.atLine target else s.place } ∧
      TakesWords (writeMarkers text line target) := by
  have bound : line.toNat + (target.toNat - line.toNat) < UInt32.size := by
    have first := line.toNat_lt
    have second := target.toNat_lt
    have size : UInt32.size = 2 ^ 32 := rfl
    omega
  obtain ⟨scanned, takes'⟩ := scan_markers_upto read takes line _ bound
  refine ⟨?_, takes'⟩
  unfold writeMarkers
  rw [scanned]
  by_cases later : line < target
  · have lt : line.toNat < target.toNat := UInt32.lt_iff_toNat_lt.1 later
    have sum : line.toNat + (target.toNat - line.toNat) = target.toNat := by omega
    rw [if_pos later, if_neg (by omega), sum, UInt32.ofNat_toNat]
  · have le : target.toNat ≤ line.toNat := UInt32.le_iff_toNat_le.1 (UInt32.not_lt.1 later)
    rw [if_neg later, if_pos (by omega)]

/-- The reader has read what is written so far, and is in the file in which the writer is. -/
structure Beside (names : Names) (options : Options) (p : Place) (text : String) (s : State) :
    Prop where
  scanned : scan names options text = .ok s
  file_eq : s.place.file = p.file
  takes : p.file ≠ none → TakesWords text

/-- The text with the header of a file, if the writer comes from another one. -/
def withHeader (names : Names) (p : Place) (text : String) (file : UInt32) : String :=
  if p.file != some file then text ++ "\n\n##file " ++ fileLabel names file else text

theorem writeToken_eq (names : Names) (showVarId : Bool) (p : Place) (text : String) (t : Token) :
    writeToken names showVarId p text t =
      ((p.toward t.file).atLine t.line,
        writeText (writeMarkers (withHeader names p text t.file) (p.toward t.file).line t.line)
          showVarId t) :=
  rfl

theorem Beside.scan_withHeader {p : Place} (beside : Beside names options p text s) {file : UInt32}
    (named : Named names file) :
    scan names options (withHeader names p text file) =
        .ok { s with place := s.place.toward file } ∧
      TakesWords (withHeader names p text file) := by
  obtain ⟨scanned, file_eq, takes⟩ := beside
  obtain ⟨word, found⟩ := readFile_label named
  unfold withHeader Place.toward
  rw [file_eq]
  split
  next => exact scan_header scanned word found
  next same =>
    refine ⟨scanned, takes ?_⟩
    simp at same
    simp [same]

/-- What a dump keeps of a token, whatever its line. -/
def essence (t : Token) : String × UInt32 × UInt32 :=
  (t.text, t.file, t.varId)

theorem Beside.step {p : Place} (beside : Beside names options p text s)
    {order : List Handle} {read : List Token} {stack stack' : List Bracket}
    (loaded : Loaded s order read stack) (room : read.length < Limits.dumpTokens) {t : Token}
    (writable : Writable t) (named : Named names t.file)
    (tracked : (if options.linkBrackets then track stack t.text else some stack) = some stack') :
    ∃ s' x u,
      Beside names options (writeToken names true p text t).1 (writeToken names true p text t).2
        s' ∧
      Loaded s' (order ++ [x]) (read ++ [u]) stack' ∧ essence u = essence t ∧
      (s.place = p → p.lineIn t.file ≤ t.line →
        u.line = t.line ∧ s'.place = (writeToken names true p text t).1) := by
  obtain ⟨header, takesHeader⟩ := beside.scan_withHeader named
  obtain ⟨marked, takesMarked⟩ :=
    scan_markers header takesHeader (p.toward t.file).line t.line
  obtain ⟨⟨number, word⟩, takes⟩ :=
    scan_word marked takesMarked (isWord_wordOf writable) (toList_writeText _ t)
  dsimp only at word
  -- the reader's place after the header and the markers
  generalize there :
    (if (p.toward t.file).line < t.line then (s.place.toward t.file).atLine t.line
      else s.place.toward t.file) = place at word
  have file : place.file = some t.file := by
    rw [← there]
    split
    · exact Place.file_toward s.place t.file
    · exact Place.file_toward s.place t.file
  obtain ⟨s', x, ok, placed, loaded'⟩ :=
    readWord_ok options (loaded.atPlace place) room (readToken_wordOf writable number) t.nonempty
      tracked
  dsimp only at placed loaded'
  rw [writeToken_eq]
  refine ⟨s', x, _, ⟨word.trans ok, ?_, fun _ => takes⟩, loaded', ?_, ?_⟩
  · rw [placed, file]
    exact (Place.file_toward p t.file).symm
  · simp only [essence, Place.token, file, Option.getD_some]
  · intro together forward
    rw [together] at there
    have arrived : place = (p.toward t.file).atLine t.line := by
      rw [← there]
      split
      next => rfl
      -- no marker is written only where the line is the token's already
      next stays =>
        have line : (p.toward t.file).line = t.line := by
          rw [Place.line_toward] at stays ⊢
          exact UInt32.le_antisymm forward (UInt32.not_lt.1 stays)
        rw [← line]
        rfl
    exact ⟨by rw [arrived]; rfl, by rw [placed, arrived]⟩

/-- Appends tokens one after the other. -/
def writeTokens (names : Names) (p : Place) (text : String) (tokens : List Token) :
    Place × String :=
  tokens.foldl (fun written t => writeToken names true written.1 written.2 t) (p, text)

/-- No file goes back to an earlier line, from this place on. -/
structure Forward (p : Place) (tokens : List Token) : Prop where
  lines : tokens.Pairwise fun a b => a.file = b.file → a.line ≤ b.line
  start : ∀ t ∈ tokens, p.lineIn t.file ≤ t.line

theorem Forward.tail {p : Place} {t : Token} {tokens : List Token}
    (forward : Forward p (t :: tokens)) : Forward ((p.toward t.file).atLine t.line) tokens := by
  obtain ⟨first, rest⟩ := List.pairwise_cons.1 forward.lines
  refine ⟨rest, ?_⟩
  intro u mem
  rw [Place.lineIn_atLine, Place.file_toward, Place.lineIn_toward]
  split
  next same => exact first u mem (Option.some.inj same)
  next => exact forward.start u (List.mem_cons_of_mem t mem)

/-- The brackets that are open after the texts, if brackets are linked at all. -/
def trackIf (options : Options) (stack : List Bracket) (text : String) : Option (List Bracket) :=
  if options.linkBrackets then track stack text else some stack

theorem Beside.steps {p : Place} (beside : Beside names options p text s)
    {order : List Handle} {read : List Token} {stack : List Bracket}
    (loaded : Loaded s order read stack) {tokens : List Token}
    (room : read.length + tokens.length ≤ Limits.dumpTokens)
    (writable : ∀ t ∈ tokens, Writable t) (named : ∀ t ∈ tokens, Named names t.file)
    (tracked : (tokens.map (·.text)).foldlM (trackIf options) stack = some []) :
    ∃ s' order' more,
      scan names options (writeTokens names p text tokens).2 = .ok s' ∧
      Loaded s' order' (read ++ more) [] ∧ more.map essence = tokens.map essence ∧
      (s.place = p → Forward p tokens → more.map (·.line) = tokens.map (·.line)) := by
  induction tokens generalizing p text s order read stack with
  | nil =>
      obtain rfl : stack = [] := Option.some.inj tracked
      refine ⟨s, order, [], beside.scanned, ?_, rfl, fun _ _ => rfl⟩
      rw [List.append_nil]
      exact loaded
  | cons t tokens ih =>
      rw [List.length_cons] at room
      rw [List.map_cons, List.foldlM_cons] at tracked
      obtain ⟨stack', first, rest⟩ := Option.bind_eq_some_iff.1 tracked
      obtain ⟨s₁, x, u, beside₁, loaded₁, same, line⟩ :=
        beside.step loaded (by omega) (writable t List.mem_cons_self)
          (named t List.mem_cons_self) first
      obtain ⟨s', order', more, scanned, loaded', essences, lines⟩ :=
        ih beside₁ loaded₁ (by rw [List.length_append, List.length_singleton]; omega)
          (fun t mem => writable t (List.mem_cons_of_mem _ mem))
          (fun t mem => named t (List.mem_cons_of_mem _ mem)) rest
      refine ⟨s', order', u :: more, scanned, ?_, ?_, ?_⟩
      · rw [List.append_cons]
        exact loaded'
      · rw [List.map_cons, List.map_cons, same, essences]
      · intro together forward
        obtain ⟨here, place⟩ := line together (forward.start t List.mem_cons_self)
        rw [List.map_cons, List.map_cons, here, lines place forward.tail]

end

theorem foldlM_trackIf {options : Options} {texts : List String}
    (nested : options.linkBrackets = true → WellNested Limits.openBrackets texts) :
    texts.foldlM (trackIf options) [] = some [] := by
  cases links : options.linkBrackets with
  | true =>
      have same : trackIf options = track := by
        funext stack text
        rw [trackIf, if_pos links]
      rw [same]
      exact foldlM_track_of_wellNested (nested links) (by simp)
  | false =>
      have same : trackIf options = fun stack _ => some stack := by
        funext stack text
        rw [trackIf, links]
        rfl
      rw [same]
      clear nested
      induction texts with
      | nil => rfl
      | cons text texts ih => exact ih

/-- Tokens that are written as a dump are read back from it, if its lines can be numbered. -/
theorem parse_written {tokens : List Token} (short : tokens.length ≤ Limits.dumpTokens)
    (title : Option String) (names : Names) (options : Options)
    (clean : ∀ text, title = some text → '\n' ∉ text.toList)
    (writable : ∀ t ∈ tokens, Writable t) (named : ∀ t ∈ tokens, Named names t.file)
    (nested : options.linkBrackets = true →
      WellNested Limits.openBrackets (tokens.map (·.text))) :
    let text := (writeTokens names .start (banner title) tokens).2 ++ "\n"
    (Text.lines text.toList).length < UInt32.size →
      ∃ loaded order, parse text names options = .ok loaded ∧ loaded.Valid order ∧
        (order.filterMap loaded.token?).map essence = tokens.map essence ∧
        (tokens.Pairwise (fun a b => a.file = b.file → a.line ≤ b.line) →
          (order.filterMap loaded.token?).map (·.line) = tokens.map (·.line)) := by
  intro text few
  have beside : Beside names options .start (banner title) .start :=
    ⟨scan_banner title clean, rfl, fun somewhere => absurd rfl somewhere⟩
  obtain ⟨s', order, read, scanned, loaded, essences, lines⟩ :=
    beside.steps loaded_start (by simpa using short) writable named (foldlM_trackIf nested)
  rw [List.nil_append] at loaded
  have openers : s'.openers = [] := List.forall₂_nil_right_iff.1 loaded.opens
  refine ⟨s'.chain, order, ?_, loaded.valid, ?_, ?_⟩
  · rw [parse_newline few, scanned, ok_bind, loaded.finish_nil openers]
  · rw [loaded.filterMap_token?]
    exact essences
  · intro forward
    rw [loaded.filterMap_token?]
    exact lines rfl ⟨forward, fun t mem => UInt32.zero_le⟩

end TokenStream.Dump

namespace TokenStream.Chain

open Dump

variable {c : Chain}

theorem writeFrom_eq (names : Names) (showVarId : Bool) {A C : List Handle}
    (sound : c.view.Sound (A ++ C)) {n : Nat} (fuel : C.length ≤ n) (p : Place) (text : String) :
    c.writeFrom names showVarId n C.head? p text =
      .ok ((C.filterMap c.token?).foldl
        (fun written t => writeToken names showVarId written.1 written.2 t) (p, text)).2 := by
  induction C generalizing A n p text with
  | nil => cases n <;> rfl
  | cons h C ih =>
      rw [List.length_cons] at fuel
      obtain ⟨n, rfl⟩ : ∃ m, n = m + 1 := ⟨n - 1, by omega⟩
      obtain ⟨node, here, -, next⟩ := exists_node_of_sound sound
      have found : c.token? h = some node.token := congrArg _ here
      rw [List.append_cons] at sound
      have rest := ih sound (Nat.le_of_succ_le_succ fuel)
        (writeToken names showVarId p text node.token).1
        (writeToken names showVarId p text node.token).2
      rw [← next] at rest
      have listed : (h :: C).filterMap c.token? = node.token :: C.filterMap c.token? :=
        List.filterMap_cons_some found
      rw [listed, List.head?_cons, writeFrom, node_eq_ok_iff.2 here, ok_bind]
      exact rest

/-- The dump of a chain is that of its tokens. -/
theorem render_eq {order : List Handle} (sound : c.view.Sound order) (title : Option String)
    (names : Names) :
    c.render c.front true title names =
      .ok ((writeTokens names .start (banner title) (order.filterMap c.token?)).2 ++ "\n") := by
  have fuel := length_le_stepLimit sound
  have written := writeFrom_eq names true (A := []) sound fuel .start (banner title)
  have front : c.front = order.head? := sound.ring.next_none
  rw [render, front, written]
  rfl

/-- A valid chain has a dump. If the lines of the dump can be numbered, it reads back as a valid
chain with the same texts, files and variable identities in the same order, and with the same lines
if no file goes back to an earlier one. -/
theorem parse_render {order : List Handle} (sound : c.view.Sound order)
    (short : order.length ≤ Limits.dumpTokens) (title : Option String) (names : Names)
    (options : Options) (clean : ∀ text, title = some text → '\n' ∉ text.toList)
    (writable : ∀ h t, c.token? h = some t → Writable t)
    (named : ∀ h t, c.token? h = some t → Named names t.file)
    (nested : options.linkBrackets = true →
      WellNested Limits.openBrackets ((order.filterMap c.token?).map (·.text))) :
    ∃ text, c.render c.front true title names = .ok text ∧
      ((Text.lines text.toList).length < UInt32.size →
        ∃ loaded order',
          parse text names options = .ok loaded ∧ loaded.validate = .ok () ∧
          loaded.Valid order' ∧
          (order'.filterMap loaded.token?).map (fun t => (t.text, t.file, t.varId)) =
            (order.filterMap c.token?).map (fun t => (t.text, t.file, t.varId)) ∧
          ((order.filterMap c.token?).Pairwise (fun a b => a.file = b.file → a.line ≤ b.line) →
            (order'.filterMap loaded.token?).map (·.line) =
              (order.filterMap c.token?).map (·.line))) := by
  have listed : ∀ t ∈ order.filterMap c.token?, ∃ h, c.token? h = some t := by
    intro t mem
    obtain ⟨h, -, found⟩ := List.mem_filterMap.1 mem
    exact ⟨h, found⟩
  have room : (order.filterMap c.token?).length ≤ Limits.dumpTokens :=
    Nat.le_trans (List.length_filterMap_le c.token? order) short
  refine ⟨_, render_eq sound title names, fun few => ?_⟩
  obtain ⟨loaded, order', parsed, valid, essences, lines⟩ :=
    parse_written room title names options clean
      (fun t mem => by
        obtain ⟨h, found⟩ := listed t mem
        exact writable h t found)
      (fun t mem => by
        obtain ⟨h, found⟩ := listed t mem
        exact named h t found)
      nested few
  exact ⟨loaded, order', parsed, validate_of_sound valid.stored.live_eq valid.sound, valid,
    essences, lines⟩

/-- `( x )`, where the name is included from another file. -/
def including : Chain :=
  let slot (t : Token) (varId file line : UInt32) (next prev : Option Handle) : Slot :=
    { generation := 0
      node := some { token := { t with varId, file, line }, next, prev, link := none } }
  { slots := #[slot (.bare "(") 0 0 1 (some ⟨1, 0⟩) none,
      slot (.bare "x") 7 1 3 (some ⟨2, 0⟩) (some ⟨0, 0⟩),
      slot (.bare ")") 0 0 2 none (some ⟨1, 0⟩)]
    free := []
    live := 3
    front := some ⟨0, 0⟩
    back := some ⟨2, 0⟩ }

theorem including_live (h : Handle) (live : including.contains h = true) :
    h = ⟨0, 0⟩ ∨ h = ⟨1, 0⟩ ∨ h = ⟨2, 0⟩ := by
  have mem : h ∈ [(⟨0, 0⟩ : Handle), ⟨1, 0⟩, ⟨2, 0⟩] :=
    mem_of_occupied_le (by decide) (by decide) (by decide) live
  simpa using mem

theorem including_sound : including.view.Sound [⟨0, 0⟩, ⟨1, 0⟩, ⟨2, 0⟩] := by
  refine ⟨by decide, ?_, ?_, ?_⟩
  · intro h
    rw [← contains_eq_isSome_token?]
    constructor
    · intro mem
      simp only [List.mem_cons, List.not_mem_nil, or_false] at mem
      rcases mem with rfl | rfl | rfl <;> rfl
    · intro live
      simpa using including_live h live
  · exact .cons_cons ⟨rfl, rfl⟩ (.cons_cons ⟨rfl, rfl⟩ (.cons_cons ⟨rfl, rfl⟩
      (.cons_cons ⟨rfl, rfl⟩ (.singleton _))))
  · intro h k link
    rcases including_live h (live_of_partner link) with rfl | rfl | rfl <;> cases link

theorem including_round_trip :
    ∃ text loaded,
      including.render including.front true (some "sample") (some ["main.c"]) = .ok text ∧
      parse text (some ["main.c"]) {} = .ok loaded ∧ loaded.validate = .ok () := by
  have plain {text : String} (absent : '@' ∉ text.toList) (before digits : List Char)
      (shape : text.toList = before ++ '@' :: digits) :
      before ≠ [] → Text.isDigits digits = false :=
    absurd (by rw [shape]; simp) absent
  have token (h : Handle) (t : Token) (found : including.token? h = some t) :
      Writable t ∧ Named (some ["main.c"]) t.file := by
    have live : including.contains h = true := by
      rw [contains_eq_isSome_token?]
      exact Option.isSome_of_eq_some found
    have main : Named (some ["main.c"]) 0 :=
      ⟨Text.isWord_of_all rfl rfl, fun i less => nomatch less⟩
    have number : Named (some ["main.c"]) 1 :=
      show toString (1 : UInt32) ∉ ["main.c"] by decide
    rcases including_live h live with rfl | rfl | rfl
    · cases found
      exact ⟨⟨Text.isWord_of_all rfl rfl, fun _ => plain (by decide)⟩, main⟩
    · cases found
      exact ⟨⟨Text.isWord_of_all rfl rfl, fun unnamed => absurd unnamed (by decide)⟩, number⟩
    · cases found
      exact ⟨⟨Text.isWord_of_all rfl rfl, fun _ => plain (by decide)⟩, main⟩
  have nested : WellNested Limits.openBrackets ["(", "x", ")"] :=
    .pair .round (.plain (fun b => by cases b <;> decide) .nil) .nil
  obtain ⟨text, rendered, back⟩ :=
    parse_render including_sound (by decide) (some "sample") (some ["main.c"]) {} (by decide)
      (fun h t found => (token h t found).1) (fun h t found => (token h t found).2)
      (fun _ => nested)
  have written : including.render including.front true (some "sample") (some ["main.c"]) =
      .ok ("\n### sample ###\n\n\n##file main.c\n1: (\n" ++
        "\n##file 1\n1:\n2:\n3: x@7\n\n##file main.c\n2: )\n") := rfl
  cases written.symm.trans rendered
  obtain ⟨loaded, -, parsed, valid, -⟩ := back (by decide)
  exact ⟨_, loaded, rendered, parsed, valid⟩

end TokenStream.Chain
