import TokenStream.Proofs.Dump.RoundTrip
/-!
The markers of a dump. If no file goes back to an earlier line, the sections of a file count its
lines from 1 up to the last one without a gap, however often other files come between them, and
every token stands between the marker of its line and the next one of its file.
-/
namespace TokenStream.Dump

/-! ### What is written -/

def Piece.token? {α : Type} : Piece α → Option α
  | .token a => some a
  | _ => none

/-- The text of a piece. A file goes by its name in the table or else by its number, and a token is
followed by its variable identity if it has one and it is asked for. -/
def Piece.spell (names : Names) (showVarId : Bool) : Piece Token → String
  | .header file => "\n\n##file " ++ ((names.getD [])[file.toNat]?).getD (toString file)
  | .marker line => "\n" ++ toString line ++ ":"
  | .token t =>
    " " ++ t.text ++ if showVarId = true ∧ t.varId ≠ 0 then "@" ++ toString t.varId else ""

def spelled (names : Names) (showVarId : Bool) (pieces : List (Piece Token)) : String :=
  String.join (pieces.map (Piece.spell names showVarId))

/-- The header that a file needs at a place. -/
def heading (p : Place) (file : UInt32) : List (Piece Token) :=
  if p.file != some file then [.header file] else []

/-- The header and the markers that a token needs at a place. -/
def lead (p : Place) (t : Token) : List (Piece Token) :=
  heading p t.file ++
    (List.range' ((p.lineIn t.file).toNat + 1) (t.line.toNat - (p.lineIn t.file).toNat)).map
      .marker

/-- The tokens, each behind its lead. -/
def pieces : Place → List Token → List (Piece Token)
  | _, [] => []
  | p, t :: rest => lead p t ++ .token t :: pieces ((p.toward t.file).atLine t.line) rest

section
variable (names : Names) (showVarId : Bool)

theorem spelled_append (before after : List (Piece Token)) :
    spelled names showVarId (before ++ after) =
      spelled names showVarId before ++ spelled names showVarId after := by
  rw [spelled, List.map_append, String.join_append]
  rfl

theorem spelled_cons (piece : Piece Token) (rest : List (Piece Token)) :
    spelled names showVarId (piece :: rest) =
      piece.spell names showVarId ++ spelled names showVarId rest :=
  String.join_cons

theorem fileLabel_eq (file : UInt32) :
    fileLabel names file = ((names.getD [])[file.toNat]?).getD (toString file) := by
  unfold fileLabel
  cases names with
  | none => rfl
  | some table =>
      rw [Option.bind_some, Option.getD_some]
      cases table[file.toNat]? <;> rfl

theorem withHeader_eq (p : Place) (text : String) (file : UInt32) :
    withHeader names p text file =
      text ++ spelled names showVarId (heading p file) := by
  unfold withHeader heading
  rw [fileLabel_eq]
  split
  · simp [spelled, Piece.spell, String.append_assoc]
  · simp [spelled]

theorem writeMarkers_eq (text : String) (line target : UInt32) :
    writeMarkers text line target =
      text ++ spelled names showVarId
        ((List.range' (line.toNat + 1) (target.toNat - line.toNat)).map .marker) := by
  unfold writeMarkers
  generalize List.range' _ _ = lines
  induction lines generalizing text with
  | nil => simp [spelled]
  | cons n lines ih =>
      have marker : s!"\n{n}:" = (Piece.marker n).spell names showVarId := by
        simp [Piece.spell, toString, String.append_assoc]
      rw [List.foldl_cons, ih, marker, String.append_assoc, List.map_cons, spelled_cons]

theorem writeText_eq (text : String) (t : Token) :
    writeText text showVarId t = text ++ (Piece.token t).spell names showVarId := by
  unfold writeText Piece.spell
  by_cases shown : showVarId = true ∧ t.varId ≠ 0
  · simp [shown, toString, String.append_assoc]
  · have hidden : (showVarId && t.varId != 0) = false := by simpa using shown
    simp [hidden, shown, String.append_assoc]

theorem writeToken_spelled (p : Place) (text : String) (t : Token) :
    writeToken names showVarId p text t =
      ((p.toward t.file).atLine t.line,
        text ++ spelled names showVarId (lead p t ++ [.token t])) := by
  have token : spelled names showVarId [.token t] = (Piece.token t).spell names showVarId := by
    simp [spelled]
  rw [writeToken_eq, writeText_eq names, writeMarkers_eq names showVarId,
    withHeader_eq names showVarId, Place.line_toward, lead, spelled_append, spelled_append, token]
  simp only [String.append_assoc]

theorem foldl_writeToken (p : Place) (text : String) (tokens : List Token) :
    (tokens.foldl (fun written t => writeToken names showVarId written.1 written.2 t)
      (p, text)).2 = text ++ spelled names showVarId (pieces p tokens) := by
  induction tokens generalizing p text with
  | nil => simp [pieces, spelled]
  | cons t tokens ih =>
      rw [List.foldl_cons, writeToken_spelled, ih, String.append_assoc, ← spelled_append, pieces,
        List.append_assoc]
      rfl

end

/-! ### Tokens among the pieces -/

theorem token_not_mem_lead (p : Place) (t a : Token) : .token a ∉ lead p t := by
  unfold lead heading
  split <;> simp

theorem filterMap_pieces (p : Place) (tokens : List Token) :
    (pieces p tokens).filterMap Piece.token? = tokens := by
  induction tokens generalizing p with
  | nil => rfl
  | cons t tokens ih =>
      have nothing : (lead p t).filterMap Piece.token? = [] := by
        rw [List.filterMap_eq_nil_iff]
        intro piece mem
        cases piece with
        | header file => rfl
        | marker line => rfl
        | token a => exact absurd mem (token_not_mem_lead p t a)
      rw [pieces, List.filterMap_append, nothing, List.nil_append]
      exact congrArg (t :: ·) (ih _)

/-- Up to a token, the pieces are those of the tokens up to it. -/
theorem exists_tokens_upto {p : Place} {tokens : List Token} {before after : List (Piece Token)}
    {t : Token} (split : pieces p tokens = before ++ .token t :: after) :
    ∃ passed coming, tokens = passed ++ t :: coming ∧
      pieces p (passed ++ [t]) = before ++ [.token t] := by
  induction tokens generalizing p before with
  | nil => simp [pieces] at split
  | cons u tokens ih =>
      rw [pieces] at split
      rcases List.append_eq_append_iff.1 split with
        ⟨between, rfl, behind⟩ | ⟨between, cut, behind⟩
      · cases between with
        | nil =>
            obtain ⟨same, -⟩ := List.cons.inj behind
            cases same
            exact ⟨[], tokens, rfl, by rw [List.append_nil]; rfl⟩
        | cons piece between =>
            obtain ⟨rfl, later⟩ := List.cons.inj behind
            obtain ⟨passed, coming, rfl, upto⟩ := ih later
            refine ⟨u :: passed, coming, rfl, ?_⟩
            rw [List.cons_append, pieces, upto, List.append_assoc]
            rfl
      · cases between with
        | nil =>
            obtain ⟨same, -⟩ := List.cons.inj behind
            cases same
            rw [List.append_nil] at cut
            exact ⟨[], tokens, rfl, by rw [← cut]; rfl⟩
        | cons piece between =>
            -- a lead has no token in it
            obtain ⟨rfl, -⟩ := List.cons.inj behind
            exact absurd (by rw [cut]; simp) (token_not_mem_lead p u t)

/-! ### Lines -/

/-- The largest line of a file among the tokens, 0 if it has none. -/
def largestLine (file : UInt32) (tokens : List Token) : Nat :=
  ((tokens.filter (·.file == file)).map (·.line.toNat)).foldr max 0

theorem largestLine_cons (file : UInt32) (t : Token) (tokens : List Token) :
    largestLine file (t :: tokens) =
      if t.file = file then max t.line.toNat (largestLine file tokens)
      else largestLine file tokens := by
  by_cases same : t.file = file
  · simp [largestLine, same]
  · simp [largestLine, same]

theorem largestLine_le_iff {file : UInt32} {tokens : List Token} {n : Nat} :
    largestLine file tokens ≤ n ↔ ∀ t ∈ tokens, t.file = file → t.line.toNat ≤ n := by
  induction tokens with
  | nil => simp [largestLine]
  | cons t tokens ih =>
      rw [largestLine_cons, List.forall_mem_cons, ← ih]
      split
      next same => rw [Nat.max_le, forall_prop_of_true same]
      next other => rw [forall_prop_of_false other, true_and]

theorem line_le_largestLine {t : Token} {tokens : List Token} (mem : t ∈ tokens) :
    t.line.toNat ≤ largestLine t.file tokens :=
  largestLine_le_iff.1 (Nat.le_refl _) t mem rfl

theorem largestLine_upto {passed coming : List Token} {t : Token}
    (lines : (passed ++ t :: coming).Pairwise fun a b => a.file = b.file → a.line ≤ b.line) :
    largestLine t.file (passed ++ [t]) = t.line.toNat := by
  refine Nat.le_antisymm (largestLine_le_iff.2 ?_) (line_le_largestLine (by simp))
  intro u mem same
  rcases List.mem_append.1 mem with before | last
  · exact (List.pairwise_append.1 lines).2.2 u before t List.mem_cons_self same
  · rw [List.mem_singleton.1 last]

/-- Counting from one line to a later one, and from there on. -/
theorem range'_upto {low line : Nat} (le : low ≤ line) (high : Nat) :
    List.range' (low + 1) (line - low) ++ List.range' (line + 1) (high - line) =
      List.range' (low + 1) (max line high - low) := by
  have start : line + 1 = low + 1 + (line - low) := by omega
  have length : max line high - low = line - low + (high - line) := by omega
  rw [start, length, List.range'_append_1]

/-! ### Markers -/

theorem fileAfter_heading (p : Place) (file : UInt32) :
    fileAfter p.file (heading p file) = some file := by
  unfold heading
  split
  next => rfl
  next same =>
    have here : p.file = some file := by simpa using same
    exact here

theorem linesIn_heading (asked : Option UInt32 → Bool) (p : Place) (file : UInt32) :
    linesIn asked p.file (heading p file) = [] := by
  unfold heading
  split <;> rfl

theorem fileAfter_lead (p : Place) (t : Token) : fileAfter p.file (lead p t) = some t.file := by
  rw [lead, fileAfter_append, fileAfter_markers, fileAfter_heading]

/-- What a token needs is marked in the section of its file alone. -/
theorem linesIn_lead (p : Place) (t : Token) (file : UInt32) :
    linesIn (· == some file) p.file (lead p t) =
      if t.file = file then
        List.range' ((p.lineIn file).toNat + 1) (t.line.toNat - (p.lineIn file).toNat)
      else [] := by
  rw [lead, linesIn_append, linesIn_heading, fileAfter_heading, linesIn_markers, List.nil_append]
  by_cases same : t.file = file
  · subst same
    simp
  · simp [same]

theorem fileAfter_pieces_concat (p : Place) (passed : List Token) (t : Token) :
    fileAfter p.file (pieces p (passed ++ [t])) = some t.file := by
  induction passed generalizing p with
  | nil =>
      rw [List.nil_append, pieces, fileAfter_append, fileAfter_lead]
      rfl
  | cons u passed ih =>
      have rest := ih ((p.toward u.file).atLine u.line)
      rw [List.cons_append, pieces, fileAfter_append, fileAfter_lead, ← p.file_toward u.file]
      exact rest

/-- From a place on, the sections of a file count the lines after the one that the place has for it
up to the largest one that is still to come. -/
theorem linesIn_pieces {p : Place} {tokens : List Token} (forward : Forward p tokens)
    (file : UInt32) :
    linesIn (· == some file) p.file (pieces p tokens) =
      List.range' ((p.lineIn file).toNat + 1)
        (largestLine file tokens - (p.lineIn file).toNat) := by
  induction tokens generalizing p with
  | nil =>
      rw [largestLine, List.filter_nil, List.map_nil, List.foldr_nil, Nat.zero_sub]
      rfl
  | cons t tokens ih =>
      -- behind the token its file is at its line, and every other file is where it was
      have rest := ih forward.tail
      rw [Place.lineIn_atLine, Place.file_toward, Place.lineIn_toward] at rest
      have moved : ((p.toward t.file).atLine t.line).file = some t.file := p.file_toward t.file
      rw [moved] at rest
      rw [pieces, linesIn_append, linesIn_lead, fileAfter_lead, linesIn, rest, largestLine_cons]
      by_cases same : t.file = file
      · subst same
        rw [if_pos rfl, if_pos rfl, if_pos rfl]
        exact range'_upto (UInt32.le_iff_toNat_le.1 (forward.start t List.mem_cons_self)) _
      · have other : some t.file ≠ some file := fun eq => same (Option.some.inj eq)
        rw [if_neg same, if_neg other, if_neg same, List.nil_append]

theorem linesIn_pieces_start {tokens : List Token}
    (lines : tokens.Pairwise fun a b => a.file = b.file → a.line ≤ b.line) (file : UInt32) :
    linesIn (· == some file) none (pieces .start tokens) =
      List.range' 1 (largestLine file tokens) := by
  have forward : Forward .start tokens := ⟨lines, fun t mem => UInt32.zero_le⟩
  exact linesIn_pieces forward file

/-- Before a token its file is opened and marked up to the line it is on. The later lines are marked
behind it. -/
theorem linesIn_around {tokens : List Token}
    (lines : tokens.Pairwise fun a b => a.file = b.file → a.line ≤ b.line)
    {before after : List (Piece Token)} {t : Token}
    (split : pieces .start tokens = before ++ .token t :: after) :
    fileAfter none before = some t.file ∧
      linesIn (· == some t.file) none before = List.range' 1 t.line.toNat ∧
      linesIn (· == some t.file) (some t.file) after =
        List.range' (t.line.toNat + 1) (largestLine t.file tokens - t.line.toNat) := by
  have all := linesIn_pieces_start lines t.file
  obtain ⟨passed, coming, rfl, upto⟩ := exists_tokens_upto split
  have file : fileAfter none (pieces .start (passed ++ [t])) = some t.file :=
    fileAfter_pieces_concat .start passed t
  rw [upto, fileAfter_append] at file
  have opened : fileAfter none before = some t.file := file
  have part : (passed ++ [t]).Sublist (passed ++ t :: coming) := by simp
  have marked := linesIn_pieces_start (lines.sublist part) t.file
  have nothing (f : Option UInt32) : linesIn (· == some t.file) f [.token t] = [] := rfl
  rw [upto, linesIn_append, nothing, List.append_nil, largestLine_upto lines] at marked
  have le : t.line.toNat ≤ largestLine t.file (passed ++ t :: coming) :=
    line_le_largestLine (by simp)
  have counted :=
    range'_upto (Nat.zero_le t.line.toNat) (largestLine t.file (passed ++ t :: coming))
  rw [Nat.max_eq_right le, Nat.zero_add, Nat.sub_zero, Nat.sub_zero] at counted
  rw [split, linesIn_append, opened, marked, linesIn, ← counted] at all
  exact ⟨opened, marked, List.append_cancel_left all⟩

end TokenStream.Dump

namespace TokenStream.Chain

open Dump

variable {c : Chain}

/-- The dump of a chain from a start on is made of headers, markers and the tokens in their order.
If no file goes back to an earlier line, the markers in the sections of a file are its lines from 1
up to the largest one, each once and in order, and those before a token are the ones up to its
line. -/
theorem render_markers {order : List Handle} (sound : c.view.Sound order) (start : Option Handle)
    (live : ∀ h, start = some h → c.contains h = true) (showVarId : Bool) (title : Option String)
    (names : Names) :
    let tokens := (order.dropWhile (some · != start)).filterMap c.token?
    let written := pieces .start tokens
    c.render start showVarId title names =
        .ok (banner title ++ spelled names showVarId written ++ "\n") ∧
      written.filterMap Piece.token? = tokens ∧
      (tokens.Pairwise (fun a b => a.file = b.file → a.line ≤ b.line) →
        (∀ file, linesIn (· == some file) none written =
          List.range' 1 (largestLine file tokens)) ∧
        ∀ before t after, written = before ++ .token t :: after →
          fileAfter none before = some t.file ∧
          linesIn (· == some t.file) none before = List.range' 1 t.line.toNat ∧
          linesIn (· == some t.file) (some t.file) after =
            List.range' (t.line.toNat + 1) (largestLine t.file tokens - t.line.toNat)) := by
  intro tokens written
  refine ⟨?_, filterMap_pieces .start tokens, fun lines => ⟨linesIn_pieces_start lines, ?_⟩⟩
  · obtain ⟨A, C, rfl, rfl, part, -⟩ := exists_part sound live
    have fuel := length_rest_le_stepLimit sound
    have listed : tokens = C.filterMap c.token? := congrArg (List.filterMap c.token?) part
    have shown := writeFrom_eq names showVarId sound fuel .start (banner title)
    rw [foldl_writeToken, ← listed] at shown
    rw [render, shown]
    rfl
  · intro before t after split
    exact linesIn_around lines split

theorem including_markers :
    ∃ written,
      including.render including.front false none none =
        .ok (spelled none false written ++ "\n") ∧
      linesIn (· == some 0) none written = [1, 2] ∧
      linesIn (· == some 1) none written = [1, 2, 3] := by
  have front : ∀ h, including.front = some h → including.contains h = true := by
    intro h here
    cases here
    rfl
  obtain ⟨shown, -, counted⟩ :=
    render_markers including_sound including.front front false none none
  have lines := (counted (by decide)).1
  rw [banner, String.empty_append] at shown
  exact ⟨_, shown, lines 0, lines 1⟩

end TokenStream.Chain
