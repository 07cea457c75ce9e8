import TokenStream.Proofs.Dump.Load
/-!
Reading with brackets linked beside reading without. Both make the same tokens of a dump. Where the
brackets are well nested the links join exactly those that belong together; where they are not, the
reading ends at the first bracket out of place, or after the last token if one stays open.
-/
namespace TokenStream

namespace Dump

open Chain

/-! ### Links by position -/

/-- The links of a chain join the nodes whose texts are brackets that belong together. -/
def Links (c : Chain) (order : List Handle) (texts : List String) : Prop :=
  ∀ h k, c.view.partner h = some k ↔
    ∃ i j, order[i]? = some h ∧ order[j]? = some k ∧ Paired texts i j

theorem getElem?_concat_eq_some_iff {order : List Handle} {x h : Handle} {i : Nat} :
    (order ++ [x])[i]? = some h ↔ order[i]? = some h ∨ i = order.length ∧ x = h := by
  rw [List.getElem?_append]
  split
  next less => simp [Nat.ne_of_lt less]
  next more =>
    have none_here : order[i]? = none := List.getElem?_eq_none (Nat.not_lt.1 more)
    rw [none_here]
    by_cases last : i = order.length
    · simp [last]
    · have far : i - order.length ≠ 0 := by omega
      obtain ⟨k, beyond⟩ := Nat.exists_eq_succ_of_ne_zero far
      simp [last, beyond]

section
variable {c d : Chain} {order : List Handle} {texts : List String} {x : Handle}

/-- A token that closes nothing leaves the links as they are. -/
theorem Links.keep (links : Links c order texts) (size : order.length = texts.length)
    {text : String} (other : ∀ b : Bracket, text ≠ b.closing) :
    Links c (order ++ [x]) (texts ++ [text]) := by
  intro h k
  rw [links h k]
  simp only [getElem?_concat_eq_some_iff, paired_concat_of_not_closing other]
  constructor
  · rintro ⟨i, j, first, second, pair⟩
    exact ⟨i, j, .inl first, .inl second, pair⟩
  · rintro ⟨i, j, first, second, pair⟩
    obtain ⟨insideI, insideJ⟩ := pair.lt_length
    refine ⟨i, j, first.resolve_right ?_, second.resolve_right ?_, pair⟩
    · exact fun last => by omega
    · exact fun last => by omega

/-- A bracket that is open has no link. -/
theorem Links.loose {b : Bracket} {before inner : List String} {depth : Nat}
    (links : Links c order (before ++ b.opening :: inner)) (nested : WellNested depth inner)
    (size : order.length = (before ++ b.opening :: inner).length) (nodup : order.Nodup)
    {o : Handle} (waits : order[before.length]? = some o) : c.view.partner o = none := by
  refine Option.eq_none_iff_forall_ne_some.2 fun k link => ?_
  obtain ⟨i, j, first, -, pair⟩ := (links o k).1 link
  obtain rfl : i = before.length :=
    (List.getElem?_inj (size ▸ pair.lt_length.1) nodup).1 (first.trans waits.symm)
  exact Matched.not_of_opened nested j pair

/-- A closing bracket is linked to the one that was open behind it. -/
theorem Links.close {b : Bracket} {before inner : List String} {depth : Nat}
    (links : Links c order (before ++ b.opening :: inner)) (nested : WellNested depth inner)
    (size : order.length = (before ++ b.opening :: inner).length) (nodup : order.Nodup)
    (new : x ∉ order) {o : Handle} (waits : order[before.length]? = some o)
    (view : d.view = c.view.linkPair o x) :
    Links d (order ++ [x]) (before ++ b.opening :: inner ++ [b.closing]) := by
  have ne : o ≠ x := by
    rintro rfl
    exact new (List.mem_of_getElem? waits)
  have looseO := links.loose nested size nodup waits
  have looseX : c.view.partner x = none := by
    refine Option.eq_none_iff_forall_ne_some.2 fun k link => ?_
    obtain ⟨i, j, first, -, -⟩ := (links x k).1 link
    exact new (List.mem_of_getElem? first)
  have inside := (List.getElem?_eq_some_iff.1 waits).1
  have beyond {y : Handle} : order[(before ++ b.opening :: inner).length]? ≠ some y := by
    rw [← size, List.getElem?_length]
    exact Option.some_ne_none y |>.symm
  intro h k
  rw [view, View.partner_linkPair_eq_some_iff ne looseO looseX, links h k]
  simp only [getElem?_concat_eq_some_iff, paired_concat_closing nested]
  constructor
  · rintro (⟨i, j, first, second, pair⟩ | ⟨rfl, rfl⟩ | ⟨rfl, rfl⟩)
    · exact ⟨i, j, .inl first, .inl second, .inl pair⟩
    · exact ⟨_, _, .inl waits, .inr ⟨rfl, rfl⟩, .inr (.inl ⟨rfl, size⟩)⟩
    · exact ⟨_, _, .inr ⟨rfl, rfl⟩, .inl waits, .inr (.inr ⟨size, rfl⟩)⟩
  · rintro ⟨i, j, first, second, pair | ⟨rfl, rfl⟩ | ⟨rfl, rfl⟩⟩
    · obtain ⟨insideI, insideJ⟩ := pair.lt_length
      exact .inl ⟨i, j, first.resolve_right fun last => by omega,
        second.resolve_right fun last => by omega, pair⟩
    · have atO := first.resolve_right fun last => by omega
      have atX := second.resolve_left beyond
      exact .inr (.inl ⟨Option.some.inj (atO.symm.trans waits), atX.2.symm⟩)
    · have atO := second.resolve_right fun last => by omega
      have atX := first.resolve_left beyond
      exact .inr (.inr ⟨atX.2.symm, Option.some.inj (atO.symm.trans waits)⟩)

end

/-! ### The reader with links -/

/-- A token that was read, with its handle and its line in the dump. -/
structure Row where
  handle : Handle
  token : Token
  line : Nat

namespace Row

def text (row : Row) : String := row.token.text

def mark (row : Row) : String × Nat := (row.text, row.line)

end Row

/-- The opener stands for the bracket of this row. -/
structure Opener.Awaits (o : Opener) (row : Row) : Prop where
  handle : o.handle = row.handle
  line : o.line = row.line

/-- The state after these rows, with brackets linked. -/
structure Linked (s : State) (rows : List Row) : Prop where
  loaded : ∃ stack, Loaded s (rows.map Row.handle) (rows.map Row.token) stack
  waiting : ∃ stack, Leaves Row.text Limits.openBrackets rows stack ∧
    List.Forall₂ Opener.Awaits s.openers stack
  links : Links s.chain (rows.map Row.handle) (rows.map Row.text)

/-- How reading goes on: in a state with these rows, or with the error of the first bracket out of
place among them. -/
def Outcome (place : Place) (rows : List Row) (result : Except Failure State) : Prop :=
  (∃ t, result = .ok t ∧ t.place = place ∧ Linked t rows) ∨
    ∃ e, result = .error (.refused e) ∧ Misplaced Limits.openBrackets (rows.map Row.mark) e

section
variable {s t : State} {rows : List Row} {row : Row}

theorem map_mark_concat (rows : List Row) (row : Row) :
    (rows ++ [row]).map Row.mark = rows.map Row.mark ++ [(row.text, row.line)] := by
  rw [List.map_append]
  rfl

/-- The rows tell which token a handle has. -/
theorem token_of_mem {stack : List Bracket}
    (loaded : Loaded s (rows.map Row.handle) (rows.map Row.token) stack) (mem : row ∈ rows) :
    s.chain.token? row.handle = some row.token := by
  have tokens := loaded.tokens
  rw [List.map_map, List.map_map] at tokens
  exact List.map_inj_left.1 tokens row mem

theorem Opener.Awaits.token {o : Opener} {top : Row} (awaits : o.Awaits top)
    {stack : List Bracket} (loaded : Loaded s (rows.map Row.handle) (rows.map Row.token) stack)
    (mem : top ∈ rows) : s.chain.token? o.handle = some top.token := by
  rw [awaits.handle]
  exact token_of_mem loaded mem

/-- The state after these rows into which the token of one more has come, before its bracket is
looked at. -/
structure Added (t : State) (rows : List Row) (row : Row) : Prop where
  loaded : ∃ stack, Loaded t ((rows ++ [row]).map Row.handle) ((rows ++ [row]).map Row.token) stack
  new : row.handle ∉ rows.map Row.handle
  handles : ∀ o ∈ t.openers, o.handle ∈ rows.map Row.handle
  waiting : ∃ stack, Leaves Row.text Limits.openBrackets rows stack ∧
    List.Forall₂ Opener.Awaits t.openers stack
  links : Links t.chain (rows.map Row.handle) (rows.map Row.text)

theorem Linked.add (linked : Linked s rows)
    (loaded : ∃ stack,
      Loaded t ((rows ++ [row]).map Row.handle) ((rows ++ [row]).map Row.token) stack)
    (new : row.handle ∉ rows.map Row.handle) (openers : t.openers = s.openers)
    (partner : t.chain.view.partner = s.chain.view.partner) : Added t rows row where
  loaded := loaded
  new := new
  handles := by
    obtain ⟨_, before⟩ := linked.loaded
    exact openers ▸ before.handles
  waiting := openers ▸ linked.waiting
  links h k := by
    rw [partner]
    exact linked.links h k

/-- A state that comes out has its tokens; what is open and what is linked remains to be seen. -/
theorem Added.arrive (added : Added t rows row) {t' : State}
    (ok : trackBracket row.line row.handle row.text t = .ok t')
    (waiting : ∃ stack, Leaves Row.text Limits.openBrackets (rows ++ [row]) stack ∧
      List.Forall₂ Opener.Awaits t'.openers stack)
    (links : Links t'.chain (rows.map Row.handle ++ [row.handle])
      (rows.map Row.text ++ [row.text])) :
    Outcome t.place (rows ++ [row]) (trackBracket row.line row.handle row.text t) := by
  obtain ⟨stack, before⟩ := added.loaded
  have last : ∀ o ∈ t.openers, o.handle ≠ row.handle := fun o opener same =>
    added.new (same ▸ added.handles o opener)
  have here : (t.chain.token? row.handle).map (·.text) = some row.text := by
    have listed : row ∈ rows ++ [row] := List.mem_append_right rows List.mem_cons_self
    rw [token_of_mem before listed]
    rfl
  obtain ⟨place, loaded⟩ := before.of_trackBracket last here ok
  refine .inl ⟨t', ok, place, loaded, waiting, ?_⟩
  rw [List.map_append, List.map_append]
  exact links

theorem Added.plain (added : Added t rows row)
    (other : ∀ b : Bracket, row.text ≠ b.opening ∧ row.text ≠ b.closing) :
    Outcome t.place (rows ++ [row]) (trackBracket row.line row.handle row.text t) := by
  obtain ⟨stack, leaves, awaits⟩ := added.waiting
  refine added.arrive (trackBracket_plain other _ _ t) ⟨stack, leaves.append ?_, awaits⟩
    (added.links.keep (by simp) fun c => (other c).2)
  exact .plain other .nil

theorem Added.opening (added : Added t rows row) {b : Bracket} (opens : row.text = b.opening) :
    Outcome t.place (rows ++ [row]) (trackBracket row.line row.handle row.text t) := by
  obtain ⟨stack, leaves, awaits⟩ := added.waiting
  have start := trackBracket_opening row.line row.handle b t
  rw [← opens] at start
  obtain ⟨_, loaded⟩ := added.loaded
  have depth : t.depth = stack.length := loaded.depth_eq.trans awaits.length_eq
  by_cases full : Limits.openBrackets ≤ t.depth
  · rw [if_pos full] at start
    refine .inr ⟨_, start, ?_⟩
    have most := leaves.length_le
    rw [map_mark_concat, opens]
    refine .opening (leaves.map fun _ => rfl) ?_
    rw [List.length_map]
    omega
  · rw [if_neg full] at start
    refine added.arrive start
      ⟨row :: stack, leaves.push (by omega) opens, .cons ⟨rfl, rfl⟩ awaits⟩
      (added.links.keep (by simp) fun c same => ?_)
    have none_opens := ofOpening?_closing c
    rw [← same, opens, ofOpening?_opening] at none_opens
    cases none_opens

/-- A closing bracket that fits the innermost open one is linked to it. -/
theorem Added.fitting (added : Added t rows row) {b : Bracket} (closes : row.text = b.closing)
    {o : Opener} {rest : List Opener} (openers : t.openers = o :: rest) {top : Row}
    {stack : List Row} (leaves : Leaves Row.text Limits.openBrackets rows (top :: stack))
    (head : o.Awaits top) (tail : List.Forall₂ Opener.Awaits rest stack)
    (opens : top.text = b.opening) :
    Outcome t.place (rows ++ [row]) (trackBracket row.line row.handle row.text t) := by
  obtain ⟨_, loaded⟩ := added.loaded
  have memO : o.handle ∈ rows.map Row.handle := added.handles o (openers ▸ List.mem_cons_self)
  have ne : o.handle ≠ row.handle := fun same => added.new (same ▸ memO)
  obtain ⟨d, ok, -, view, -⟩ := linkPair_ok loaded.valid ne
    (by rw [List.map_append]; exact List.mem_append_left _ memO) (by simp)
  obtain ⟨before, inner, rfl, -, -, nested⟩ := leaves.exists_opened
  have waiting := head.token loaded (by simp)
  have start := trackBracket_closing_cons row.line row.handle b openers waiting
  rw [← closes, if_pos (show top.token.text = b.opening from opens), ok] at start
  have texts : (before ++ top :: inner).map Row.text =
      before.map Row.text ++ b.opening :: inner.map Row.text := by
    rw [List.map_append, List.map_cons, opens]
  have waits : ((before ++ top :: inner).map Row.handle)[(before.map Row.text).length]? =
      some o.handle := by
    simp [head.handle]
  have nodup := loaded.valid.sound.nodup
  rw [List.map_append] at nodup
  have links := added.links
  rw [texts] at links
  refine added.arrive start ⟨stack, leaves.pop opens closes, tail⟩ ?_
  rw [texts, closes]
  exact links.close nested (by simp) nodup.of_append_left added.new waits view

theorem Added.closing (added : Added t rows row) {b : Bracket} (closes : row.text = b.closing) :
    Outcome t.place (rows ++ [row]) (trackBracket row.line row.handle row.text t) := by
  obtain ⟨stack, leaves, awaits⟩ := added.waiting
  have marks : Leaves Prod.fst Limits.openBrackets (rows.map Row.mark) (stack.map Row.mark) :=
    leaves.map fun _ => rfl
  cases openers : t.openers with
  | nil =>
      rw [openers] at awaits
      cases awaits
      have start := trackBracket_closing_nil row.line row.handle b openers
      rw [← closes] at start
      refine .inr ⟨_, start, ?_⟩
      rw [map_mark_concat, closes]
      exact .closing marks fun top first => nomatch first
  | cons o rest =>
      rw [openers] at awaits
      cases awaits with
      | @cons _ top _ stack head tail =>
          by_cases fits : top.text = b.opening
          · exact added.fitting closes openers leaves head tail fits
          · obtain ⟨before, inner, rfl, -⟩ := leaves.exists_opened
            obtain ⟨_, loaded⟩ := added.loaded
            have waiting := head.token loaded (by simp)
            have start := trackBracket_closing_cons row.line row.handle b openers waiting
            rw [← closes, if_neg (show top.token.text ≠ b.opening from fits)] at start
            refine .inr ⟨_, start, ?_⟩
            rw [map_mark_concat, closes]
            refine .closing marks ?_
            rintro mark ⟨⟩
            exact fits

theorem Added.trackBracket (added : Added t rows row) :
    Outcome t.place (rows ++ [row]) (Dump.trackBracket row.line row.handle row.text t) := by
  rcases bracket_cases row.text with ⟨b, opens⟩ | ⟨b, closes⟩ | other
  · exact added.opening opens
  · exact added.closing closes
  · exact added.plain other

theorem Linked.atPlace (linked : Linked s rows) (place : Place) :
    Linked { s with place } rows :=
  ⟨linked.loaded.imp fun _ loaded => loaded.atPlace place, linked.waiting, linked.links⟩

theorem Linked.readWord (linked : Linked s rows) {options : Options}
    (links : options.linkBrackets = true) {number : Nat} (room : rows.length < Limits.dumpTokens)
    {w : List Char} {text : String} {varId : UInt32}
    (word : readToken number w = .ok (text, varId)) (nonempty : text ≠ "") :
    ∃ row : Row, row.token = s.place.token nonempty varId ∧ row.line = number ∧
      Outcome s.place (rows ++ [row]) (Dump.readWord options number s w) := by
  have fits : (rows.map Row.token).length < Limits.dumpTokens := by
    rw [List.length_map]
    exact room
  obtain ⟨_, before⟩ := linked.loaded
  obtain ⟨t, x, start, loaded, new, -, place, openers, partner⟩ :=
    readWord_eq options before fits word nonempty
  refine ⟨⟨x, s.place.token nonempty varId, number⟩, rfl, rfl, ?_⟩
  rw [start, if_pos links, ← place]
  refine Added.trackBracket (linked.add ?_ new openers partner)
  rw [List.map_append, List.map_append, place]
  exact ⟨_, loaded⟩

/-- A whole run with links, beside what the items say. -/
theorem Linked.run (linked : Linked s rows) {names : Names} {options : Options}
    (links : options.linkBrackets = true) {place final : Place} {items : List (Item × Nat)}
    {more : List (Token × Nat)} (reads : Reads names place items final more)
    (here : s.place = place) (room : rows.length + more.length ≤ Limits.dumpTokens) :
    ∃ new : List Row, new.map (fun row => (row.token, row.line)) = more ∧
      Outcome final (rows ++ new) (items.foldlM (readItem names options) s) := by
  induction reads generalizing s rows with
  | done =>
      refine ⟨[], rfl, .inl ⟨s, rfl, here, ?_⟩⟩
      rwa [List.append_nil]
  | moved other moves _ ih =>
      have first := readItem_of_move names options other s
      rw [here, moves] at first
      rw [List.foldlM_cons, first]
      exact ih (linked.atPlace _) rfl room
  | @token place final number word text varId rest read nonempty token _ ih =>
      rw [List.length_cons] at room
      obtain ⟨row, made, line, outcome⟩ :=
        linked.readWord links (by omega) token nonempty
      rw [here] at made outcome
      have first : readItem names options s (.token word, number) =
          Dump.readWord options number s word := rfl
      rw [List.foldlM_cons, first]
      rcases outcome with ⟨t, ok, there, linkedT⟩ | ⟨e, refused, wrong⟩
      · obtain ⟨new, same, outcome⟩ :=
          ih linkedT there (by rw [List.length_append, List.length_singleton]; omega)
        rw [List.append_assoc, ← ok_bind t (rest.foldlM (readItem names options)), ← ok] at outcome
        exact ⟨row :: new, by rw [List.map_cons, made, line, same], outcome⟩
      · -- what follows is not read, but the error does not depend on it
        refine ⟨row :: read.map fun mark => ⟨row.handle, mark.1, mark.2⟩, ?_, .inr ⟨e, ?_, ?_⟩⟩
        · rw [List.map_cons, made, line, List.map_map]
          exact congrArg _ (List.map_id read)
        · rw [refused]
          rfl
        · rw [List.append_cons, List.map_append]
          exact wrong.append _

end

theorem linked_start : Linked .start [] where
  loaded := ⟨[], loaded_start⟩
  waiting := ⟨[], .nested .nil, .nil⟩
  links h k := by
    constructor
    · intro link
      cases link
    · rintro ⟨i, j, first, -⟩
      cases first

/-! ### Whole dumps -/

theorem of_finish {options : Options} {s : State} {c : Chain} (done : finish options s = .ok c) :
    s.openers = [] ∧ s.chain = c := by
  unfold finish at done
  split at done
  next =>
    obtain ⟨_, -, refused⟩ := exists_of_bind_eq_ok done
    cases refused
  next none_open =>
    refine ⟨none_open, ?_⟩
    split at done
    next =>
      split at done
      next => exact Except.ok.inj done
      next => cases done
    next => exact Except.ok.inj done

/-- A dump that was read, whether its brackets are linked or not, has readable items. -/
theorem exists_reads_of_parse {text : String} {names : Names} {options : Options} {c : Chain}
    (read : parse text names options = .ok c) :
    ∃ order final more, Reads names .start (items text) final more ∧
      more.length ≤ Limits.dumpTokens ∧ c.Valid order ∧
      order.filterMap c.token? = more.map Prod.fst := by
  rw [parse_eq (few_of_parse read)] at read
  obtain ⟨s', run, done⟩ := exists_of_bind_eq_ok read
  obtain ⟨order, more, stack, reads, loaded, few, -⟩ :=
    loaded_start.exists_reads (Nat.zero_le _) run
  rw [List.nil_append] at loaded
  obtain ⟨-, rfl⟩ := of_finish done
  refine ⟨order, s'.place, more, reads, by simpa using few, loaded.valid, ?_⟩
  exact loaded.filterMap_token?

/-- A chain of these rows whose links are those of its brackets. -/
structure Joined (c : Chain) (rows : List Row) : Prop where
  valid : c.Valid (rows.map Row.handle)
  tokens : (rows.map Row.handle).filterMap c.token? = rows.map Row.token
  links : Links c (rows.map Row.handle) (rows.map Row.text)
  nested : WellNested Limits.openBrackets (rows.map Row.text)

theorem Linked.finish {s : State} {rows : List Row} (linked : Linked s rows) (options : Options) :
    (Dump.finish options s = .ok s.chain ∧ Joined s.chain rows) ∨
      ∃ (b : Bracket) (line : Nat) (stack : List (String × Nat)),
        Dump.finish options s = .error (.refused (.unbalancedBracket line b.opening)) ∧
        Leaves Prod.fst Limits.openBrackets (rows.map Row.mark) ((b.opening, line) :: stack) := by
  obtain ⟨⟨_, loaded⟩, ⟨stack, leaves, awaits⟩, links⟩ := linked
  cases openers : s.openers with
  | nil =>
      rw [openers] at awaits
      cases awaits
      refine .inl ⟨loaded.finish_nil openers options, loaded.valid, ?_, links, ?_⟩
      · exact loaded.filterMap_token?
      · exact Leaves.wellNested_iff.1 leaves
  | cons o rest =>
      rw [openers] at awaits
      cases awaits with
      | @cons _ top _ stack head tail =>
          obtain ⟨b, opens⟩ := leaves.exists_opening
          obtain ⟨before, inner, rfl, -⟩ := leaves.exists_opened
          have waiting := head.token loaded (by simp)
          have marks : Leaves Prod.fst Limits.openBrackets
              ((before ++ top :: inner).map Row.mark) ((top :: stack).map Row.mark) :=
            leaves.map fun _ => rfl
          rw [List.map_cons, Row.mark, opens, ← head.line] at marks
          have ended := finish_cons openers waiting options
          rw [show top.token.text = b.opening from opens] at ended
          exact .inr ⟨b, o.line, stack.map Row.mark, ended, marks⟩

theorem parse_of_reads {text : String} {names : Names} {options : Options}
    (links : options.linkBrackets = true)
    (few : (Text.lines text.toList).length < UInt32.size) {final : Place}
    {more : List (Token × Nat)} (reads : Reads names .start (items text) final more)
    (room : more.length ≤ Limits.dumpTokens) :
    ∃ rows : List Row, rows.map (fun row => (row.token, row.line)) = more ∧
      ((∃ c, parse text names options = .ok c ∧ Joined c rows) ∨
        ∃ e, parse text names options = .error (.refused e) ∧
          Refused Limits.openBrackets (rows.map Row.mark) e) := by
  obtain ⟨rows, same, outcome⟩ :=
    linked_start.run links reads rfl (by simpa using room)
  rw [List.nil_append] at outcome
  refine ⟨rows, same, ?_⟩
  rw [parse_eq few]
  rcases outcome with ⟨t, run, -, linked⟩ | ⟨e, run, wrong⟩
  · rw [run, ok_bind]
    rcases linked.finish options with ⟨done, joined⟩ | ⟨b, line, stack, refused, leaves⟩
    · exact .inl ⟨t.chain, done, joined⟩
    · exact .inr ⟨_, refused, .unclosed leaves⟩
  · rw [run]
    exact .inr ⟨e, rfl, .misplaced wrong⟩

end Dump

namespace Chain

open Dump

variable {c : Chain} {order : List Handle} {texts : List String}

theorem linksTo_iff (valid : c.Valid order) (size : order.length = texts.length)
    (links : Links c order texts) (i j : Nat) : c.LinksTo order i j ↔ Paired texts i j := by
  constructor
  · rintro ⟨h, k, first, second, link⟩
    obtain ⟨i', j', first', second', pair⟩ := (links h k).1 (link_eq_some_iff.1 link)
    obtain ⟨insideI, insideJ⟩ := pair.lt_length
    rw [← size] at insideI insideJ
    rw [(List.getElem?_inj insideI valid.sound.nodup).1 (first'.trans first.symm),
      (List.getElem?_inj insideJ valid.sound.nodup).1 (second'.trans second.symm)] at pair
    exact pair
  · intro pair
    obtain ⟨insideI, insideJ⟩ := pair.lt_length
    rw [← size] at insideI insideJ
    have first := List.getElem?_eq_getElem insideI
    have second := List.getElem?_eq_getElem insideJ
    exact ⟨_, _, first, second,
      link_eq_some_iff.2 ((links _ _).2 ⟨i, j, first, second, pair⟩)⟩

theorem link_eq_none (valid : c.Valid order) (links : Links c order texts) {i : Nat} {h : Handle}
    (here : order[i]? = some h) (single : ∀ j, ¬ Paired texts i j) : c.link h = .ok none := by
  refine link_ok_none (valid.live (List.mem_of_getElem? here)) fun k link => ?_
  obtain ⟨i', j, first, -, pair⟩ := (links h k).1 link
  have inside := (List.getElem?_eq_some_iff.1 here).1
  rw [← (List.getElem?_inj inside valid.sound.nodup).1 (here.trans first.symm)] at pair
  exact single j pair

/-- Reading with brackets linked, for every dump that reads without. It succeeds exactly if the
brackets are well nested; the tokens are the same, and the links are the pairs of brackets. Where
it fails, the error is that of the first bracket out of place, or else of the innermost one that
stays open. -/
theorem parse_linking_brackets {text : String} {names : Names} {check : Bool} {plain : Chain}
    (read : parse text names { linkBrackets := false, validate := check } = .ok plain)
    (check' : Bool) :
    ∃ order, plain.Valid order ∧
      let tokens := order.filterMap plain.token?
      let texts := tokens.map (·.text)
      let result := parse text names { linkBrackets := true, validate := check' }
      (tokenLines text).length = tokens.length ∧
      ((∃ c, result = .ok c) ↔ WellNested Limits.openBrackets texts) ∧
      (∀ c, result = .ok c →
        ∃ order', c.Valid order' ∧ order'.filterMap c.token? = tokens ∧
          (∀ i j, c.LinksTo order' i j ↔ Paired texts i j) ∧
          (∀ i h, order'[i]? = some h → (∀ j, ¬ Paired texts i j) → c.link h = .ok none) ∧
          ∀ i j k l, c.LinksTo order' i j → c.LinksTo order' k l → ¬ (i < k ∧ k < j ∧ j < l)) ∧
      ∀ failure, result = .error failure ↔
        ∃ e, failure = .refused e ∧
          Refused Limits.openBrackets (texts.zip (tokenLines text)) e := by
  obtain ⟨order, final, more, reads, room, valid, tokens⟩ := exists_reads_of_parse read
  have links : ({ linkBrackets := true, validate := check' } : Options).linkBrackets = true := rfl
  obtain ⟨rows, same, outcome⟩ := parse_of_reads links (few_of_parse read) reads room
  have lines : tokenLines text = rows.map Row.line := by
    rw [tokenLines, ← reads.lines, ← same, List.map_map]
    rfl
  have rowTokens : order.filterMap plain.token? = rows.map Row.token := by
    rw [tokens, ← same, List.map_map]
    rfl
  have texts : (rows.map Row.token).map (·.text) = rows.map Row.text := by
    rw [List.map_map]
    rfl
  have marks : (rows.map Row.text).zip (rows.map Row.line) = rows.map Row.mark :=
    List.zip_map' ..
  have marksTexts : (rows.map Row.mark).map Prod.fst = rows.map Row.text := by
    rw [List.map_map]
    rfl
  refine ⟨order, valid, ?_⟩
  dsimp only
  rw [rowTokens, texts, lines, marks]
  refine ⟨by simp, ?_⟩
  rcases outcome with ⟨c, ok, joined⟩ | ⟨e, error, refused⟩
  · rw [ok]
    refine ⟨iff_of_true ⟨c, rfl⟩ joined.nested, ?_, ?_⟩
    · rintro _ ⟨⟩
      have linksTo := linksTo_iff joined.valid (by simp) joined.links
      exact ⟨_, joined.valid, joined.tokens, linksTo,
        fun i h => link_eq_none joined.valid joined.links,
        fun i j k l first second => ((linksTo i j).1 first).not_crossing ((linksTo k l).1 second)⟩
    · intro failure
      refine iff_of_false (fun same => nomatch same) ?_
      rintro ⟨e, -, refused⟩
      refine refused.not_wellNested ?_
      rw [marksTexts]
      exact joined.nested
  · rw [error]
    refine ⟨iff_of_false (fun ⟨c, same⟩ => nomatch same) ?_, fun c same => (nomatch same), ?_⟩
    · rw [← marksTexts]
      exact refused.not_wellNested
    · intro failure
      constructor
      · rintro ⟨⟩
        exact ⟨e, rfl, refused⟩
      · rintro ⟨e', rfl, refused'⟩
        rw [refused.unique refused']

theorem parenthesis_linked_or_refused :
    (∃ plain order, parse "( x )" none { linkBrackets := false } = .ok plain ∧
      plain.Valid order ∧
      WellNested Limits.openBrackets ((order.filterMap plain.token?).map (·.text))) ∧
    ∃ plain order, parse "3:\n[ ( x" none { linkBrackets := false } = .ok plain ∧
      plain.Valid order ∧
      Refused Limits.openBrackets
        (((order.filterMap plain.token?).map (·.text)).zip (tokenLines "3:\n[ ( x"))
        (.unbalancedBracket 2 "(") := by
  constructor
  · obtain ⟨plain, read⟩ : ∃ plain, parse "( x )" none { linkBrackets := false } = .ok plain :=
      ⟨_, rfl⟩
    obtain ⟨order, valid, -, nested, -⟩ := parse_linking_brackets read true
    exact ⟨plain, order, read, valid, nested.1 ⟨_, rfl⟩⟩
  · obtain ⟨plain, read⟩ :
        ∃ plain, parse "3:\n[ ( x" none { linkBrackets := false } = .ok plain := ⟨_, rfl⟩
    obtain ⟨order, valid, -, -, -, refusal⟩ := parse_linking_brackets read true
    have failed : parse "3:\n[ ( x" none { linkBrackets := true, validate := true } =
        .error (.refused (.unbalancedBracket 2 "(")) := rfl
    obtain ⟨e, same, refused⟩ := (refusal _).1 failed
    cases same
    exact ⟨plain, order, read, valid, refused⟩

end Chain

end TokenStream
