import TokenStream.Proofs.Chain.Block
import TokenStream.Proofs.Chain.Integrity
/-!
Whole histories of a chain: every chain that edits within their contract make out of the empty one
is valid, so what a walk or a link shows of it can be relied on, and the next edit does not fail
either if there is a slot left for what it allocates. Slots do run out: a chain that grows for long
enough comes to an edit that fails.
-/
namespace TokenStream

/-- The block of nodes from `first` to `last`, in the order in which they follow each other. -/
structure Chain.Span (c : Chain) (first last : Handle) (block : List Handle) : Prop where
  starts : block.head? = some first
  ends : block.getLast? = some last
  live : ∀ h ∈ block, c.contains h = true
  follow : block.IsChain fun a b => c.next a = .ok (some b)

namespace Edit

/-- What the caller of an edit owes. -/
def Admissible (c : Chain) : Edit → Prop
  | .push text _ _ => text ≠ ""
  | .insertAfter anchor text => c.contains anchor = true ∧ text ≠ ""
  | .deleteNext h | .deleteThis h | .unlink h => c.contains h = true
  | .replace target first last =>
    c.contains target = true ∧ ∃ block, c.Span first last block ∧ target ∉ block
  | .moveRange first last destination =>
    c.contains destination = true ∧ ∃ block, c.Span first last block ∧ destination ∉ block
  | .eraseRange first last =>
    (∀ h, first = some h → c.contains h = true) ∧ ∀ h, last = some h → c.contains h = true
  | .linkPair a b => a ≠ b ∧ c.contains a = true ∧ c.contains b = true
  | .change h wanted => c.contains h = true ∧ ∀ text, wanted = .text text → text ≠ ""

def allocates : Edit → Bool
  | .push .. | .insertAfter .. => true
  | _ => false

end Edit

/-- The chains that admissible edits lead to. -/
inductive History : Chain → Prop
  | start : History .empty
  | edit {c : Chain} {e : Edit} {r : Applied} :
      History c → e.Admissible c → c.apply e = .ok r → History r.chain

namespace Chain

variable {c : Chain} {order A C : List Handle} {h : Handle}

/-! ### Blocks of a valid chain -/

theorem Valid.exists_rest (valid : c.Valid (A ++ h :: C)) {block : List Handle}
    (follow : (h :: block).IsChain fun a b => c.next a = .ok (some b)) :
    ∃ rest, C = block ++ rest := by
  induction block generalizing A h C with
  | nil => exact ⟨C, rfl⟩
  | cons k block ih =>
      obtain ⟨next, follow⟩ := List.isChain_cons_cons.1 follow
      rw [valid.next_ok] at next
      obtain ⟨C, rfl⟩ := List.head?_eq_some_iff.1 (Except.ok.inj next)
      rw [List.append_cons] at valid
      obtain ⟨rest, rfl⟩ := ih valid follow
      exact ⟨rest, rfl⟩

theorem Span.exists_split (valid : c.Valid order) {first last : Handle} {block : List Handle}
    (span : c.Span first last block) : ∃ A C, order = A ++ block ++ C := by
  obtain ⟨block, rfl⟩ := List.head?_eq_some_iff.1 span.starts
  obtain ⟨A, C, rfl⟩ :=
    List.append_of_mem ((valid.mem_iff first).2 (span.live first List.mem_cons_self))
  obtain ⟨rest, rfl⟩ := valid.exists_rest span.follow
  exact ⟨A, rest, by simp⟩

/-- Any nodes that come one after the other in the order are a block. -/
theorem Valid.span {first last : Handle} {A B C : List Handle} (valid : c.Valid (A ++ B ++ C))
    (starts : B.head? = some first) (ends : B.getLast? = some last) : c.Span first last B where
  starts := starts
  ends := ends
  live k mem := valid.live (by simp [mem])
  follow := by
    clear starts ends
    induction B generalizing A with
    | nil => exact .nil
    | cons h B ih =>
        have later := ih (A := A ++ [h]) (by simpa using valid)
        cases B with
        | nil => exact .singleton h
        | cons k B =>
            refine .cons_cons ?_ later
            rw [List.append_assoc] at valid
            exact valid.next_ok

/-- A live node outside a block stands before it or after it. -/
theorem Span.exists_target (valid : c.Valid order) {first last t : Handle} {block : List Handle}
    (span : c.Span first last block) (live : c.contains t = true) (outside : t ∉ block) :
    ∃ A C X Y, order = A ++ block ++ C ∧ A ++ C = X ++ t :: Y := by
  obtain ⟨A, C, rfl⟩ := span.exists_split valid
  have mem := (valid.mem_iff t).2 live
  rw [List.append_assoc, List.mem_append, List.mem_append] at mem
  have rest : t ∈ A ++ C := by
    rcases mem with before | inside | after
    · exact List.mem_append_left C before
    · exact absurd inside outside
    · exact List.mem_append_right A after
  obtain ⟨X, Y, eq⟩ := List.append_of_mem rest
  exact ⟨A, C, X, Y, rfl, eq⟩

/-! ### Tokens -/

/-- A change that does not ask for an empty text succeeds. -/
theorem exists_apply (t : Token) {change : TokenChange}
    (asked : ∀ text, change = .text text → text ≠ "") :
    ∃ u refused, t.apply change = .ok (u, refused) := by
  cases change with
  | text text =>
      have given := asked text rfl
      refine ⟨{ t with text, nonempty := given, lexical := .ofText text, varId := 0 }, none, ?_⟩
      rw [Token.apply, Token.setText, dif_neg given]
      rfl
  | literal other =>
      cases ok : t.appendLiteral other with
      | ok u => exact ⟨u, none, by simp only [Token.apply, ok]⟩
      | error e => exact ⟨t, some e, by simp only [Token.apply, ok]⟩
  | mark mark value => exact ⟨_, none, rfl⟩
  | varId n => exact ⟨_, none, rfl⟩
  | file n => exact ⟨_, none, rfl⟩
  | line n => exact ⟨_, none, rfl⟩
  | progress n => exact ⟨_, none, rfl⟩

theorem changeToken_ok (valid : c.Valid order) (live : c.contains h = true) {change : TokenChange}
    (asked : ∀ text, change = .text text → text ≠ "") :
    ∃ r, c.changeToken h change = .ok r ∧ r.chain.Valid order := by
  obtain ⟨n, found, ok⟩ := exists_node? live
  obtain ⟨u, refused, changed⟩ := exists_apply n.token asked
  refine ⟨{ chain := c.setNode h { n with token := u }, refused }, ?_,
    (setToken_ok valid found u).2.2⟩
  simp only [changeToken, ok, ok_bind, changed]
  rfl

/-! ### One edit -/

theorem live_le_slots (valid : c.Valid order) : c.live ≤ Limits.slots := by
  have slots := valid.stored.length_free_add_live
  have bound := valid.stored.size_le
  omega

theorem push_full (valid : c.Valid order) (full : c.live = Limits.slots) {text : String}
    (nonempty : text ≠ "") (line file : UInt32) :
    c.push text line file = .error .exhausted := by
  rw [push_eq, ofText_ok nonempty, ok_bind, allocate_full valid.stored full.ge]
  rfl

theorem insertAfter_full (valid : c.Valid order) (full : c.live = Limits.slots) {text : String}
    (nonempty : text ≠ "") (mem : h ∈ order) : c.insertAfter h text = .error .exhausted := by
  obtain ⟨anchor, found⟩ := valid.exists_token mem
  simp only [insertAfter, token_ok found, ofText_ok nonempty, ok_bind,
    allocate_full valid.stored full.ge]
  rfl

theorem exists_plain {r : Except Fault Chain} {d : Chain} (ok : r = .ok d)
    (valid : d.Valid order) : ∃ r' order, plain r = .ok r' ∧ r'.chain.Valid order := by
  subst ok
  exact ⟨{ chain := d }, order, rfl, valid⟩

theorem exists_issuing {r : Except Fault (Chain × Handle)} {d : Chain} (ok : r = .ok (d, h))
    (valid : d.Valid order) : ∃ r' order, issuing r = .ok r' ∧ r'.chain.Valid order := by
  subst ok
  exact ⟨{ chain := d, issued := some h }, order, rfl, valid⟩

/-- An edit within its contract leaves a valid chain valid, or there is no slot left for it. -/
theorem apply_valid (valid : c.Valid order) {e : Edit} (admissible : e.Admissible c) :
    (∃ r order, c.apply e = .ok r ∧ r.chain.Valid order) ∨
      (e.allocates = true ∧ c.live = Limits.slots ∧ c.apply e = .error .exhausted) := by
  -- all edits but `push` start at a live node, with part of the chain before and after it
  have split {h : Handle} (live : c.contains h = true) : ∃ A C, order = A ++ h :: C :=
    List.append_of_mem ((valid.mem_iff h).2 live)
  cases e with
  | push text line file =>
      by_cases room : c.live < Limits.slots
      · obtain ⟨d, x, ok, -, validD, -⟩ := push_ok valid room admissible line file
        exact .inl (exists_issuing ok validD)
      · have full := Nat.le_antisymm (live_le_slots valid) (Nat.not_lt.1 room)
        refine .inr ⟨rfl, full, ?_⟩
        rw [apply, push_full valid full admissible]
        rfl
  | insertAfter anchor text =>
      obtain ⟨live, nonempty⟩ := admissible
      obtain ⟨A, C, rfl⟩ := split live
      by_cases room : c.live < Limits.slots
      · obtain ⟨u, found⟩ := valid.exists_token (h := anchor) (by simp)
        obtain ⟨d, x, ok, -, validD, -⟩ := insertAfter_ok valid room nonempty found
        exact .inl (exists_issuing ok validD)
      · have full := Nat.le_antisymm (live_le_slots valid) (Nat.not_lt.1 room)
        refine .inr ⟨rfl, full, ?_⟩
        rw [apply, insertAfter_full valid full nonempty (by simp)]
        rfl
  | deleteNext h =>
      obtain ⟨A, C, rfl⟩ := split admissible
      left
      cases C with
      | nil => exact exists_plain (deleteNext_tail valid) valid
      | cons x C =>
          obtain ⟨d, ok, -, -, validD⟩ := deleteNext_ok valid
          exact exists_plain ok validD
  | deleteThis h =>
      obtain ⟨A, C, rfl⟩ := split admissible
      obtain ⟨t, found⟩ := valid.exists_token (h := h) (by simp)
      left
      cases C with
      | nil =>
          obtain ⟨d, ok, -, validD, -⟩ := deleteThis_tail valid found
          exact exists_plain ok validD
      | cons x C =>
          obtain ⟨u, foundX⟩ := valid.exists_token (h := x) (by simp)
          obtain ⟨d, eq, -, validD, -⟩ := deleteThis_ok valid found foundX
          obtain ⟨f, ok, -, -, validF⟩ := deleteNext_ok validD
          exact exists_plain (eq.trans ok) validF
  | replace target first last =>
      obtain ⟨live, block, span, outside⟩ := admissible
      obtain ⟨A, C, X, Y, rfl, rest⟩ := span.exists_target valid live outside
      obtain ⟨d, ok, -, -, validD⟩ := replace_ok valid span.starts span.ends rest
      exact .inl (exists_plain ok validD)
  | moveRange first last destination =>
      obtain ⟨live, block, span, outside⟩ := admissible
      obtain ⟨A, C, X, Y, rfl, rest⟩ := span.exists_target valid live outside
      obtain ⟨t, found⟩ := valid.exists_token ((valid.mem_iff destination).2 live)
      obtain ⟨d, ok, -, -, validD⟩ := moveRange_ok valid span.starts span.ends rest found
      exact .inl (exists_plain ok validD)
  | eraseRange first last =>
      left
      cases first with
      | none => exact exists_plain rfl valid
      | some h =>
          obtain ⟨A, C, rfl⟩ := split (admissible.1 h rfl)
          obtain ⟨d, ok, validD⟩ := eraseRange_ok last valid
          exact exists_plain ok validD
  | linkPair a b =>
      obtain ⟨ne, liveA, liveB⟩ := admissible
      obtain ⟨d, ok, -, -, validD⟩ :=
        linkPair_ok valid ne ((valid.mem_iff a).2 liveA) ((valid.mem_iff b).2 liveB)
      exact .inl (exists_plain ok validD)
  | unlink h =>
      obtain ⟨d, ok, -, -, validD⟩ := unlink_ok valid ((valid.mem_iff h).2 admissible)
      exact .inl (exists_plain ok validD)
  | change h wanted =>
      obtain ⟨r, ok, validR⟩ := changeToken_ok valid admissible.1 admissible.2
      exact .inl ⟨r, order, ok, validR⟩

/-! ### Whole histories -/

end Chain

theorem History.valid {c : Chain} (history : History c) : ∃ order, c.Valid order := by
  induction history with
  | start => exact ⟨[], Chain.valid_empty⟩
  | edit history admissible ok ih =>
      obtain ⟨order, valid⟩ := ih
      rcases Chain.apply_valid valid admissible with ⟨r, order, done, validR⟩ | ⟨-, -, failed⟩
      · rw [ok] at done
        cases done
        exact ⟨order, validR⟩
      · rw [ok] at failed
        cases failed

namespace Chain

variable {c : Chain} {order A C : List Handle}

theorem Valid.hop_next (valid : c.Valid (A ++ C)) (n : Nat) :
    hop c.next n C.head? = .ok C[n]? :=
  hop_next_of_sound valid.sound n

theorem Valid.hop_previous (valid : c.Valid (A ++ C)) (n : Nat) :
    hop c.previous n A.getLast? = .ok A.reverse[n]? :=
  hop_previous_of_sound valid.sound n

theorem Valid.collectFrom_ok (valid : c.Valid (A ++ C)) (n : Nat) (found : Array Handle) :
    c.collectFrom n C.head? found = .ok (found ++ (C.take n).toArray) :=
  collectFrom_of_sound valid.sound n found

/-- A walk over all of a chain meets its nodes in order. -/
theorem Valid.order_eq (valid : c.Valid order) {met : List Handle}
    (walk : c.handlesFrom c.live c.front = .ok met) : order = met := by
  have front : c.front = order.head? := valid.sound.ring.next_none
  have collected := valid.collectFrom_ok (A := []) c.live #[]
  rw [← front, ← valid.length_eq_live, List.take_length, Array.empty_append] at collected
  rw [handlesFrom, ← valid.length_eq_live, collected] at walk
  exact Except.ok.inj walk

/-- Every chain that admissible edits lead to passes its check: from the front its live nodes come
once each and in the reverse order from the back, they are as many as it says, links join two live
nodes and both know of it. The next admissible edit succeeds as well, if there are fewer live nodes
than slots or it allocates none. -/
theorem history_intact {c : Chain} (history : History c) :
    c.validate = .ok () ∧
      (∃ order : List Handle, order.Nodup ∧ (∀ h, h ∈ order ↔ c.contains h = true) ∧
        order.length = c.live ∧ (∀ n, hop c.next n c.front = .ok order[n]?) ∧
        c.back = order.getLast? ∧ ∀ n, hop c.previous n c.back = .ok order.reverse[n]?) ∧
      (∀ h k, c.link h = .ok (some k) → k ≠ h ∧ c.contains k = true ∧ c.link k = .ok (some h)) ∧
      ∀ e, e.Admissible c → (e.allocates = true → c.live < Limits.slots) →
        ∃ r, c.apply e = .ok r := by
  obtain ⟨order, valid⟩ := history.valid
  have front : c.front = order.head? := valid.sound.ring.next_none
  have back : c.back = order.getLast? := valid.sound.ring.prev_none
  refine ⟨validate_of_sound valid.stored.live_eq valid.sound, ?_, ?_, ?_⟩
  · refine ⟨order, valid.sound.nodup, valid.mem_iff, valid.length_eq_live, ?_, back, ?_⟩
    · intro n
      rw [front]
      exact valid.hop_next (A := []) n
    · intro n
      rw [back]
      rw [← List.append_nil order] at valid
      exact valid.hop_previous n
  · intro h k linked
    have live : c.contains h = true := by
      by_contra stale
      have gone : c.node? h = none := by simpa [contains] using stale
      rw [link, node_eq_error_iff.2 ⟨gone, rfl⟩] at linked
      cases linked
    rw [link_ok live] at linked
    obtain ⟨ne, mem, mutual_link⟩ := valid.sound.linked h k (Except.ok.inj linked)
    refine ⟨ne, valid.live mem, ?_⟩
    rw [link_ok (valid.live mem), mutual_link]
  · intro e admissible room
    rcases apply_valid valid admissible with ⟨r, -, ok, -⟩ | ⟨allocates, full, -⟩
    · exact ⟨r, ok⟩
    · exact absurd full (room allocates).ne

-- The brackets come before the name they belong to, and are then moved behind it.
theorem history_of_call : ∃ c, History c ∧ c.live = 3 ∧ c.validate = .ok () := by
  have h₁ : History _ := .edit (e := .push "(" 1 0) .start (show "(" ≠ "" by decide) rfl
  have h₂ : History _ := .edit (e := .push ")" 1 0) h₁ (show ")" ≠ "" by decide) rfl
  have h₃ : History _ := .edit (e := .linkPair ⟨0, 0⟩ ⟨1, 0⟩) h₂ ⟨by decide, rfl, rfl⟩ rfl
  have h₄ : History _ := .edit (e := .push "f" 1 0) h₃ (show "f" ≠ "" by decide) rfl
  have h₅ : History _ := .edit (e := .moveRange ⟨0, 0⟩ ⟨1, 0⟩ ⟨2, 0⟩) h₄
    ⟨rfl, [⟨0, 0⟩, ⟨1, 0⟩],
      { starts := rfl
        ends := rfl
        live := List.forall_mem_cons.2 ⟨rfl, List.forall_mem_singleton.2 rfl⟩
        follow := .cons_cons rfl (.singleton _) }, by decide⟩ rfl
  exact ⟨_, h₅, rfl, (history_intact h₅).1⟩

/-! ### The last slot -/

/-- Carries out edits one after the other. -/
def applyAll (c : Chain) (es : List Edit) : Except Fault Chain :=
  es.foldlM (fun c e => (c.apply e).map (·.chain)) c

theorem applyAll_concat {d : Chain} {es : List Edit} (ok : c.applyAll es = .ok d) (e : Edit) :
    c.applyAll (es ++ [e]) = (d.apply e).map (·.chain) := by
  unfold applyAll at ok ⊢
  rw [List.foldlM_append, ok, ok_bind, List.foldlM_cons]
  cases d.apply e <;> rfl

/-- As long as there are slots a token can be appended again and again. -/
theorem exists_pushed (text : String) (nonempty : text ≠ "") {n : Nat} (room : n ≤ Limits.slots) :
    ∃ c order, empty.applyAll (List.replicate n (.push text 1 0)) = .ok c ∧ History c ∧
      c.Valid order ∧ c.live = n := by
  induction n with
  | zero => exact ⟨_, _, rfl, .start, valid_empty, rfl⟩
  | succ n ih =>
      obtain ⟨c, order, ran, history, valid, live⟩ := ih (Nat.le_of_succ_le room)
      obtain ⟨d, x, ok, -, validD, liveD, -⟩ := push_ok valid (live ▸ room) nonempty 1 0
      have pushed : c.apply (.push text 1 0) = .ok { chain := d, issued := some x } := by
        rw [apply, ok]
        rfl
      have admissible : (Edit.push text 1 0).Admissible c := nonempty
      refine ⟨d, _, ?_, .edit history admissible pushed, validD, live ▸ liveD⟩
      rw [List.replicate_succ', applyAll_concat ran, pushed]
      rfl

/-- Every one of these edits is within its contract, and the last of them fails: all slots are in
use by then. -/
theorem slots_run_out :
    (∀ c, (Edit.push "a" 1 0).Admissible c) ∧
      ∃ c, History c ∧ empty.applyAll (List.replicate Limits.slots (.push "a" 1 0)) = .ok c ∧
        c.apply (.push "a" 1 0) = .error .exhausted ∧
        empty.applyAll (List.replicate Limits.slots (.push "a" 1 0) ++ [.push "a" 1 0]) =
          .error .exhausted := by
  have nonempty : "a" ≠ "" := by decide
  obtain ⟨c, order, ran, history, valid, live⟩ := exists_pushed "a" nonempty (Nat.le_refl _)
  have failed : c.apply (.push "a" 1 0) = .error .exhausted := by
    rw [apply, push_full valid live nonempty]
    rfl
  refine ⟨fun _ => nonempty, c, history, ran, failed, ?_⟩
  rw [applyAll_concat ran, failed]
  rfl

end Chain

end TokenStream
