import TokenStream.Chain.Apply
import TokenStream.Proofs.Chain.Effect
/-!
The edits of a valid chain. Each one that stays within its contract succeeds, has an exact effect
on the view, and leaves a valid chain with its nodes in a known order.
-/
namespace TokenStream.Chain

/-- A chain as its operations keep it, with its nodes in this order. -/
structure Valid (c : Chain) (order : List Handle) : Prop where
  stored : c.Stored
  sound : c.view.Sound order

variable {c d : Chain} {order A B C : List Handle} {h x : Handle}

namespace Valid

theorem mem_iff (valid : c.Valid order) (h : Handle) : h ∈ order ↔ c.contains h = true := by
  rw [contains_eq_isSome_token?]
  exact valid.sound.mem_iff h

theorem live (valid : c.Valid order) (mem : h ∈ order) : c.contains h = true :=
  (valid.mem_iff h).1 mem

theorem hasPlace (valid : c.Valid order) {a : Option Handle} (mem : ∀ h, a = some h → h ∈ order) :
    c.HasPlace a :=
  fun h here => valid.live (mem h here)

theorem exists_token (valid : c.Valid order) (mem : h ∈ order) :
    ∃ t, c.view.token? h = some t :=
  Option.isSome_iff_exists.1 ((valid.sound.mem_iff h).1 mem)

theorem length_eq_live (valid : c.Valid order) : order.length = c.live := by
  rw [valid.stored.live_eq]
  exact length_eq_occupied valid.sound.nodup valid.mem_iff

/-- The budget of a walk is enough for any part of the chain. -/
theorem length_lt_stepLimit (valid : c.Valid order) : order.length < c.stepLimit := by
  have slots := valid.stored.length_free_add_live
  rw [valid.length_eq_live, stepLimit]
  omega

theorem mutual_link (valid : c.Valid order) (h : Handle) :
    ∀ k, c.view.partner h = some k → k ≠ h ∧ c.view.partner k = some h :=
  fun k link => ⟨(valid.sound.linked h k link).1, (valid.sound.linked h k link).2.2⟩

theorem next_ok (valid : c.Valid (A ++ h :: C)) : c.next h = .ok C.head? := by
  rw [Chain.next_ok (valid.live (by simp)), valid.sound.ring.next_some]

theorem previous_ok (valid : c.Valid (A ++ h :: C)) : c.previous h = .ok A.getLast? := by
  rw [Chain.previous_ok (valid.live (by simp)), valid.sound.ring.prev_some]

/-- Slots are as they were; what remains is to see what the chain shows now. -/
theorem of_view (valid : c.Valid order) (same : SameStorage c d) {w : View} (view : d.view = w)
    {order' : List Handle} (sound : w.Sound order') : d.Valid order' := by
  subst view
  exact ⟨same.stored valid.stored, sound⟩

/-- A node goes after it has been unthreaded and unlinked. -/
theorem release (valid : c.Valid order) (same : SameStorage c d) {w : View}
    (view : d.view = w.unlink x) (perm : (x :: B).Perm order) (ring : w.Ring B)
    (tokens : w.token? = c.view.token?) (links : w.partner = c.view.partner) :
    (d.release x).Valid B := by
  have live : d.contains x = true := by
    rw [same.contains_eq]
    exact valid.live (perm.mem_iff.1 List.mem_cons_self)
  refine ⟨stored_release (same.stored valid.stored) live, ?_⟩
  rw [view_release live, view]
  exact valid.sound.remove ring perm tokens links

end Valid

theorem valid_empty : empty.Valid [] where
  stored := ⟨List.nodup_nil, by simp [empty], rfl, Nat.zero_le _⟩
  sound :=
    { nodup := List.nodup_nil
      mem_iff := by simp [view, token?, node?, empty]
      ring := .cons_cons ⟨rfl, rfl⟩ (.singleton none)
      linked := by simp [view, node?, empty] }

/-! ### Tokens and links -/

theorem unlink_ok (valid : c.Valid order) (mem : h ∈ order) :
    ∃ d, c.unlink h = .ok d ∧ SameStorage c d ∧ d.view = c.view.unlink h ∧ d.Valid order := by
  obtain ⟨d, ok, same, view⟩ := yields_unlink (valid.live mem) (valid.mutual_link h)
  exact ⟨d, ok, same, view, valid.of_view same view (valid.sound.unlink h)⟩

section
variable (live : ∀ k, d.contains k = c.contains k)
  (dropped : ∀ a b, d.view.partner a = some b ↔ c.view.partner a = some b ∧ a ≠ h ∧ b ≠ h)
include live dropped

/-- Where the links of one node are dropped, all others are as they were. -/
theorem link_of_dropped {k : Handle} (ne : k ≠ h) (notH : c.link k ≠ .ok (some h)) :
    d.link k = c.link k := by
  refine link_congr (live k) fun b => ?_
  rw [dropped]
  constructor
  · exact fun there => there.1
  · intro old
    refine ⟨old, ne, ?_⟩
    rintro rfl
    exact notH (link_eq_some_iff.2 old)

theorem link_partner_of_dropped (valid : c.Valid order) {q : Handle}
    (link : c.link h = .ok (some q)) : d.link q = .ok none := by
  obtain ⟨-, back⟩ := valid.mutual_link h q (link_eq_some_iff.1 link)
  refine link_ok_none ((live q).trans (live_of_partner back)) fun b there => ?_
  obtain ⟨old, -, neB⟩ := (dropped q b).1 there
  exact neB (Option.some.inj (old.symm.trans back))

end

theorem linkPair_ok (valid : c.Valid order) {a b : Handle} (ne : a ≠ b) (memA : a ∈ order)
    (memB : b ∈ order) :
    ∃ d, c.linkPair a b = .ok d ∧ SameStorage c d ∧ d.view = c.view.linkPair a b ∧
      d.Valid order := by
  obtain ⟨d, ok, same, view⟩ :=
    yields_linkPair valid.sound ne (valid.live memA) (valid.live memB)
  exact ⟨d, ok, same, view, valid.of_view same view (valid.sound.linkPair ne memA memB)⟩

/-- A change of one token in place. -/
theorem setToken_ok (valid : c.Valid order) {n : Node} (found : c.node? h = some n) (t : Token) :
    SameStorage c (c.setNode h { n with token := t }) ∧
      (c.setNode h { n with token := t }).view = c.view.put h t ∧
      (c.setNode h { n with token := t }).Valid order := by
  have live : c.contains h = true := contains_iff.2 ⟨n, found⟩
  have same := sameStorage_setNode live { n with token := t }
  have view := view_setNode_token found t
  have sound := valid.sound.put ((valid.mem_iff h).2 live) t
  exact ⟨same, view, valid.of_view same view sound⟩

theorem modifyToken_ok (valid : c.Valid order) {t : Token} (found : c.view.token? h = some t)
    (f : Token → Token) :
    ∃ d, c.modifyToken h f = .ok d ∧ SameStorage c d ∧ d.view = c.view.put h (f t) ∧
      d.Valid order := by
  have mem : h ∈ order := (valid.sound.mem_iff h).2 (Option.isSome_of_eq_some found)
  obtain ⟨d, ok, same, view⟩ := yields_modifyToken found f
  exact ⟨d, ok, same, view, valid.of_view same view (valid.sound.put mem (f t))⟩

/-! ### Removing -/

theorem deleteNext_tail (valid : c.Valid (A ++ [h])) : c.deleteNext h = .ok c := by
  rw [deleteNext, valid.next_ok]
  rfl

theorem deleteNext_ok (valid : c.Valid (A ++ h :: x :: C)) :
    ∃ d, c.deleteNext h = .ok (d.release x) ∧ SameStorage c d ∧
      d.view = (c.view.stitch (some h) C.head?).unlink x ∧
      (d.release x).Valid (A ++ h :: C) := by
  have split : A ++ h :: x :: C = (A ++ [h]) ++ [x] ++ C := by simp
  have liveX : c.contains x = true := valid.live (by simp)
  have nextX : c.next x = .ok C.head? := by
    rw [split, List.append_assoc] at valid
    exact valid.next_ok
  have placeC : c.HasPlace C.head? :=
    valid.hasPlace fun k first => by simp [List.mem_of_head? first]
  obtain ⟨d, okD, sameD, viewD⟩ := yields_stitch (valid.hasPlace (a := some h) (by simp)) placeC
  have links : d.view.partner = c.view.partner := by rw [viewD]; rfl
  obtain ⟨e, okE, sameE, viewE⟩ := yields_unlink ((sameD.contains_eq x).trans liveX)
    (by rw [links]; exact valid.mutual_link x)
  have same := sameD.trans sameE
  refine ⟨e, ?_, same, by rw [viewE, viewD], ?_⟩
  · simp only [deleteNext, valid.next_ok, List.head?_cons, nextX, okD, okE, ok_bind]
    rfl
  · rw [viewD] at viewE
    have perm : (x :: ((A ++ [h]) ++ C)).Perm ((A ++ [h]) ++ x :: C) := List.perm_middle.symm
    simp only [List.append_assoc, List.singleton_append] at perm
    refine valid.release same viewE perm ?_ rfl rfl
    have ring := valid.sound.ring
    have nodup := valid.sound.nodup
    rw [split] at ring nodup
    have detached := (ring.detach (by simp) nodup).1
    rw [List.getLast?_concat, List.append_assoc] at detached
    exact detached

/-- The last token becomes a semicolon without a link. -/
theorem deleteThis_tail (valid : c.Valid (A ++ [h])) {t : Token}
    (found : c.view.token? h = some t) :
    ∃ d, c.deleteThis h = .ok d ∧ SameStorage c d ∧ d.Valid (A ++ [h]) ∧
      d.view = (c.view.unlink h).put h
        { t with text := ";", nonempty := by decide, lexical := .ofText ";", varId := 0 } := by
  obtain ⟨e, ok, same, view, validE⟩ := unlink_ok valid (h := h) (by simp)
  have foundE : e.view.token? h = some t := by
    rw [view]
    exact found
  obtain ⟨n, foundN, rfl⟩ := exists_node_of_token foundE
  obtain ⟨sameD, viewD, validD⟩ := setToken_ok validE foundN
    { n.token with text := ";", nonempty := by decide, lexical := .ofText ";", varId := 0 }
  refine ⟨_, ?_, same.trans sameD, validD, by rw [viewD, view]⟩
  simp only [deleteThis, valid.next_ok, List.head?_nil, ok, ok_bind, setText,
    node_eq_ok_iff.2 foundN]
  rfl

/-- What a node shows once it has taken over the token and the link of its successor. -/
def absorbed (v : View) (h x : Handle) (t u : Token) : View :=
  let w := ((v.unlink h).unlink x).put h { u with progress := t.progress }
  match (v.partner x).filter (· ≠ h) with
  | some p => w.linkPair h p
  | none => w

/-- Deleting a node that is not the last is deleting its successor, once it has taken that one's
place. -/
theorem deleteThis_ok (valid : c.Valid (A ++ h :: x :: C)) {t u : Token}
    (foundH : c.view.token? h = some t) (foundX : c.view.token? x = some u) :
    ∃ d, c.deleteThis h = d.deleteNext h ∧ SameStorage c d ∧ d.Valid (A ++ h :: x :: C) ∧
      d.view = absorbed c.view h x t u := by
  have split : A ++ h :: x :: C = (A ++ [h]) ++ x :: C := by simp
  have memH : h ∈ A ++ h :: x :: C := by simp
  have memX : x ∈ A ++ h :: x :: C := by simp
  have link : c.link x = .ok (c.view.partner x) := link_ok (valid.live memX)
  obtain ⟨d₁, ok₁, same₁, view₁, valid₁⟩ := unlink_ok valid memH
  obtain ⟨d₂, ok₂, same₂, view₂, valid₂⟩ := unlink_ok valid₁ memX
  have token₂ (k : Handle) : d₂.view.token? k = c.view.token? k := by
    rw [view₂, view₁]
    rfl
  obtain ⟨d₃, ok₃, same₃, view₃, valid₃⟩ :=
    modifyToken_ok valid₂ ((token₂ h).trans foundH) fun _ => { u with progress := t.progress }
  rw [view₂, view₁] at view₃
  have before := (same₁.trans same₂).trans same₃
  cases hp : (c.view.partner x).filter (· ≠ h) with
  | none =>
      refine ⟨d₃, ?_, before, valid₃, by rw [view₃, absorbed, hp]⟩
      simp only [deleteThis, valid.next_ok, List.head?_cons, link, ok₁, ok₂,
        token_ok ((token₂ h).trans foundH), token_ok ((token₂ x).trans foundX), ok₃, hp, ok_bind]
      rfl
  | some p =>
      obtain ⟨linkP, neP⟩ := Option.filter_eq_some_iff.1 hp
      have memP := (valid.sound.linked x p linkP).2.1
      obtain ⟨d₄, ok₄, same₄, view₄, valid₄⟩ :=
        linkPair_ok valid₃ (Ne.symm (by simpa using neP)) memH memP
      refine ⟨d₄, ?_, before.trans same₄, valid₄, by rw [view₄, view₃, absorbed, hp]⟩
      simp only [deleteThis, valid.next_ok, List.head?_cons, link, ok₁, ok₂,
        token_ok ((token₂ h).trans foundH), token_ok ((token₂ x).trans foundX), ok₃, hp, ok₄,
        ok_bind]

/-! ### Inserting -/

theorem ofText_ok {text : String} (nonempty : text ≠ "") :
    Token.ofText text = .ok { text, nonempty, lexical := .ofText text } :=
  dif_neg nonempty

/-- A token is stored under a handle that is not live yet; nothing is threaded to it. -/
theorem allocate_valid (valid : c.Valid order) (room : c.live < Limits.slots) (t : Token) :
    ∃ e x, c.allocate t = .ok (e, x) ∧ x ∉ order ∧ e.Stored ∧ e.view = c.view.put x t ∧
      e.live = c.live + 1 ∧ e.contains x = true ∧ (∀ k ∈ order, e.contains k = true) ∧
      c.view.next (some x) = none ∧ c.view.prev (some x) = none := by
  obtain ⟨e, x, ok, stored, new, live, front, back⟩ := allocate_ok valid.stored room t
  have view := view_allocate ok new front back
  have fresh : x ∉ order := by
    intro mem
    have here := valid.live mem
    simp [contains, new] at here
  have token (k : Handle) : e.view.token? k = if k = x then some t else c.view.token? k := by
    rw [view, View.token?_put, Function.update_apply]
  refine ⟨e, x, ok, fresh, stored, view, live, ?_, ?_, ?_, ?_⟩
  · rw [contains_eq_isSome_token?, token, if_pos rfl]
    rfl
  · intro k mem
    rw [contains_eq_isSome_token?, token]
    split
    · rfl
    · exact (valid.sound.mem_iff k).1 mem
  · simp [Chain.view, new]
  · simp [Chain.view, new]

/-- The last step of `push`: threads a loose node after the last one. -/
def threadLast (c : Chain) (x : Handle) : Except Fault Chain :=
  (match c.back with
    | some last => c.stitch (some last) (some x)
    | none => c.setNext none (some x)) >>= fun d => d.setPrev none (some x)

theorem push_eq (c : Chain) (text : String) (line file : UInt32) :
    c.push text line file =
      Token.ofText text >>= fun token => c.allocate { token with line, file } >>= fun r =>
        r.1.threadLast r.2 >>= fun d => .ok (d, r.2) := by
  unfold push
  congr 1
  funext token
  congr 1
  funext ⟨e, x⟩
  unfold threadLast
  cases hb : e.back with
  | none =>
      simp only [hb]
      rfl
  | some last =>
      simp only [hb, stitch_eq, setNext, setPrev]
      cases e.modify last fun n => { n with next := some x } with
      | error f => rfl
      | ok d =>
          simp only [ok_bind]
          cases d.modify x fun n => { n with prev := some last } <;> rfl

theorem yields_threadLast (place : c.HasPlace c.back) (live : c.contains x = true)
    (ne : c.back ≠ some x) (next : c.view.next (some x) = none)
    (prev : c.view.prev (some x) = none) :
    Yields (c.threadLast x) c ((c.view.stitch c.back (some x)).stitch (some x) none) := by
  have first : Yields
      (match c.back with
        | some last => c.stitch (some last) (some x)
        | none => c.setNext none (some x)) c (c.view.stitch c.back (some x)) := by
    cases hb : c.back with
    | none =>
        obtain ⟨d, ok, same, view⟩ := yields_setNext (a := none) (c := c) (fun _ h => nomatch h)
          (some x)
        refine ⟨d, ok, same, ?_⟩
        rw [view, View.stitch, ← prev, Function.update_eq_self]
    | some last =>
        rw [hb] at place
        exact yields_stitch place fun k here => by cases here; exact live
  refine first.bind fun d same viewD => ?_
  obtain ⟨f, ok, sameF, viewF⟩ :=
    yields_setPrev (b := none) (c := d) (fun _ h => nomatch h) (some x)
  refine ⟨f, ok, sameF, ?_⟩
  have idle : (c.view.stitch c.back (some x)).next (some x) = none := by
    rw [View.next_stitch, Function.update_of_ne (Ne.symm ne)]
    exact next
  rw [viewF, viewD]
  have keep := Function.update_eq_self (some x) (c.view.stitch c.back (some x)).next
  rw [idle] at keep
  exact View.ext keep.symm rfl rfl rfl

theorem push_ok (valid : c.Valid order) (room : c.live < Limits.slots) {text : String}
    (nonempty : text ≠ "") (line file : UInt32) :
    ∃ d x, c.push text line file = .ok (d, x) ∧ x ∉ order ∧ d.Valid (order ++ [x]) ∧
      d.live = c.live + 1 ∧ d.view.partner = c.view.partner ∧
      d.view.token? = Function.update c.view.token? x
        (some { text, nonempty, lexical := .ofText text, line, file }) := by
  obtain ⟨e, x, ok, new, stored, view, live, liveX, liveOrder, next, prev⟩ :=
    allocate_valid valid room { text, nonempty, lexical := .ofText text, line, file }
  have back : e.back = order.getLast? := by
    rw [← view_prev_none, view]
    exact valid.sound.ring.prev_none
  have placeBack : e.HasPlace e.back := fun k here => by
    rw [back] at here
    exact liveOrder k (List.mem_of_getLast? here)
  have ne : e.back ≠ some x := fun same => by
    rw [back] at same
    exact new (List.mem_of_getLast? same)
  obtain ⟨d, okD, same, viewD⟩ := yields_threadLast placeBack liveX ne (by rw [view]; exact next)
    (by rw [view]; exact prev)
  rw [back, view] at viewD
  refine ⟨d, x, ?_, new, ⟨same.stored stored, ?_⟩, ?_, ?_, ?_⟩
  · rw [push_eq, ofText_ok nonempty, ok_bind, ok, ok_bind, okD]
    rfl
  · have nodup : (order ++ [x] ++ []).Nodup := by
      simpa using valid.sound.nodup.concat new
    have ring := valid.sound.ring
    rw [← List.append_nil order] at ring
    obtain ⟨before, after, -, -⟩ := View.ring_append.1 ring
    have attached := View.ring_attach (B := [x]) before (.singleton _) after (by simp) nodup
    rw [List.append_nil] at attached
    rw [viewD]
    exact valid.sound.insert attached (List.perm_append_singleton x order) new rfl rfl
  · rw [same.live_eq, live]
  · rw [viewD]
    rfl
  · rw [viewD]
    rfl

theorem insertAfter_ok (valid : c.Valid (A ++ h :: C)) (room : c.live < Limits.slots)
    {text : String} (nonempty : text ≠ "") {anchor : Token}
    (found : c.view.token? h = some anchor) :
    ∃ d x, c.insertAfter h text = .ok (d, x) ∧ x ∉ A ++ h :: C ∧ d.Valid (A ++ h :: x :: C) ∧
      d.live = c.live + 1 ∧ d.view.partner = c.view.partner ∧
      d.view.token? = Function.update c.view.token? x
        (some { text, nonempty, lexical := .ofText text, line := anchor.line, file := anchor.file
                progress := anchor.progress }) := by
  obtain ⟨e, x, ok, new, stored, view, live, liveX, liveOrder, -, -⟩ :=
    allocate_valid valid room
      { text, nonempty, lexical := .ofText text, line := anchor.line, file := anchor.file
        progress := anchor.progress }
  have liveH : e.contains h = true := liveOrder h (by simp)
  have next : e.next h = .ok C.head? := by
    rw [next_ok liveH, view]
    exact congrArg Except.ok valid.sound.ring.next_some
  have placeC : e.HasPlace C.head? := fun k first =>
    liveOrder k (by simp [List.mem_of_head? first])
  have placeX : e.HasPlace (some x) := fun k here => by cases here; exact liveX
  have placeH : e.HasPlace (some h) := fun k here => by cases here; exact liveH
  obtain ⟨d₁, ok₁, same₁, view₁⟩ := yields_stitch placeX placeC
  obtain ⟨d₂, ok₂, same₂, view₂⟩ := yields_stitch (same₁.hasPlace placeH) (same₁.hasPlace placeX)
  have same := same₁.trans same₂
  have neH : x ≠ h := by rintro rfl; simp at new
  have neC : some x ≠ C.head? := fun first => new (by simp [List.mem_of_head? first.symm])
  have viewD : d₂.view = ((e.view.stitch (some h) (some x)).stitch (some x) C.head?) := by
    rw [view₂, view₁]
    exact View.stitch_comm _ (by simpa using neH) (Ne.symm neC)
  rw [view] at viewD
  refine ⟨d₂, x, ?_, new, ⟨same.stored stored, ?_⟩, ?_, ?_, ?_⟩
  · simp only [insertAfter, token_ok found, ofText_ok nonempty, ok, next, ok₁, ok₂, ok_bind]
    rfl
  · have perm : ((A ++ [h]) ++ x :: C).Perm (x :: ((A ++ [h]) ++ C)) := List.perm_middle
    simp only [List.append_assoc, List.singleton_append] at perm
    have nodup : (A ++ [h] ++ [x] ++ C).Nodup := by
      simpa using perm.nodup_iff.2 (List.nodup_cons.2 ⟨new, valid.sound.nodup⟩)
    have ring := valid.sound.ring
    rw [List.append_cons] at ring
    obtain ⟨before, after, -, -⟩ := View.ring_append.1 ring
    have attached := View.ring_attach (B := [x]) before (.singleton _) after (by simp) nodup
    rw [List.getLast?_concat, List.append_assoc, List.append_assoc] at attached
    rw [viewD]
    exact valid.sound.insert attached perm new rfl rfl
  · rw [same.live_eq, live]
  · rw [viewD]
    rfl
  · rw [viewD]
    rfl

end TokenStream.Chain
