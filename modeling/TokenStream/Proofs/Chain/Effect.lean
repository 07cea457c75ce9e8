import TokenStream.Chain.Edit
import TokenStream.Proofs.Chain.Storage
import TokenStream.Proofs.Chain.View
/-!
What the operations on nodes do to the view of a chain. Each of them succeeds on live handles and
has the effect of the operation of the same name on views.
-/
namespace TokenStream

/-- What a chain shows of itself. -/
def Chain.view (c : Chain) : View where
  next
    | none => c.front
    | some h => (c.node? h).bind (·.next)
  prev
    | none => c.back
    | some h => (c.node? h).bind (·.prev)
  partner h := (c.node? h).bind (·.link)
  token? := c.token?

namespace Chain

open Function (update update_self update_of_ne)

variable {c d : Chain} {h : Handle} {n : Node}

@[simp] theorem view_next_none (c : Chain) : c.view.next none = c.front := rfl
@[simp] theorem view_prev_none (c : Chain) : c.view.prev none = c.back := rfl

theorem view_of_node? (found : c.node? h = some n) :
    c.view.next (some h) = n.next ∧ c.view.prev (some h) = n.prev ∧
      c.view.partner h = n.link ∧ c.view.token? h = some n.token := by
  simp [view, token?, found]

/-- A view is told by the ends of the chain and by what each handle finds. -/
theorem view_eq_of_nodes {w : View} (front : c.front = w.next none) (back : c.back = w.prev none)
    (nodes : ∀ k, ((c.node? k).bind (·.next), (c.node? k).bind (·.prev), (c.node? k).bind (·.link),
      (c.node? k).map (·.token)) = (w.next (some k), w.prev (some k), w.partner k, w.token? k)) :
    c.view = w := by
  simp only [Prod.mk.injEq] at nodes
  ext1
  · funext place
    cases place with
    | none => exact front
    | some k => exact (nodes k).1
  · funext place
    cases place with
    | none => exact back
    | some k => exact (nodes k).2.1
  · funext k
    exact (nodes k).2.2.1
  · funext k
    exact (nodes k).2.2.2

theorem nodes_eq (c : Chain) (k : Handle) :
    ((c.node? k).bind (·.next), (c.node? k).bind (·.prev), (c.node? k).bind (·.link),
      (c.node? k).map (·.token)) =
    (c.view.next (some k), c.view.prev (some k), c.view.partner k, c.view.token? k) :=
  rfl

theorem contains_eq_isSome_token? (c : Chain) (h : Handle) :
    c.contains h = (c.view.token? h).isSome := by
  simp [contains, view, token?]

theorem live_of_partner {k : Handle} (link : c.view.partner h = some k) : c.contains h = true := by
  obtain ⟨n, found, -⟩ := Option.bind_eq_some_iff.1 link
  exact contains_iff.2 ⟨n, found⟩

theorem exists_node? (live : c.contains h = true) :
    ∃ n, c.node? h = some n ∧ c.node h = .ok n := by
  obtain ⟨n, found⟩ := contains_iff.1 live
  exact ⟨n, found, node_eq_ok_iff.2 found⟩

theorem ok_bind {ε α β : Type} (a : α) (f : α → Except ε β) : (Except.ok a >>= f) = f a := rfl

theorem error_bind {ε α β : Type} (e : ε) (f : α → Except ε β) :
    (Except.error e >>= f) = .error e := rfl

theorem exists_of_bind_eq_ok {ε β γ : Type} {r : Except ε β} {k : β → Except ε γ} {b : γ}
    (ok : (r >>= k) = .ok b) : ∃ a, r = .ok a ∧ k a = .ok b := by
  cases r with
  | error e => cases ok
  | ok a => exact ⟨a, rfl, ok⟩

/-- A check that throws lets the rest succeed exactly if it does not. -/
theorem unless_throw_eq_ok_iff {ε α : Type} {p : Prop} [Decidable p] {e : ε} {k : Except ε α}
    {a : α} :
    (if p then (throw e : Except ε PUnit) >>= fun _ => k else k) = .ok a ↔ ¬ p ∧ k = .ok a := by
  by_cases holds : p
  · simp only [holds, if_true, not_true, false_and, iff_false]
    exact fun ok => nomatch ok
  · simp only [holds, if_false, not_false_eq_true, true_and]

/-! ### Look-ups -/

theorem next_ok (live : c.contains h = true) : c.next h = .ok (c.view.next (some h)) := by
  obtain ⟨n, found, ok⟩ := exists_node? live
  rw [next, ok, (view_of_node? found).1]
  rfl

theorem previous_ok (live : c.contains h = true) :
    c.previous h = .ok (c.view.prev (some h)) := by
  obtain ⟨n, found, ok⟩ := exists_node? live
  rw [previous, ok, (view_of_node? found).2.1]
  rfl

theorem link_ok (live : c.contains h = true) : c.link h = .ok (c.view.partner h) := by
  obtain ⟨n, found, ok⟩ := exists_node? live
  rw [link, ok, (view_of_node? found).2.2.1]
  rfl

theorem link_eq_some_iff {k : Handle} : c.link h = .ok (some k) ↔ c.view.partner h = some k := by
  constructor
  · intro link
    obtain ⟨n, here, linked⟩ := exists_of_bind_eq_ok link
    rw [(view_of_node? (node_eq_ok_iff.1 here)).2.2.1]
    exact Except.ok.inj linked
  · intro link
    rw [link_ok (live_of_partner link), link]

theorem link_ok_none (live : c.contains h = true) (loose : ∀ k, c.view.partner h ≠ some k) :
    c.link h = .ok none := by
  rw [link_ok live, Option.eq_none_iff_forall_ne_some.2 loose]

/-- A handle whose node is gone is named as the reason. -/
theorem node_stale (gone : c.contains h = false) : c.node h = .error (.stale h) :=
  node_eq_error_iff.2 ⟨by simpa [contains] using gone, rfl⟩

theorem next_stale (gone : c.contains h = false) : c.next h = .error (.stale h) := by
  rw [next, node_stale gone]
  rfl

theorem link_congr {k : Handle} (live : d.contains k = c.contains k)
    (links : ∀ b, d.view.partner k = some b ↔ c.view.partner k = some b) :
    d.link k = c.link k := by
  cases here : c.contains k with
  | false => rw [link, link, node_stale here, node_stale (live.trans here)]
  | true => rw [link_ok here, link_ok (live.trans here), Option.ext links]

/-- The node at the one place is linked to the node at the other. -/
def LinksTo (c : Chain) (order : List Handle) (i j : Nat) : Prop :=
  ∃ h k, order[i]? = some h ∧ order[j]? = some k ∧ c.link h = .ok (some k)

theorem exists_node_of_token {t : Token} (found : c.view.token? h = some t) :
    ∃ n, c.node? h = some n ∧ n.token = t :=
  Option.map_eq_some_iff.1 found

theorem token_ok {t : Token} (found : c.view.token? h = some t) : c.token h = .ok t := by
  obtain ⟨n, here, rfl⟩ := exists_node_of_token found
  rw [token, node_eq_ok_iff.2 here]
  rfl

section
variable {order A C : List Handle}

theorem contains_of_sound (sound : c.view.Sound order) {h : Handle} (mem : h ∈ order) :
    c.contains h = true := by
  rw [contains_eq_isSome_token?]
  exact (sound.mem_iff h).1 mem

theorem exists_node_of_sound {h : Handle} (sound : c.view.Sound (A ++ h :: C)) :
    ∃ n, c.node? h = some n ∧ n.prev = A.getLast? ∧ n.next = C.head? := by
  obtain ⟨n, here⟩ := contains_iff.1 (contains_of_sound sound (h := h) (by simp))
  obtain ⟨next, prev, -, -⟩ := view_of_node? here
  exact ⟨n, here, prev.symm.trans sound.ring.prev_some, next.symm.trans sound.ring.next_some⟩

theorem next_of_sound {h : Handle} (sound : c.view.Sound (A ++ h :: C)) :
    c.next h = .ok C.head? := by
  rw [next_ok (contains_of_sound sound (by simp)), sound.ring.next_some]

theorem previous_of_sound {h : Handle} (sound : c.view.Sound (A ++ h :: C)) :
    c.previous h = .ok A.getLast? := by
  rw [previous_ok (contains_of_sound sound (by simp)), sound.ring.prev_some]

theorem hop_next_of_sound (sound : c.view.Sound (A ++ C)) (n : Nat) :
    hop c.next n C.head? = .ok C[n]? := by
  induction n generalizing A C with
  | zero => rw [hop, List.head?_eq_getElem?]
  | succ n ih =>
      cases C with
      | nil => rfl
      | cons h C =>
          rw [List.head?_cons, hop, next_of_sound sound, ok_bind, List.getElem?_cons_succ]
          rw [List.append_cons] at sound
          exact ih sound

theorem hop_previous_of_sound (sound : c.view.Sound (A ++ C)) (n : Nat) :
    hop c.previous n A.getLast? = .ok A.reverse[n]? := by
  induction n generalizing A C with
  | zero => rw [hop, ← List.head?_eq_getElem?, List.head?_reverse]
  | succ n ih =>
      rcases List.eq_nil_or_concat A with rfl | ⟨A, h, rfl⟩
      · rfl
      · rw [List.concat_eq_append] at sound ⊢
        rw [List.append_assoc] at sound
        rw [List.getLast?_concat, List.reverse_concat, hop, previous_of_sound sound, ok_bind,
          List.getElem?_cons_succ]
        exact ih sound

theorem collectFrom_of_sound (sound : c.view.Sound (A ++ C)) (n : Nat) (found : Array Handle) :
    c.collectFrom n C.head? found = .ok (found ++ (C.take n).toArray) := by
  induction n generalizing A C found with
  | zero => simp [collectFrom]
  | succ n ih =>
      cases C with
      | nil => simp [collectFrom]
      | cons h C =>
          rw [List.head?_cons, collectFrom, next_of_sound sound, ok_bind]
          rw [List.append_cons] at sound
          rw [ih sound, List.take_succ_cons]
          simp

theorem length_le_stepLimit (sound : c.view.Sound order) : order.length ≤ c.stepLimit := by
  have few := length_le_occupied sound.nodup fun h => contains_of_sound sound
  have slots : c.occupied ≤ c.slots.size := Array.countP_le_size
  rw [stepLimit]
  omega

/-- A walk has steps enough from every node on. -/
theorem length_rest_le_stepLimit (sound : c.view.Sound (A ++ C)) : C.length ≤ c.stepLimit := by
  have all := length_le_stepLimit sound
  rw [List.length_append] at all
  omega

end

/-! ### Nodes changed in place -/

theorem view_setNode (live : c.contains h = true) (n : Node) :
    (c.setNode h n).view =
      { next := update c.view.next (some h) n.next
        prev := update c.view.prev (some h) n.prev
        partner := update c.view.partner h n.link
        token? := update c.view.token? h (some n.token) } := by
  refine view_eq_of_nodes (by simp) (by simp) fun k => ?_
  by_cases same : k = h
  · subst same
    simp [node?_setNode_self live n]
  · rw [node?_setNode_of_ne live same n, nodes_eq]
    simp [same]

section
variable (found : c.node? h = some n)
include found

theorem view_setNode_next (b : Option Handle) :
    (c.setNode h { n with next := b }).view =
      { c.view with next := update c.view.next (some h) b } := by
  obtain ⟨-, prev, partner, token⟩ := view_of_node? found
  rw [view_setNode (contains_iff.2 ⟨n, found⟩)]
  simp only [← prev, ← partner, ← token, Function.update_eq_self]

theorem view_setNode_prev (a : Option Handle) :
    (c.setNode h { n with prev := a }).view =
      { c.view with prev := update c.view.prev (some h) a } := by
  obtain ⟨next, -, partner, token⟩ := view_of_node? found
  rw [view_setNode (contains_iff.2 ⟨n, found⟩)]
  simp only [← next, ← partner, ← token, Function.update_eq_self]

theorem view_setNode_link (k : Option Handle) :
    (c.setNode h { n with link := k }).view =
      { c.view with partner := update c.view.partner h k } := by
  obtain ⟨next, prev, -, token⟩ := view_of_node? found
  rw [view_setNode (contains_iff.2 ⟨n, found⟩)]
  simp only [← next, ← prev, ← token, Function.update_eq_self]

theorem view_setNode_token (t : Token) :
    (c.setNode h { n with token := t }).view = c.view.put h t := by
  obtain ⟨next, prev, partner, -⟩ := view_of_node? found
  rw [view_setNode (contains_iff.2 ⟨n, found⟩)]
  simp only [← next, ← prev, ← partner, Function.update_eq_self, View.put]

end

/-- The operation succeeds, uses no other slots than the chain did, and shows this view. -/
def Yields (r : Except Fault Chain) (c : Chain) (v : View) : Prop :=
  ∃ d, r = .ok d ∧ SameStorage c d ∧ d.view = v

theorem yields_setNode (live : c.contains h = true) (n : Node) {v : View}
    (view : (c.setNode h n).view = v) : Yields (.ok (c.setNode h n)) c v :=
  ⟨_, rfl, sameStorage_setNode live n, view⟩

theorem Yields.bind {r : Except Fault Chain} {f : Chain → Except Fault Chain} {v w : View}
    (first : Yields r c v)
    (second : ∀ d, SameStorage c d → d.view = v → Yields (f d) d w) : Yields (r >>= f) c w := by
  obtain ⟨d, rfl, sameD, viewD⟩ := first
  obtain ⟨e, eq, sameE, viewE⟩ := second d sameD viewD
  exact ⟨e, eq, sameD.trans sameE, viewE⟩

/-- A place is the place between the ends or a live node. -/
def HasPlace (c : Chain) (a : Option Handle) : Prop :=
  ∀ h, a = some h → c.contains h = true

theorem SameStorage.hasPlace (same : SameStorage c d) {a : Option Handle} (place : c.HasPlace a) :
    d.HasPlace a :=
  fun h here => (same.contains_eq h).trans (place h here)

/-- Sets what follows a place. -/
def setNext (c : Chain) (a b : Option Handle) : Except Fault Chain :=
  match a with
  | some h => c.modify h fun n => { n with next := b }
  | none => .ok { c with front := b }

/-- Sets what precedes a place. -/
def setPrev (c : Chain) (b a : Option Handle) : Except Fault Chain :=
  match b with
  | some h => c.modify h fun n => { n with prev := a }
  | none => .ok { c with back := a }

theorem stitch_eq (c : Chain) (a b : Option Handle) :
    c.stitch a b = c.setNext a b >>= fun d => d.setPrev b a := by
  cases a <;> cases b <;> rfl

theorem yields_setNext {a : Option Handle} (place : c.HasPlace a) (b : Option Handle) :
    Yields (c.setNext a b) c { c.view with next := update c.view.next a b } := by
  cases a with
  | none =>
      refine ⟨_, rfl, ⟨rfl, rfl, rfl, rfl⟩, View.ext (funext fun place => ?_) rfl rfl rfl⟩
      cases place <;> rfl
  | some h =>
      obtain ⟨n, found, ok⟩ := exists_node? (place h rfl)
      simp only [setNext, modify, ok, ok_bind]
      exact yields_setNode (place h rfl) _ (view_setNode_next found b)

theorem yields_setPrev {b : Option Handle} (place : c.HasPlace b) (a : Option Handle) :
    Yields (c.setPrev b a) c { c.view with prev := update c.view.prev b a } := by
  cases b with
  | none =>
      refine ⟨_, rfl, ⟨rfl, rfl, rfl, rfl⟩, View.ext rfl (funext fun place => ?_) rfl rfl⟩
      cases place <;> rfl
  | some h =>
      obtain ⟨n, found, ok⟩ := exists_node? (place h rfl)
      simp only [setPrev, modify, ok, ok_bind]
      exact yields_setNode (place h rfl) _ (view_setNode_prev found a)

theorem yields_stitch {a b : Option Handle} (placeA : c.HasPlace a) (placeB : c.HasPlace b) :
    Yields (c.stitch a b) c (c.view.stitch a b) := by
  rw [stitch_eq]
  refine (yields_setNext placeA b).bind fun d same viewD => ?_
  have view : { d.view with prev := update d.view.prev b a } = c.view.stitch a b := by
    rw [viewD, View.stitch]
  rw [← view]
  exact yields_setPrev (same.hasPlace placeB) a

/-- Dropping a link works where the partner, if there is one, is another node that links back. -/
theorem yields_unlink (live : c.contains h = true)
    (mutual_link : ∀ k, c.view.partner h = some k → k ≠ h ∧ c.view.partner k = some h) :
    Yields (c.unlink h) c (c.view.unlink h) := by
  obtain ⟨n, found, ok⟩ := exists_node? live
  have link := (view_of_node? found).2.2.1
  simp only [unlink, ok, ok_bind]
  cases hk : n.link with
  | none =>
      refine ⟨c, rfl, .refl c, View.ext rfl rfl (funext fun x => ?_) rfl⟩
      rw [hk] at link
      by_cases same : x = h
      · subst same; simp [View.unlink, link]
      · simp [View.unlink, link, same]
  | some k =>
      rw [hk] at link
      obtain ⟨ne, back⟩ := mutual_link k link
      have view := view_setNode_link found none
      have linkK : (c.setNode h { n with link := none }).view.partner k = some h := by
        rw [view]
        simpa [update_of_ne ne] using back
      obtain ⟨m, foundK, linkM⟩ := Option.bind_eq_some_iff.1 linkK
      have liveK : (c.setNode h { n with link := none }).contains k = true :=
        contains_iff.2 ⟨m, foundK⟩
      simp only [foundK, linkM, if_true]
      refine ⟨_, rfl, (sameStorage_setNode live _).trans (sameStorage_setNode liveK _), ?_⟩
      rw [view_setNode_link foundK, view]
      refine View.ext rfl rfl (funext fun x => ?_) rfl
      simp only [View.unlink, link, Option.some.injEq]
      by_cases atK : x = k
      · subst atK; simp
      · by_cases atH : x = h
        · subst atH; simp [update_of_ne atK]
        · simp [update_of_ne atK, atH, Ne.symm atK]

theorem yields_setLink (live : c.contains h = true) (k : Handle) :
    Yields (c.modify h fun n => { n with link := some k }) c
      { c.view with partner := update c.view.partner h (some k) } := by
  obtain ⟨n, found, ok⟩ := exists_node? live
  simp only [modify, ok, ok_bind]
  exact yields_setNode live _ (view_setNode_link found (some k))

theorem yields_linkPair {order : List Handle} (sound : c.view.Sound order) {a b : Handle}
    (ne : a ≠ b) (liveA : c.contains a = true) (liveB : c.contains b = true) :
    Yields (c.linkPair a b) c (c.view.linkPair a b) := by
  have mutual_link {v : View} (sound : v.Sound order) (h : Handle) :
      ∀ k, v.partner h = some k → k ≠ h ∧ v.partner k = some h :=
    fun k link => ⟨(sound.linked h k link).1, (sound.linked h k link).2.2⟩
  simp only [linkPair, if_neg ne]
  refine Yields.bind (yields_unlink liveA (mutual_link sound a)) fun d sameD viewD => ?_
  have soundD : d.view.Sound order := viewD ▸ sound.unlink a
  have liveAD := (sameD.contains_eq a).trans liveA
  have liveBD := (sameD.contains_eq b).trans liveB
  refine Yields.bind (yields_unlink liveBD (mutual_link soundD b)) fun e sameE viewE => ?_
  have liveAE := (sameE.contains_eq a).trans liveAD
  have liveBE := (sameE.contains_eq b).trans liveBD
  refine Yields.bind (yields_setLink liveAE b) fun f sameF viewF => ?_
  have view : { f.view with partner := update f.view.partner b (some a) } =
      c.view.linkPair a b := by
    rw [viewF, viewE, viewD, View.linkPair]
  rw [← view]
  exact yields_setLink ((sameF.contains_eq b).trans liveBE) a

theorem yields_setToken (found : c.node? h = some n) (t : Token) :
    Yields (.ok (c.setNode h { n with token := t })) c (c.view.put h t) :=
  yields_setNode (contains_iff.2 ⟨n, found⟩) _ (view_setNode_token found t)

theorem yields_modifyToken {t : Token} (found : c.view.token? h = some t) (f : Token → Token) :
    Yields (c.modifyToken h f) c (c.view.put h (f t)) := by
  obtain ⟨n, here, rfl⟩ := exists_node_of_token found
  simp only [modifyToken, modify, node_eq_ok_iff.2 here, ok_bind]
  exact yields_setToken here (f n.token)

/-! ### Slots taken and given back -/

theorem view_allocate {token : Token} (allocated : c.allocate token = .ok (d, h))
    (new : c.node? h = none) (front : d.front = c.front) (back : d.back = c.back) :
    d.view = c.view.put h token := by
  refine view_eq_of_nodes front back fun k => ?_
  by_cases same : k = h
  · subst same
    simp [node?_allocate_self allocated, View.put, view, new, Node.ofToken]
  · rw [node?_allocate_of_ne allocated same, nodes_eq]
    simp [View.put, same]

theorem view_release (live : c.contains h = true) : (c.release h).view = c.view.drop h := by
  refine view_eq_of_nodes (by simp [View.drop]) (by simp [View.drop]) fun k => ?_
  by_cases same : k = h
  · subst same
    simp [node?_release_self, View.drop]
  · rw [node?_release_of_ne live same, nodes_eq]
    simp [View.drop, same]

theorem token?_release_of_ne {k : Handle} (live : c.contains h = true) (ne : k ≠ h) :
    (c.release h).token? k = c.token? k := by
  rw [token?, token?, node?_release_of_ne live ne]

theorem link_release_of_ne {k : Handle} (live : c.contains h = true) (ne : k ≠ h) :
    (c.release h).link k = c.link k := by
  rw [link, link, node, node, node?_release_of_ne live ne]

end Chain

end TokenStream
