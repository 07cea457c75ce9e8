import TokenStream.Proofs.Chain.Edit
/-!
What an edit that succeeds has done to the storage, whether or not its caller kept to the contract:
it changed nodes in place, it issued one handle, or it released the nodes that it removes one by
one. Nothing here needs the chain to be valid.
-/
namespace TokenStream

/-- The nodes from a place on up to, but not with, `stop`, at most so many of them. -/
def Chain.nodesUntil (c : Chain) (stop : Option Handle) : Nat → Option Handle → List Handle
  | _, none => []
  | 0, some _ => []
  | n + 1, some h =>
    if some h = stop then [] else h :: c.nodesUntil stop n (c.view.next (some h))

namespace Edit

/-- The nodes that an edit of this chain removes. -/
def removed (c : Chain) : Edit → List Handle
  | .deleteNext h | .deleteThis h => (c.view.next (some h)).toList
  | .replace target _ _ => [target]
  | .eraseRange (some first) last =>
    c.nodesUntil last c.stepLimit (c.view.next (some first))
  | _ => []

/-- The part of a token that an edit leaves alone wherever it does not remove the node. -/
def kept : Edit → Handle → Node → Option Token
  | .deleteThis k, h, n | .change k _, h, n => if h = k then none else some n.token
  | .moveRange _ _ _, _, n => some { n.token with progress := 0 }
  | _, _, n => some n.token

end Edit

namespace Chain

variable {α : Type} {f : Handle → Node → α} {c d e : Chain} {h x : Handle}

/-! ### Nodes changed in place -/

/-- The second chain uses the same slots, and `f` is the same of every node. -/
structure Keeps (f : Handle → Node → α) (c d : Chain) : Prop where
  storage : SameStorage c d
  same : ∀ h, (d.node? h).map (f h) = (c.node? h).map (f h)

namespace Keeps

theorem refl (f : Handle → Node → α) (c : Chain) : Keeps f c c := ⟨.refl c, fun _ => rfl⟩

theorem trans (first : Keeps f c d) (second : Keeps f d e) : Keeps f c e :=
  ⟨first.storage.trans second.storage, fun h => (second.same h).trans (first.same h)⟩

/-- What is kept as a whole is kept in part. -/
theorem part {β : Type} (keeps : Keeps f c d) (g : Handle → α → β) :
    Keeps (fun h n => g h (f h n)) c d := by
  refine ⟨keeps.storage, fun h => ?_⟩
  have mapped := congrArg (Option.map (g h)) (keeps.same h)
  rwa [Option.map_map, Option.map_map] at mapped

end Keeps

theorem Keeps.next {f : Handle → Node → Option Handle} (keeps : Keeps f c d)
    (shown : ∀ n, f h n = n.next) : d.view.next (some h) = c.view.next (some h) := by
  have same := congrArg (Option.bind · id) (keeps.same h)
  simp only [Option.bind_map, Function.id_comp] at same
  have plain : f h = (·.next) := funext shown
  rwa [plain] at same

theorem keeps_setNode {n m : Node} (found : c.node? h = some n) (same : f h m = f h n) :
    Keeps f c (c.setNode h m) := by
  have live : c.contains h = true := contains_iff.2 ⟨n, found⟩
  refine ⟨sameStorage_setNode live m, fun k => ?_⟩
  by_cases here : k = h
  · subst here
    rw [node?_setNode_self live m, found, Option.map_some, Option.map_some, same]
  · rw [node?_setNode_of_ne live here m]

theorem keeps_modify {g : Node → Node} (same : ∀ n, f h (g n) = f h n)
    (ok : c.modify h g = .ok d) : Keeps f c d := by
  obtain ⟨n, found, ok⟩ := exists_of_bind_eq_ok ok
  cases ok
  exact keeps_setNode (node_eq_ok_iff.1 found) (same n)

theorem keeps_setNext {a b : Option Handle}
    (same : ∀ h n, a = some h → f h { n with next := b } = f h n)
    (ok : c.setNext a b = .ok d) : Keeps f c d := by
  cases a with
  | none =>
      cases ok
      exact ⟨⟨rfl, rfl, rfl, rfl⟩, fun _ => rfl⟩
  | some h => exact keeps_modify (fun n => same h n rfl) ok

theorem keeps_setPrev {a b : Option Handle}
    (same : ∀ h n, b = some h → f h { n with prev := a } = f h n)
    (ok : c.setPrev b a = .ok d) : Keeps f c d := by
  cases b with
  | none =>
      cases ok
      exact ⟨⟨rfl, rfl, rfl, rfl⟩, fun _ => rfl⟩
  | some h => exact keeps_modify (fun n => same h n rfl) ok

theorem keeps_stitch {a b : Option Handle}
    (next : ∀ h n, a = some h → f h { n with next := b } = f h n)
    (prev : ∀ h n, f h { n with prev := a } = f h n) (ok : c.stitch a b = .ok d) :
    Keeps f c d := by
  rw [stitch_eq] at ok
  obtain ⟨e, first, second⟩ := exists_of_bind_eq_ok ok
  exact (keeps_setNext next first).trans (keeps_setPrev (fun h n _ => prev h n) second)

theorem keeps_unlink (same : ∀ h n k, f h { n with link := k } = f h n)
    (ok : c.unlink h = .ok d) : Keeps f c d := by
  obtain ⟨n, found, ok⟩ := exists_of_bind_eq_ok ok
  have here := keeps_setNode (f := f) (node_eq_ok_iff.1 found) (same h n none)
  cases link : n.link with
  | none =>
      simp only [link] at ok
      cases ok
      exact .refl f c
  | some partner =>
      simp only [link] at ok
      split at ok
      next m foundP =>
        split at ok
        · cases ok
          exact here.trans (keeps_setNode foundP (same partner m none))
        · cases ok
          exact here
      · cases ok
        exact here

theorem keeps_linkPair (same : ∀ h n k, f h { n with link := k } = f h n) {a b : Handle}
    (ok : c.linkPair a b = .ok d) : Keeps f c d := by
  unfold linkPair at ok
  split at ok
  · cases ok
  · obtain ⟨c₁, first, ok⟩ := exists_of_bind_eq_ok ok
    obtain ⟨c₂, second, ok⟩ := exists_of_bind_eq_ok ok
    obtain ⟨c₃, third, ok⟩ := exists_of_bind_eq_ok ok
    exact (((keeps_unlink same first).trans (keeps_unlink same second)).trans
      (keeps_modify (fun n => same a n (some b)) third)).trans
      (keeps_modify (fun n => same b n (some a)) ok)

theorem keeps_modifyToken {g : Token → Token}
    (same : ∀ n, f h { n with token := g n.token } = f h n) (ok : c.modifyToken h g = .ok d) :
    Keeps f c d :=
  keeps_modify same ok

theorem keeps_setProgressThrough {n : Nat} {progress : UInt32} {last : Handle}
    {start : Option Handle} (ok : setProgressThrough progress last n c start = .ok d) :
    Keeps (fun _ n => some { n.token with progress := 0 }) c d := by
  induction n generalizing c start with
  | zero =>
      cases start with
      | none =>
          cases ok
          exact .refl _ _
      | some h => cases ok
  | succ n ih =>
      cases start with
      | none =>
          cases ok
          exact .refl _ _
      | some h =>
          unfold setProgressThrough at ok
          obtain ⟨e, first, ok⟩ := exists_of_bind_eq_ok ok
          have here := keeps_modifyToken
            (f := fun _ n => some { n.token with progress := 0 }) (fun _ => rfl) first
          split at ok
          · cases ok
            exact here
          · obtain ⟨after, -, ok⟩ := exists_of_bind_eq_ok ok
            exact here.trans (ih ok)

theorem keeps_moveRange {first last destination : Handle}
    (ok : c.moveRange first last destination = .ok d) :
    Keeps (fun _ n => some { n.token with progress := 0 }) c d := by
  obtain ⟨inside, -, ok⟩ := exists_of_bind_eq_ok ok
  cases inside with
  | true => cases ok
  | false =>
      obtain ⟨before, -, ok⟩ := exists_of_bind_eq_ok ok
      obtain ⟨after, -, ok⟩ := exists_of_bind_eq_ok ok
      obtain ⟨c₁, detach, ok⟩ := exists_of_bind_eq_ok ok
      obtain ⟨beyond, -, ok⟩ := exists_of_bind_eq_ok ok
      obtain ⟨c₂, enter, ok⟩ := exists_of_bind_eq_ok ok
      obtain ⟨c₃, leave, ok⟩ := exists_of_bind_eq_ok ok
      obtain ⟨t, -, ok⟩ := exists_of_bind_eq_ok ok
      have stitched {c d : Chain} {a b : Option Handle} (ok : c.stitch a b = .ok d) :
          Keeps (fun _ n => some { n.token with progress := 0 }) c d :=
        keeps_stitch (fun _ _ _ => rfl) (fun _ _ => rfl) ok
      exact (((stitched detach).trans (stitched enter)).trans (stitched leave)).trans
        (keeps_setProgressThrough ok)

theorem keeps_changeToken {change : TokenChange} {r : Applied}
    (ok : c.changeToken h change = .ok r) :
    r.issued = none ∧ Keeps (Edit.change h change).kept c r.chain := by
  obtain ⟨n, found, ok⟩ := exists_of_bind_eq_ok ok
  obtain ⟨changed, -, ok⟩ := exists_of_bind_eq_ok ok
  cases ok
  exact ⟨rfl, keeps_setNode (node_eq_ok_iff.1 found) (by simp only [Edit.kept, if_true])⟩

/-! ### Nodes released -/

/-- Nodes are changed in place, and these are released, one after the other. -/
inductive Sheds (f : Handle → Node → α) : Chain → List Handle → Chain → Prop
  | stay {c d : Chain} : Keeps f c d → Sheds f c [] d
  | release {c d e : Chain} {x : Handle} {xs : List Handle} :
      Keeps f c d → d.contains x = true → Sheds f (d.release x) xs e → Sheds f c (x :: xs) e

namespace Sheds

variable {xs : List Handle}

theorem one (keeps : Keeps f c d) (live : d.contains x = true) : Sheds f c [x] (d.release x) :=
  .release keeps live (.stay (.refl f _))

theorem live_of_live (sheds : Sheds f c xs d) (live : d.contains h = true) :
    c.contains h = true ∧ h ∉ xs := by
  induction sheds with
  | stay keeps =>
      rw [keeps.storage.contains_eq] at live
      exact ⟨live, List.not_mem_nil⟩
  | release keeps liveX _ ih =>
      obtain ⟨here, later⟩ := ih live
      obtain ⟨ne, before⟩ := (contains_release liveX h).1 here
      rw [keeps.storage.contains_eq] at before
      exact ⟨before, fun mem => (List.mem_cons.1 mem).elim ne later⟩

theorem live_of_mem (sheds : Sheds f c xs d) (mem : x ∈ xs) : c.contains x = true := by
  induction sheds with
  | stay _ => cases mem
  | release keeps liveY _ ih =>
      rw [← keeps.storage.contains_eq]
      rcases List.mem_cons.1 mem with rfl | later
      · exact liveY
      · exact ((contains_release liveY x).1 (ih later)).2

/-- A node that stays is the one it was. -/
theorem same (sheds : Sheds f c xs d) (stays : h ∉ xs) :
    (d.node? h).map (f h) = (c.node? h).map (f h) := by
  induction sheds with
  | stay keeps => exact keeps.same h
  | release keeps liveX _ ih =>
      rw [List.mem_cons, not_or] at stays
      rw [ih stays.2, node?_release_of_ne liveX stays.1, keeps.same]

end Sheds

theorem live_of_next {r : Option Handle} (ok : c.next h = .ok r) :
    c.contains h = true ∧ r = c.view.next (some h) := by
  obtain ⟨n, found, -⟩ := exists_of_bind_eq_ok ok
  have live : c.contains h = true := contains_iff.2 ⟨n, node_eq_ok_iff.1 found⟩
  rw [next_ok live] at ok
  cases ok
  exact ⟨live, rfl⟩

theorem live_of_previous {r : Option Handle} (ok : c.previous h = .ok r) :
    c.contains h = true := by
  obtain ⟨n, found, -⟩ := exists_of_bind_eq_ok ok
  exact contains_iff.2 ⟨n, node_eq_ok_iff.1 found⟩

theorem view_next_modify {b : Option Handle}
    (ok : (c.modify h fun n => { n with next := b }) = .ok d) : d.view.next (some h) = b := by
  obtain ⟨n, found, ok⟩ := exists_of_bind_eq_ok ok
  cases ok
  have live : c.contains h = true := contains_iff.2 ⟨n, node_eq_ok_iff.1 found⟩
  exact (view_of_node? (node?_setNode_self live _)).1

/-- Where a node has a successor, that one is released. No other node goes on to another place than
before, and the node itself goes on to where its successor went. -/
theorem exists_of_deleteNext (ok : c.deleteNext h = .ok d) (next : c.view.next (some h) = some x) :
    ∃ e, d = e.release x ∧ e.contains x = true ∧
      Keeps (fun k n => (n.token, if k = h then none else n.next)) c e ∧
      e.view.next (some h) = c.view.next (some x) := by
  obtain ⟨victim, first, ok⟩ := exists_of_bind_eq_ok ok
  obtain rfl : victim = some x := (live_of_next first).2.trans next
  obtain ⟨after, second, ok⟩ := exists_of_bind_eq_ok ok
  obtain ⟨liveX, rfl⟩ := live_of_next second
  obtain ⟨c₁, stitched, ok⟩ := exists_of_bind_eq_ok ok
  obtain ⟨c₂, unlinked, ok⟩ := exists_of_bind_eq_ok ok
  cases ok
  have whole : Keeps (fun k n => (n.token, if k = h then none else n.next)) c c₁ := by
    refine keeps_stitch ?_ (fun _ _ => rfl) stitched
    rintro k n ⟨⟩
    simp only [if_true]
  have links : Keeps (fun _ n => (n.token, n.next)) c₁ c₂ :=
    keeps_unlink (fun _ _ _ => rfl) unlinked
  have keeps := whole.trans (links.part fun k p => (p.1, if k = h then none else p.2))
  refine ⟨c₂, rfl, (keeps.storage.contains_eq x).trans liveX, keeps, ?_⟩
  have there : c₁.view.next (some h) = c.view.next (some x) := by
    rw [stitch_eq] at stitched
    obtain ⟨c₀, set, put⟩ := exists_of_bind_eq_ok stitched
    rw [← view_next_modify set]
    exact (keeps_setPrev (f := fun _ n => n.next) (fun _ _ _ => rfl) put).next fun _ => rfl
  rw [← there]
  exact (links.part fun _ p => p.2).next fun _ => rfl

theorem sheds_deleteNext (ok : c.deleteNext h = .ok d) :
    Sheds (fun _ n => some n.token) c (c.view.next (some h)).toList d := by
  cases next : c.view.next (some h) with
  | none =>
      obtain ⟨victim, first, ok⟩ := exists_of_bind_eq_ok ok
      obtain rfl : victim = none := (live_of_next first).2.trans next
      cases ok
      exact .stay (.refl _ _)
  | some x =>
      obtain ⟨e, rfl, live, keeps, -⟩ := exists_of_deleteNext ok next
      exact .one (keeps.part fun _ p => some p.1) live

/-- A walk sees no difference between two chains that agree on the nodes it meets in one. -/
theorem nodesUntil_congr {last start : Option Handle} {n : Nat}
    (same : ∀ k ∈ d.nodesUntil last n start, d.view.next (some k) = c.view.next (some k)) :
    c.nodesUntil last n start = d.nodesUntil last n start := by
  induction n generalizing start with
  | zero => cases start <;> rfl
  | succ n ih =>
      cases start with
      | none => rfl
      | some h =>
          unfold nodesUntil at same ⊢
          split
          · rfl
          next goes_on =>
            rw [if_neg goes_on] at same
            have step := same h List.mem_cons_self
            rw [← step]
            exact congrArg (h :: ·) (ih fun k mem => same k (List.mem_cons_of_mem h mem))

/-- One round of the loop that removes successors: it ends, or the one that comes next goes. -/
theorem eraseUntil_cases {n : Nat} {last : Option Handle} (ok : eraseUntil h last n c = .ok d) :
    c.contains h = true ∧
      ((d = c ∧ c.nodesUntil last n (c.view.next (some h)) = []) ∨
        ∃ m x c₁, n = m + 1 ∧ c.view.next (some h) = some x ∧ some x ≠ last ∧
          c.deleteNext h = .ok c₁ ∧ eraseUntil h last m c₁ = .ok d) := by
  unfold eraseUntil at ok
  obtain ⟨next, first, ok⟩ := exists_of_bind_eq_ok ok
  obtain ⟨live, rfl⟩ := live_of_next first
  refine ⟨live, ?_⟩
  cases next : c.view.next (some h) with
  | none =>
      rw [next] at ok
      cases ok
      exact .inl ⟨rfl, by unfold nodesUntil; rfl⟩
  | some x =>
      simp only [next] at ok
      split at ok
      next stop =>
        cases ok
        refine .inl ⟨rfl, ?_⟩
        unfold nodesUntil
        cases n with
        | zero => rfl
        | succ n => exact if_pos stop
      next goes_on =>
        cases n with
        | zero => cases ok
        | succ n =>
            obtain ⟨c₁, deleted, ok⟩ := exists_of_bind_eq_ok ok
            exact .inr ⟨n, x, c₁, rfl, rfl, goes_on, deleted, ok⟩

/-- The loop that removes successors meets the nodes that were there at its start, and the node that
it starts from stays. -/
theorem sheds_eraseUntil {n : Nat} {last : Option Handle}
    (ok : eraseUntil h last n c = .ok d) :
    Sheds (fun _ n => some n.token) c (c.nodesUntil last n (c.view.next (some h))) d ∧
      d.contains h = true := by
  induction n generalizing c with
  | zero =>
      obtain ⟨live, ⟨rfl, ends⟩ | ⟨m, x, c₁, more, -⟩⟩ := eraseUntil_cases ok
      · rw [ends]
        exact ⟨.stay (.refl _ _), live⟩
      · cases more
  | succ n ih =>
      obtain ⟨live, ⟨rfl, ends⟩ | ⟨m, x, c₁, more, next, goes_on, deleted, ok⟩⟩ :=
        eraseUntil_cases ok
      · rw [ends]
        exact ⟨.stay (.refl _ _), live⟩
      · cases more
        obtain ⟨e, rfl, liveX, keeps, after⟩ := exists_of_deleteNext deleted next
        obtain ⟨sheds, stays⟩ := ih ok
        have neX := ((contains_release liveX h).1 (sheds.live_of_live stays).1).1
        have afterX : (e.release x).view.next (some h) = c.view.next (some x) := by
          rw [view_release liveX, View.drop, ← after]
          exact Function.update_of_ne (by simpa using neX) _ _
        rw [afterX] at sheds
        -- the rest of the walk meets neither the start nor the node that is gone
        have same : ∀ k ∈ (e.release x).nodesUntil last n (c.view.next (some x)),
            (e.release x).view.next (some k) = c.view.next (some k) := by
          intro k mem
          have ne : k ≠ h := by
            rintro rfl
            exact (sheds.live_of_live stays).2 mem
          have other := ((contains_release liveX k).1 (sheds.live_of_mem mem)).1
          have kept := (keeps.part fun j p => if j = h then none else p.2).next (h := k)
            fun m => by simp only [if_neg ne]
          rw [← kept, view_release liveX, View.drop]
          exact Function.update_of_ne (by simpa using other) _ _
        have walk : c.nodesUntil last (n + 1) (some x) =
            x :: (e.release x).nodesUntil last n (c.view.next (some x)) := by
          rw [nodesUntil, if_neg goes_on, nodesUntil_congr same]
        rw [next, walk]
        exact ⟨.release (keeps.part fun _ p => some p.1) liveX sheds, stays⟩

theorem sheds_deleteThis (ok : c.deleteThis h = .ok d) :
    Sheds (Edit.deleteThis h).kept c (c.view.next (some h)).toList d := by
  obtain ⟨next, first, ok⟩ := exists_of_bind_eq_ok ok
  obtain ⟨-, rfl⟩ := live_of_next first
  -- the token under the handle is written, so what is said of it is nothing
  have written {c d : Chain} {g : Token → Token} (ok : c.modifyToken h g = .ok d) :
      Keeps (fun k n => (if k = h then none else some n.token, n.next)) c d :=
    keeps_modifyToken (fun n => by simp only [if_true]) ok
  have unlinked {c d : Chain} {k : Handle} (ok : c.unlink k = .ok d) :
      Keeps (fun k n => (if k = h then none else some n.token, n.next)) c d :=
    keeps_unlink (fun _ _ _ => rfl) ok
  cases next : c.view.next (some h) with
  | none =>
      simp only [next] at ok
      obtain ⟨c₁, cut, ok⟩ := exists_of_bind_eq_ok ok
      obtain ⟨n, found, ok⟩ := exists_of_bind_eq_ok ok
      obtain ⟨t, -, ok⟩ := exists_of_bind_eq_ok ok
      cases ok
      refine .stay (((unlinked cut).part fun _ p => p.1).trans ?_)
      exact keeps_setNode (node_eq_ok_iff.1 found) (by simp only [if_true])
  | some x =>
      simp only [next] at ok
      obtain ⟨partner, -, ok⟩ := exists_of_bind_eq_ok ok
      obtain ⟨c₁, cutH, ok⟩ := exists_of_bind_eq_ok ok
      obtain ⟨c₂, cutX, ok⟩ := exists_of_bind_eq_ok ok
      obtain ⟨t, -, ok⟩ := exists_of_bind_eq_ok ok
      obtain ⟨moved, -, ok⟩ := exists_of_bind_eq_ok ok
      obtain ⟨c₃, put, ok⟩ := exists_of_bind_eq_ok ok
      obtain ⟨c₄, linked, ok⟩ : ∃ c₄, Keeps
          (fun k n => (if k = h then none else some n.token, n.next)) c₃ c₄ ∧
            c₄.deleteNext h = .ok d := by
        split at ok
        · obtain ⟨c₄, link, ok⟩ := exists_of_bind_eq_ok ok
          exact ⟨c₄, keeps_linkPair (fun _ _ _ => rfl) link, ok⟩
        · exact ⟨c₃, .refl _ _, ok⟩
      have keeps := (((unlinked cutH).trans (unlinked cutX)).trans (written put)).trans linked
      have here : c₄.view.next (some h) = some x := by
        rw [← next]
        exact (keeps.part fun _ p => p.2).next fun _ => rfl
      obtain ⟨e, rfl, live, last, -⟩ := exists_of_deleteNext ok here
      exact .one ((keeps.part fun _ p => p.1).trans
        (last.part fun k p => if k = h then none else some p.1)) live

theorem sheds_replace {target first last : Handle} (ok : c.replace target first last = .ok d) :
    Sheds (fun _ n => some n.token) c [target] d := by
  unfold replace at ok
  split at ok
  · cases ok
  · obtain ⟨before, -, ok⟩ := exists_of_bind_eq_ok ok
    obtain ⟨after, -, ok⟩ := exists_of_bind_eq_ok ok
    obtain ⟨c₁, detach, ok⟩ := exists_of_bind_eq_ok ok
    obtain ⟨prev, here, ok⟩ := exists_of_bind_eq_ok ok
    obtain ⟨next, -, ok⟩ := exists_of_bind_eq_ok ok
    obtain ⟨c₂, enter, ok⟩ := exists_of_bind_eq_ok ok
    obtain ⟨c₃, leave, ok⟩ := exists_of_bind_eq_ok ok
    obtain ⟨c₄, unlinked, ok⟩ := exists_of_bind_eq_ok ok
    cases ok
    have stitched {c d : Chain} {a b : Option Handle} (ok : c.stitch a b = .ok d) :
        Keeps (fun _ n => some n.token) c d :=
      keeps_stitch (fun _ _ _ => rfl) (fun _ _ => rfl) ok
    have rest := ((stitched enter).trans (stitched leave)).trans
      (keeps_unlink (fun _ _ _ => rfl) unlinked)
    exact .one ((stitched detach).trans rest)
      ((rest.storage.contains_eq target).trans (live_of_previous here))

/-! ### One edit -/

theorem keeps_threadLast (ok : c.threadLast x = .ok d) : Keeps (fun _ n => some n.token) c d := by
  obtain ⟨e, first, second⟩ := exists_of_bind_eq_ok ok
  refine Keeps.trans ?_ (keeps_setPrev (fun _ _ _ => rfl) second)
  split at first
  · exact keeps_stitch (fun _ _ _ => rfl) (fun _ _ => rfl) first
  · exact keeps_setNext (fun _ _ _ => rfl) first

/-- What an edit does to the storage: it issues a handle to a new node and changes nodes in place,
or it issues none and releases the nodes that it removes. -/
inductive Effect (e : Edit) (c : Chain) (r : Applied) : Prop
  | issues {t : Token} {d : Chain} {x : Handle} :
      c.allocate t = .ok (d, x) → Keeps e.kept d r.chain → r.issued = some x →
      e.removed c = [] → Effect e c r
  | sheds : Sheds e.kept c (e.removed c) r.chain → r.issued = none → Effect e c r

theorem effect_plain {e : Edit} {result : Except Fault Chain} {r : Applied}
    (ok : plain result = .ok r)
    (sheds : ∀ d, result = .ok d → Sheds e.kept c (e.removed c) d) : Effect e c r := by
  cases result with
  | error f => cases ok
  | ok d =>
      cases ok
      exact .sheds (sheds d rfl) rfl

theorem effect_issuing {e : Edit} {result : Except Fault (Chain × Handle)} {r : Applied}
    (ok : issuing result = .ok r) (none_removed : e.removed c = [])
    (issues : ∀ d x, result = .ok (d, x) →
      ∃ t b, c.allocate t = .ok (b, x) ∧ Keeps e.kept b d) : Effect e c r := by
  cases result with
  | error f => cases ok
  | ok result =>
      obtain ⟨d, x⟩ := result
      cases ok
      obtain ⟨t, b, allocated, keeps⟩ := issues d x rfl
      exact .issues allocated keeps rfl none_removed

theorem apply_effect {e : Edit} {r : Applied} (ok : c.apply e = .ok r) : Effect e c r := by
  cases e with
  | push text line file =>
      refine effect_issuing ok rfl fun d x pushed => ?_
      rw [push_eq] at pushed
      obtain ⟨t, -, pushed⟩ := exists_of_bind_eq_ok pushed
      obtain ⟨⟨b, y⟩, allocated, pushed⟩ := exists_of_bind_eq_ok pushed
      obtain ⟨d, threaded, pushed⟩ := exists_of_bind_eq_ok pushed
      cases pushed
      exact ⟨_, b, allocated, keeps_threadLast threaded⟩
  | insertAfter anchor text =>
      refine effect_issuing ok rfl fun d x inserted => ?_
      obtain ⟨t, -, inserted⟩ := exists_of_bind_eq_ok inserted
      obtain ⟨u, -, inserted⟩ := exists_of_bind_eq_ok inserted
      obtain ⟨⟨b, y⟩, allocated, inserted⟩ := exists_of_bind_eq_ok inserted
      obtain ⟨after, -, inserted⟩ := exists_of_bind_eq_ok inserted
      obtain ⟨c₁, first, inserted⟩ := exists_of_bind_eq_ok inserted
      obtain ⟨c₂, second, inserted⟩ := exists_of_bind_eq_ok inserted
      cases inserted
      exact ⟨_, b, allocated, (keeps_stitch (fun _ _ _ => rfl) (fun _ _ => rfl) first).trans
        (keeps_stitch (fun _ _ _ => rfl) (fun _ _ => rfl) second)⟩
  | deleteNext h => exact effect_plain ok fun _ done => sheds_deleteNext done
  | deleteThis h => exact effect_plain ok fun _ done => sheds_deleteThis done
  | replace target first last => exact effect_plain ok fun _ done => sheds_replace done
  | moveRange first last destination =>
      exact effect_plain ok fun _ done => .stay (keeps_moveRange done)
  | eraseRange first last =>
      refine effect_plain ok fun d done => ?_
      cases first with
      | none =>
          cases done
          exact .stay (.refl _ _)
      | some h => exact (sheds_eraseUntil done).1
  | linkPair a b =>
      exact effect_plain ok fun _ done => .stay (keeps_linkPair (fun _ _ _ => rfl) done)
  | unlink h =>
      exact effect_plain ok fun _ done => .stay (keeps_unlink (fun _ _ _ => rfl) done)
  | change h wanted =>
      obtain ⟨none_issued, keeps⟩ := keeps_changeToken ok
      exact .sheds (.stay keeps) none_issued

end Chain

end TokenStream
