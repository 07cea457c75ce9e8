import Mathlib.Data.List.Chain
import Mathlib.Data.List.Infix
import Mathlib.Data.List.Lattice
import Mathlib.Data.List.Nodup
import Mathlib.Data.Option.Basic
import TokenStream.Token
/-!
A chain as its handles show it: who follows whom, who is linked to whom, which token is where. The
place before the first node and after the last one is one place, `none`, so a chain is a ring and
its ends are no special case. A ring is cut and closed again by `stitch`; the lemmas say which
paths survive that and which ones it makes.
-/
namespace TokenStream

/-- What a chain shows. The neighbours of `none` are the ends of the chain. -/
@[ext] structure View where
  next : Option Handle → Option Handle
  prev : Option Handle → Option Handle
  partner : Handle → Option Handle
  token? : Handle → Option Token

namespace View

open Function (update update_self update_of_ne)

/-- Makes the place `b` follow the place `a`. -/
def stitch (v : View) (a b : Option Handle) : View :=
  { v with next := update v.next a b, prev := update v.prev b a }

/-- Drops the link of a node on both ends. -/
def unlink (v : View) (h : Handle) : View :=
  { v with partner := fun k => if k = h ∨ v.partner h = some k then none else v.partner k }

/-- Links two nodes to each other in place of the links they have. -/
def linkPair (v : View) (a b : Handle) : View :=
  let u := (v.unlink a).unlink b
  { u with partner := update (update u.partner a (some b)) b (some a) }

/-- Puts a token under a handle. -/
def put (v : View) (h : Handle) (t : Token) : View :=
  { v with token? := update v.token? h (some t) }

/-- Forgets a handle. -/
def drop (v : View) (h : Handle) : View where
  next := update v.next (some h) none
  prev := update v.prev (some h) none
  partner := update v.partner h none
  token? := update v.token? h none

/-- Moves a block from between `A` and `C` to between `X` and `Y`, in three stitches. -/
def relocate (v : View) (A B C X Y : List Handle) : View :=
  ((v.stitch A.getLast? C.head?).stitch X.getLast? B.head?).stitch B.getLast? Y.head?

/-- Each place of the list is followed by the one after it, seen from both. -/
def Path (v : View) (places : List (Option Handle)) : Prop :=
  places.IsChain fun a b => v.next a = b ∧ v.prev b = a

/-- The way from the place between the ends through these nodes. -/
def opening (order : List Handle) : List (Option Handle) :=
  none :: order.map some

/-- The way through these nodes to the place between the ends. -/
def closing (order : List Handle) : List (Option Handle) :=
  order.map some ++ [none]

/-- Once round from the place between the ends, these are the nodes in order. -/
def Ring (v : View) (order : List Handle) : Prop :=
  v.Path (none :: order.map some ++ [none])

section
variable (v : View) (a b : Option Handle)

@[simp] theorem next_stitch : (v.stitch a b).next = update v.next a b := rfl
@[simp] theorem prev_stitch : (v.stitch a b).prev = update v.prev b a := rfl
@[simp] theorem partner_stitch : (v.stitch a b).partner = v.partner := rfl
@[simp] theorem token?_stitch : (v.stitch a b).token? = v.token? := rfl

variable (h k : Handle) (t : Token)

@[simp] theorem next_put : (v.put h t).next = v.next := rfl
@[simp] theorem prev_put : (v.put h t).prev = v.prev := rfl
@[simp] theorem partner_put : (v.put h t).partner = v.partner := rfl
@[simp] theorem token?_put : (v.put h t).token? = update v.token? h (some t) := rfl
@[simp] theorem next_unlink : (v.unlink h).next = v.next := rfl
@[simp] theorem prev_unlink : (v.unlink h).prev = v.prev := rfl
@[simp] theorem token?_unlink : (v.unlink h).token? = v.token? := rfl
@[simp] theorem next_linkPair : (v.linkPair h k).next = v.next := rfl
@[simp] theorem prev_linkPair : (v.linkPair h k).prev = v.prev := rfl
@[simp] theorem token?_linkPair : (v.linkPair h k).token? = v.token? := rfl
@[simp] theorem token?_drop : (v.drop h).token? = update v.token? h none := rfl

end

theorem stitch_comm (v : View) {a b a' b' : Option Handle} (sources : a ≠ a') (targets : b ≠ b') :
    (v.stitch a b).stitch a' b' = (v.stitch a' b').stitch a b := by
  ext1
  · exact Function.update_comm sources b b' v.next
  · exact Function.update_comm targets a a' v.prev
  · rfl
  · rfl

/-! ### Paths -/

theorem getLast?_opening (order : List Handle) :
    (opening order).getLast? = some order.getLast? := by
  rcases List.eq_nil_or_concat order with rfl | ⟨rest, last, rfl⟩
  · rfl
  · rw [List.concat_eq_append, opening, List.map_append, ← List.cons_append, List.map_singleton,
      List.getLast?_concat, List.getLast?_concat]

theorem head?_closing (order : List Handle) : (closing order).head? = some order.head? := by
  cases order <;> rfl

/-- A ring is cut between any two of its places. -/
theorem ring_append {v : View} {A C : List Handle} :
    v.Ring (A ++ C) ↔ v.Path (opening A) ∧ v.Path (closing C) ∧
      v.next A.getLast? = C.head? ∧ v.prev C.head? = A.getLast? := by
  have split : none :: (A ++ C).map some ++ [none] = opening A ++ closing C := by
    simp [opening, closing]
  rw [Ring, split, Path, List.isChain_append, getLast?_opening, head?_closing]
  simp [Path]

theorem path_opening_append {v : View} {A B : List Handle} (nonempty : B ≠ []) :
    v.Path (opening (A ++ B)) ↔ v.Path (opening A) ∧ v.Path (B.map some) ∧
      v.next A.getLast? = B.head? ∧ v.prev B.head? = A.getLast? := by
  obtain ⟨b, B, rfl⟩ := List.exists_cons_of_ne_nil nonempty
  have split : opening (A ++ b :: B) = opening A ++ (b :: B).map some := by
    simp [opening]
  rw [split, Path, List.isChain_append, getLast?_opening]
  simp [Path]

/-- A path that goes on from `a` nowhere but at its end, and comes to `b` nowhere but at its start,
does not see them stitched together. -/
theorem Path.stitch {v : View} {places : List (Option Handle)} (path : v.Path places)
    {a b : Option Handle} (source : a ∉ places.dropLast) (target : b ∉ places.tail) :
    (v.stitch a b).Path places := by
  induction path with
  | nil => exact .nil
  | singleton x => exact .singleton x
  | @cons_cons x y rest step path ih =>
      rw [List.dropLast_cons_cons, List.mem_cons, not_or] at source
      rw [List.tail_cons, List.mem_cons, not_or] at target
      refine .cons_cons ⟨?_, ?_⟩ (ih source.2 target.2)
      · rw [next_stitch, update_of_ne (Ne.symm source.1)]
        exact step.1
      · rw [prev_stitch, update_of_ne (Ne.symm target.1)]
        exact step.2

theorem Path.drop {v : View} {places : List (Option Handle)} (path : v.Path places) {h : Handle}
    (absent : some h ∉ places) : (v.drop h).Path places := by
  refine path.imp_of_mem_imp ?_
  intro a b memA memB step
  have neA : a ≠ some h := fun same => absent (same ▸ memA)
  have neB : b ≠ some h := fun same => absent (same ▸ memB)
  simp only [View.drop, update_of_ne neA, update_of_ne neB]
  exact step

/-! ### Cutting and closing -/

theorem nodup_opening {order : List Handle} (nodup : order.Nodup) : (opening order).Nodup := by
  rw [opening, List.nodup_cons]
  exact ⟨by simp, nodup.map (Option.some_injective _)⟩

theorem nodup_closing {order : List Handle} (nodup : order.Nodup) : (closing order).Nodup := by
  rw [closing, ← List.concat_eq_append]
  exact (nodup.map (Option.some_injective _)).concat (by simp)

theorem getLast?_not_mem_map {A B : List Handle} (disjoint : A.Disjoint B) :
    A.getLast? ∉ B.map some := by
  intro mem
  obtain ⟨x, memB, last⟩ := List.mem_map.1 mem
  exact disjoint (List.mem_of_getLast? last.symm) memB

theorem head?_not_mem_map {A B : List Handle} (disjoint : A.Disjoint B) :
    A.head? ∉ B.map some := by
  intro mem
  obtain ⟨x, memB, first⟩ := List.mem_map.1 mem
  exact disjoint (List.mem_of_head? first.symm) memB

theorem not_mem_dropLast {places : List (Option Handle)} (nodup : places.Nodup)
    {a : Option Handle} (last : places.getLast? = some a) : a ∉ places.dropLast := by
  obtain ⟨rest, rfl⟩ := List.getLast?_eq_some_iff.1 last
  rw [List.dropLast_concat]
  exact fun mem => (List.nodup_append.1 nodup).2.2 a mem a (by simp) rfl

theorem not_mem_tail {places : List (Option Handle)} (nodup : places.Nodup)
    {b : Option Handle} (first : places.head? = some b) : b ∉ places.tail := by
  obtain ⟨rest, rfl⟩ := List.head?_eq_some_iff.1 first
  exact (List.nodup_cons.1 nodup).1

/-- The two halves of a ring are closed where they were cut. -/
theorem ring_stitch {v : View} {A C : List Handle} (before : v.Path (opening A))
    (after : v.Path (closing C)) (nodup : (A ++ C).Nodup) :
    (v.stitch A.getLast? C.head?).Ring (A ++ C) := by
  obtain ⟨nodupA, nodupC, disjoint⟩ := List.nodup_append'.1 nodup
  refine ring_append.2 ⟨before.stitch ?_ ?_, after.stitch ?_ ?_, ?_, ?_⟩
  · exact not_mem_dropLast (nodup_opening nodupA) (getLast?_opening A)
  · exact head?_not_mem_map (List.disjoint_symm disjoint)
  · rw [closing, List.dropLast_concat]
    exact getLast?_not_mem_map disjoint
  · exact not_mem_tail (nodup_closing nodupC) (head?_closing C)
  · simp
  · simp

/-- A loose block is put at the end of the first half. -/
theorem path_opening_stitch {v : View} {A B : List Handle} (before : v.Path (opening A))
    (block : v.Path (B.map some)) (nonempty : B ≠ []) (nodup : (A ++ B).Nodup) :
    (v.stitch A.getLast? B.head?).Path (opening (A ++ B)) := by
  obtain ⟨nodupA, nodupB, disjoint⟩ := List.nodup_append'.1 nodup
  refine (path_opening_append nonempty).2 ⟨before.stitch ?_ ?_, block.stitch ?_ ?_, ?_, ?_⟩
  · exact not_mem_dropLast (nodup_opening nodupA) (getLast?_opening A)
  · exact head?_not_mem_map (List.disjoint_symm disjoint)
  · exact fun mem => getLast?_not_mem_map disjoint (List.mem_of_mem_dropLast mem)
  · obtain ⟨b, B, rfl⟩ := List.exists_cons_of_ne_nil nonempty
    exact not_mem_tail (nodupB.map (Option.some_injective _)) rfl
  · simp
  · simp

/-- The second half does not see a block put at the end of the first. -/
theorem path_closing_stitch {v : View} {A B C : List Handle} (after : v.Path (closing C))
    (nonempty : B ≠ []) (nodup : (A ++ B ++ C).Nodup) :
    (v.stitch A.getLast? B.head?).Path (closing C) := by
  obtain ⟨-, nodupC, disjoint⟩ := List.nodup_append'.1 nodup
  rw [List.disjoint_append_left] at disjoint
  refine after.stitch ?_ ?_
  · rw [closing, List.dropLast_concat]
    exact getLast?_not_mem_map disjoint.1
  · intro mem
    obtain ⟨b, B, rfl⟩ := List.exists_cons_of_ne_nil nonempty
    rcases List.mem_append.1 (List.mem_of_mem_tail mem) with mem | mem
    · exact head?_not_mem_map disjoint.2 mem
    · simp at mem

/-- Stitching its neighbours together takes a block out of a ring. The block stays in one piece. -/
theorem Ring.detach {v : View} {A B C : List Handle} (ring : v.Ring (A ++ B ++ C))
    (nonempty : B ≠ []) (nodup : (A ++ B ++ C).Nodup) :
    (v.stitch A.getLast? C.head?).Ring (A ++ C) ∧
      (v.stitch A.getLast? C.head?).Path (B.map some) := by
  obtain ⟨nodupAB, nodupC, disjointC⟩ := List.nodup_append'.1 nodup
  obtain ⟨nodupA, nodupB, disjointB⟩ := List.nodup_append'.1 nodupAB
  rw [List.disjoint_append_left] at disjointC
  obtain ⟨first, after, -, -⟩ := ring_append.1 ring
  obtain ⟨before, block, -, -⟩ := (path_opening_append nonempty).1 first
  refine ⟨ring_stitch before after ?_, block.stitch ?_ ?_⟩
  · exact List.nodup_append'.2 ⟨nodupA, nodupC, disjointC.1⟩
  · exact fun mem => getLast?_not_mem_map disjointB (List.mem_of_mem_dropLast mem)
  · exact fun mem => head?_not_mem_map (List.disjoint_symm disjointC.2) (List.mem_of_mem_tail mem)

/-- Two stitches put a loose block between the halves of a ring. -/
theorem ring_attach {v : View} {A B C : List Handle} (before : v.Path (opening A))
    (block : v.Path (B.map some)) (after : v.Path (closing C)) (nonempty : B ≠ [])
    (nodup : (A ++ B ++ C).Nodup) :
    ((v.stitch A.getLast? B.head?).stitch B.getLast? C.head?).Ring (A ++ B ++ C) := by
  have nodupAB := (List.nodup_append'.1 nodup).1
  have front := path_opening_stitch before block nonempty nodupAB
  have closed := ring_stitch front (path_closing_stitch after nonempty nodup) nodup
  rwa [List.getLast?_append_of_ne_nil _ nonempty] at closed

theorem perm_relocate {A B C X M Y : List Handle} (rest : A ++ C = X ++ M ++ Y) :
    (A ++ B ++ C).Perm (M ++ (X ++ B ++ Y)) := by
  refine List.perm_iff_count.2 fun h => ?_
  have same := congrArg (List.count h) rest
  simp only [List.count_append] at same ⊢
  omega

/-- A block that is moved fits in, and what stood in its new place is passed over. -/
theorem Ring.relocate {v : View} {A B C X M Y : List Handle} (ring : v.Ring (A ++ B ++ C))
    (nonempty : B ≠ []) (nodup : (A ++ B ++ C).Nodup) (rest : A ++ C = X ++ M ++ Y) :
    (v.relocate A B C X Y).Ring (X ++ B ++ Y) := by
  obtain ⟨closed, block⟩ := ring.detach nonempty nodup
  rw [rest] at closed
  obtain ⟨first, after, -, -⟩ := ring_append.1 closed
  have before : (v.stitch A.getLast? C.head?).Path (opening X) := by
    rw [opening, List.map_append, ← List.cons_append] at first
    exact first.left_of_append
  have moved := (perm_relocate (B := B) rest).nodup_iff.1 nodup
  exact ring_attach before block after nonempty (List.nodup_append'.1 moved).2.1

theorem Ring.next_none {v : View} {order : List Handle} (ring : v.Ring order) :
    v.next none = order.head? :=
  (ring_append (A := []) (C := order) |>.1 ring).2.2.1

theorem Ring.prev_none {v : View} {order : List Handle} (ring : v.Ring order) :
    v.prev none = order.getLast? := by
  rw [← List.append_nil order] at ring
  exact (ring_append.1 ring).2.2.2

theorem Ring.next_some {v : View} {A C : List Handle} {h : Handle} (ring : v.Ring (A ++ h :: C)) :
    v.next (some h) = C.head? := by
  rw [List.append_cons] at ring
  simpa using (ring_append.1 ring).2.2.1

theorem Ring.prev_some {v : View} {A C : List Handle} {h : Handle} (ring : v.Ring (A ++ h :: C)) :
    v.prev (some h) = A.getLast? :=
  (ring_append.1 ring).2.2.2

theorem Ring.drop {v : View} {order : List Handle} (ring : v.Ring order) {h : Handle}
    (absent : h ∉ order) : (v.drop h).Ring order :=
  Path.drop ring (by simpa using absent)

/-- From one place on there is one path to the place between the ends. -/
theorem path_closing_unique {v : View} {a : Option Handle} {order order' : List Handle}
    (path : v.Path (a :: closing order)) (path' : v.Path (a :: closing order')) :
    order = order' := by
  induction order generalizing a order' with
  | nil =>
      cases order' with
      | nil => rfl
      | cons k order' =>
          have first := (List.isChain_cons_cons.1 path).1.1
          have first' := (List.isChain_cons_cons.1 path').1.1
          cases first.symm.trans first'
  | cons h order ih =>
      cases order' with
      | nil =>
          have first := (List.isChain_cons_cons.1 path).1.1
          have first' := (List.isChain_cons_cons.1 path').1.1
          cases first.symm.trans first'
      | cons k order' =>
          obtain ⟨⟨first, -⟩, rest⟩ := List.isChain_cons_cons.1 path
          obtain ⟨⟨first', -⟩, rest'⟩ := List.isChain_cons_cons.1 path'
          obtain rfl : h = k := Option.some.inj (first.symm.trans first')
          rw [ih rest rest']

/-! ### Soundness -/

/-- The view of a chain whose nodes are these, in this order and without repetition. A link joins
two nodes, and both know of it. -/
structure Sound (v : View) (order : List Handle) : Prop where
  nodup : order.Nodup
  mem_iff : ∀ h, h ∈ order ↔ (v.token? h).isSome = true
  ring : v.Ring order
  linked : ∀ h k, v.partner h = some k → k ≠ h ∧ k ∈ order ∧ v.partner k = some h

section
variable {v w : View} {order order' : List Handle} {h : Handle}

/-- A chain has one order. -/
theorem Sound.unique (sound : v.Sound order) (sound' : v.Sound order') : order = order' :=
  path_closing_unique sound.ring sound'.ring

theorem partner_unlink_eq_some_iff {a b : Handle} :
    (v.unlink h).partner a = some b ↔ a ≠ h ∧ v.partner h ≠ some a ∧ v.partner a = some b := by
  simp only [unlink]
  split
  next cut => grind
  next keep => grind

theorem unlink_of_unlinked (loose : v.partner h = none) : v.unlink h = v := by
  have same : (v.unlink h).partner = v.partner := by
    funext k
    simp only [unlink, loose, reduceCtorEq, or_false, ite_eq_right_iff]
    rintro rfl
    exact loose.symm
  exact View.ext rfl rfl same rfl

theorem partner_linkPair {a b : Handle} (looseA : v.partner a = none)
    (looseB : v.partner b = none) :
    (v.linkPair a b).partner = update (update v.partner a (some b)) b (some a) := by
  rw [View.linkPair, unlink_of_unlinked looseA, unlink_of_unlinked looseB]

theorem partner_linkPair_eq_some_iff {a b : Handle} (ne : a ≠ b) (looseA : v.partner a = none)
    (looseB : v.partner b = none) {h k : Handle} :
    (v.linkPair a b).partner h = some k ↔
      v.partner h = some k ∨ h = a ∧ k = b ∨ h = b ∧ k = a := by
  rw [partner_linkPair looseA looseB]
  by_cases atB : h = b
  · subst atB
    simp [looseB, ne.symm, eq_comm]
  · by_cases atA : h = a
    · subst atA
      simp [looseA, atB, eq_comm]
    · simp [atA, atB]

theorem linked_unlink
    (linked : ∀ a b, v.partner a = some b → b ≠ a ∧ b ∈ order ∧ v.partner b = some a) (h : Handle) :
    ∀ a b, (v.unlink h).partner a = some b →
      b ≠ a ∧ b ∈ order ∧ (v.unlink h).partner b = some a := by
  intro a b link
  obtain ⟨ne, other, old⟩ := partner_unlink_eq_some_iff.1 link
  obtain ⟨differs, mem, back⟩ := linked a b old
  refine ⟨differs, mem, partner_unlink_eq_some_iff.2 ⟨?_, ?_, back⟩⟩
  · rintro rfl
    exact other back
  · intro same
    have again := (linked h b same).2.2
    exact ne (Option.some_injective _ (back.symm.trans again))

theorem Sound.unlink (sound : v.Sound order) (h : Handle) : (v.unlink h).Sound order where
  nodup := sound.nodup
  mem_iff := sound.mem_iff
  ring := sound.ring
  linked := linked_unlink sound.linked h

/-- The links that go are those with the node at either end. -/
theorem Sound.partner_unlink (sound : v.Sound order) {a b : Handle} :
    (v.unlink h).partner a = some b ↔ v.partner a = some b ∧ a ≠ h ∧ b ≠ h := by
  rw [partner_unlink_eq_some_iff]
  constructor
  · rintro ⟨ne, other, link⟩
    refine ⟨link, ne, ?_⟩
    rintro rfl
    exact other (sound.linked a b link).2.2
  · rintro ⟨link, neA, neB⟩
    refine ⟨neA, fun same => neB ?_, link⟩
    have back := (sound.linked h a same).2.2
    exact Option.some.inj (link.symm.trans back)

/-- The links that go are those with either node at either end, and one between the two comes. -/
theorem Sound.partner_linkPair (sound : v.Sound order) {a b : Handle} (ne : a ≠ b)
    {h k : Handle} :
    (v.linkPair a b).partner h = some k ↔
      (v.partner h = some k ∧ (h ≠ a ∧ k ≠ a) ∧ h ≠ b ∧ k ≠ b) ∨ h = a ∧ k = b ∨ h = b ∧ k = a := by
  have cut {x y : Handle} : ((v.unlink a).unlink b).partner x = some y ↔
      (v.partner x = some y ∧ x ≠ a ∧ y ≠ a) ∧ x ≠ b ∧ y ≠ b := by
    rw [(sound.unlink a).partner_unlink, sound.partner_unlink]
  have loose {x : Handle} (here : x = a ∨ x = b) : ((v.unlink a).unlink b).partner x = none := by
    refine Option.eq_none_iff_forall_ne_some.2 fun y link => ?_
    obtain ⟨⟨-, notA, -⟩, notB, -⟩ := cut.1 link
    exact here.elim notA notB
  -- once both are loose, cutting their links again does nothing
  have same : (v.linkPair a b).partner = (((v.unlink a).unlink b).linkPair a b).partner :=
    (View.partner_linkPair (loose (.inl rfl)) (loose (.inr rfl))).symm
  rw [same, partner_linkPair_eq_some_iff ne (loose (.inl rfl)) (loose (.inr rfl)), cut, and_assoc]

theorem Sound.linkPair (sound : v.Sound order) {a b : Handle} (ne : a ≠ b) (memA : a ∈ order)
    (memB : b ∈ order) : (v.linkPair a b).Sound order where
  nodup := sound.nodup
  mem_iff := sound.mem_iff
  ring := sound.ring
  linked := by
    have cut := ((sound.unlink a).unlink b).linked
    have loose : ∀ x y, ((v.unlink a).unlink b).partner x = some y → y ≠ a ∧ y ≠ b := by
      intro x y link
      have back := (cut x y link).2.2
      have outer := partner_unlink_eq_some_iff.1 back
      exact ⟨(partner_unlink_eq_some_iff.1 outer.2.2).1, outer.1⟩
    intro x y link
    by_cases atB : x = b
    · subst atB
      obtain rfl : a = y := by simpa [View.linkPair] using link
      exact ⟨ne, memA, by simp [View.linkPair, update_of_ne ne]⟩
    · by_cases atA : x = a
      · subst atA
        obtain rfl : b = y := by simpa [View.linkPair, update_of_ne ne] using link
        exact ⟨Ne.symm ne, memB, by simp [View.linkPair]⟩
      · have old : ((v.unlink a).unlink b).partner x = some y := by
          simpa [View.linkPair, update_of_ne atA, update_of_ne atB] using link
        obtain ⟨neA, neB⟩ := loose x y old
        obtain ⟨differs, mem, back⟩ := cut x y old
        exact ⟨differs, mem,
          by simpa [View.linkPair, update_of_ne neA, update_of_ne neB] using back⟩

theorem Sound.put (sound : v.Sound order) (mem : h ∈ order) (t : Token) :
    (v.put h t).Sound order where
  nodup := sound.nodup
  mem_iff k := by
    by_cases same : k = h
    · subst same
      simpa [View.put] using mem
    · simpa [View.put, update_of_ne same] using sound.mem_iff k
  ring := sound.ring
  linked := sound.linked

/-- The same nodes, threaded in another order. -/
theorem Sound.rethread (sound : v.Sound order) (ring : w.Ring order') (perm : order'.Perm order)
    (tokens : w.token? = v.token?) (links : w.partner = v.partner) : w.Sound order' where
  nodup := perm.nodup_iff.2 sound.nodup
  mem_iff k := by rw [tokens, perm.mem_iff, sound.mem_iff]
  ring := ring
  linked a b := by
    rw [links, perm.mem_iff]
    exact sound.linked a b

/-- One node more, which has no link yet. -/
theorem Sound.insert (sound : v.Sound order) {t : Token} (ring : w.Ring order')
    (perm : order'.Perm (h :: order)) (new : h ∉ order)
    (tokens : w.token? = update v.token? h (some t)) (links : w.partner = v.partner) :
    w.Sound order' where
  nodup := perm.nodup_iff.2 (List.nodup_cons.2 ⟨new, sound.nodup⟩)
  mem_iff k := by
    rw [tokens, perm.mem_iff, List.mem_cons, sound.mem_iff]
    by_cases same : k = h
    · simp [same]
    · simp [same]
  ring := ring
  linked a b link := by
    rw [links] at link ⊢
    obtain ⟨differs, mem, back⟩ := sound.linked a b link
    exact ⟨differs, perm.mem_iff.2 (List.mem_cons_of_mem _ mem), back⟩

/-- One node less. Its link goes first. -/
theorem Sound.remove (sound : v.Sound order) (ring : w.Ring order')
    (perm : (h :: order').Perm order) (tokens : w.token? = v.token?)
    (links : w.partner = v.partner) : ((w.unlink h).drop h).Sound order' := by
  obtain ⟨absent, nodup⟩ := List.nodup_cons.1 (perm.nodup_iff.2 sound.nodup)
  have bare : (w.unlink h).partner h = none := by simp [View.unlink]
  have same : ((w.unlink h).drop h).partner = (w.unlink h).partner := by
    rw [View.drop, ← bare, Function.update_eq_self]
  refine ⟨nodup, ?_, Ring.drop (v := w.unlink h) ring absent, ?_⟩
  · intro k
    by_cases here : k = h
    · subst here
      simpa [View.drop] using absent
    · have mem : k ∈ order' ↔ k ∈ order := by simp [← perm.mem_iff, here]
      simp only [View.drop, update_of_ne here]
      rw [mem, sound.mem_iff, ← tokens]
      rfl
  · intro a b link
    rw [same] at link ⊢
    have linked : ∀ a b, w.partner a = some b → b ≠ a ∧ b ∈ order ∧ w.partner b = some a :=
      links ▸ sound.linked
    obtain ⟨differs, mem, back⟩ := linked_unlink linked h a b link
    have away : b ≠ h := (partner_unlink_eq_some_iff.1 back).1
    rw [← perm.mem_iff, List.mem_cons] at mem
    exact ⟨differs, mem.resolve_left away, back⟩

end

end View

end TokenStream
