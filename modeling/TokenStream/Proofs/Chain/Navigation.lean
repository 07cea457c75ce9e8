import TokenStream.Proofs.Chain.History
/-!
Moving about in a chain is arithmetic on places: an offset leads from a place to the place with the
sum as its index, and off the chain if there is none. Walks on and walks back use different fields
of the nodes, so this rests on each of the two being the inverse of the other.
-/
namespace TokenStream.Chain

/-- The entry of a list at an index that may lie before its start or behind its end. -/
def entryAt (order : List Handle) (i : Int) : Option Handle :=
  if 0 ≤ i then order[i.toNat]? else none

variable {c : Chain} {order : List Handle} {h : Handle} {p : Nat}

theorem entryAt_eq_some_iff {i : Int} :
    entryAt order i = some h ↔ ∃ p : Nat, i = p ∧ order[p]? = some h := by
  unfold entryAt
  split
  next nonneg =>
    constructor
    · exact fun found => ⟨i.toNat, (Int.toNat_of_nonneg nonneg).symm, found⟩
    · rintro ⟨p, rfl, found⟩
      exact found
  next negative =>
    constructor
    · exact fun found => nomatch found
    · rintro ⟨p, rfl, -⟩
      exact absurd (Int.natCast_nonneg p) negative

theorem exists_split_of_getElem? (here : order[p]? = some h) :
    ∃ A C, order = A ++ h :: C ∧ A.length = p := by
  obtain ⟨bound, rfl⟩ := List.getElem?_eq_some_iff.1 here
  refine ⟨order.take p, order.drop (p + 1), ?_, List.length_take_of_le bound.le⟩
  rw [← List.drop_eq_getElem_cons bound, List.take_append_drop]

/-- Forwards the fields `next` are followed, and the walk counts up from its place. -/
theorem hop_next_eq (sound : c.view.Sound order) (here : order[p]? = some h) (n : Nat) :
    hop c.next n (some h) = .ok (entryAt order (p + n)) := by
  obtain ⟨A, C, rfl, rfl⟩ := exists_split_of_getElem? here
  have walk := hop_next_of_sound sound n
  have place : (0 : Int) ≤ A.length + n := by omega
  have index : (A.length + n : Int).toNat = A.length + n := by omega
  rw [List.head?_cons] at walk
  rw [walk, entryAt, if_pos place, index, List.getElem?_append_right (Nat.le_add_right _ n),
    Nat.add_sub_cancel_left]

/-- Backwards the fields `prev` are followed, and the walk counts down until it has passed the first
place. -/
theorem hop_previous_eq (sound : c.view.Sound order) (here : order[p]? = some h) (n : Nat) :
    hop c.previous n (some h) = .ok (entryAt order (p - n)) := by
  obtain ⟨A, C, rfl, rfl⟩ := exists_split_of_getElem? here
  rw [List.append_cons] at sound ⊢
  have walk := hop_previous_of_sound sound n
  rw [List.getLast?_concat] at walk
  rw [walk, entryAt]
  split
  next inside =>
    have few : n < (A ++ [h]).length := by
      rw [List.length_append, List.length_singleton]
      omega
    have index : (A.length - n : Int).toNat = (A ++ [h]).length - 1 - n := by
      rw [List.length_append, List.length_singleton]
      omega
    have last : (A ++ [h]).length - 1 - n < (A ++ [h]).length := by omega
    rw [List.getElem?_reverse few, index, List.getElem?_append_left last]
  next outside =>
    have many : (A ++ [h]).reverse.length ≤ n := by
      rw [List.length_reverse, List.length_append, List.length_singleton]
      omega
    rw [List.getElem?_eq_none many]

theorem tokenAt_eq (sound : c.view.Sound order) (here : order[p]? = some h) (offset : Int) :
    c.tokenAt h offset = .ok (entryAt order (p + offset)) := by
  unfold tokenAt
  split
  next forwards =>
    have distance : offset = offset.natAbs := by omega
    rw [hop_next_eq sound here, ← distance]
  next backwards =>
    have distance : (p + offset : Int) = p - offset.natAbs := by omega
    rw [hop_previous_eq sound here, distance]

/-- In a valid chain an offset of either sign, the least one of 32 bits like any other, leads to the
node that is so many places further in the order, or to none if there is no such place. So the walk
by the opposite offset returns, two walks one after the other are one walk by the sum, as long as
the first one stays inside, and to go on from a node is to meet it and the ones behind it. -/
theorem navigation_exact (sound : c.view.Sound order) :
    (∀ (p : Nat) (h : Handle), order[p]? = some h →
      (∀ offset : Int, c.tokenAt h offset = .ok (entryAt order (p + offset))) ∧
      ∀ limit, c.handlesFrom limit (some h) = .ok ((order.drop p).take limit)) ∧
    ∀ h ∈ order, ∀ (a : Int) (k : Handle), c.tokenAt h a = .ok (some k) →
      c.tokenAt k (-a) = .ok (some h) ∧ ∀ b : Int, c.tokenAt k b = c.tokenAt h (a + b) := by
  refine ⟨fun p h here => ⟨tokenAt_eq sound here, fun limit => ?_⟩, fun h mem a k walk => ?_⟩
  · obtain ⟨A, C, rfl, rfl⟩ := exists_split_of_getElem? here
    have collected := collectFrom_of_sound sound limit #[]
    rw [List.head?_cons] at collected
    rw [handlesFrom, collected, ok_bind, List.drop_left, Array.empty_append]
    rfl
  · obtain ⟨p, here⟩ := List.getElem?_of_mem mem
    rw [tokenAt_eq sound here] at walk
    obtain ⟨q, place, there⟩ := entryAt_eq_some_iff.1 (Except.ok.inj walk)
    refine ⟨?_, fun b => ?_⟩
    · rw [tokenAt_eq sound there, ← place, Int.add_neg_cancel_right]
      exact congrArg _ (entryAt_eq_some_iff.2 ⟨p, rfl, here⟩)
    · rw [tokenAt_eq sound there, tokenAt_eq sound here, ← place, Int.add_assoc]

-- In `b c a` the last node was moved there from the front. The least offset leads off the chain.
theorem walk_from_moved :
    ∃ (c : Chain) (order : List Handle), c.view.Sound order ∧ order[2]? = some ⟨0, 0⟩ ∧
      c.tokenAt ⟨0, 0⟩ (-2147483648) = .ok none ∧ c.tokenAt ⟨0, 0⟩ (-2) = .ok (some ⟨1, 0⟩) ∧
      c.tokenAt ⟨1, 0⟩ 1 = .ok (some ⟨2, 0⟩) ∧
      c.handlesFrom 9 (some ⟨2, 0⟩) = .ok [⟨2, 0⟩, ⟨0, 0⟩] := by
  have h₁ : History _ := .edit (e := .push "a" 1 0) .start (show "a" ≠ "" by decide) rfl
  have h₂ : History _ := .edit (e := .push "b" 1 0) h₁ (show "b" ≠ "" by decide) rfl
  have h₃ : History _ := .edit (e := .push "c" 1 0) h₂ (show "c" ≠ "" by decide) rfl
  have h₄ : History _ := .edit (e := .moveRange ⟨0, 0⟩ ⟨0, 0⟩ ⟨2, 0⟩) h₃
    ⟨rfl, [⟨0, 0⟩], ⟨rfl, rfl, List.forall_mem_singleton.2 rfl, .singleton _⟩, by decide⟩ rfl
  obtain ⟨order, valid⟩ := h₄.valid
  obtain rfl : order = [⟨1, 0⟩, ⟨2, 0⟩, ⟨0, 0⟩] := valid.order_eq rfl
  obtain ⟨places, walks⟩ := navigation_exact valid.sound
  have back := (places 2 ⟨0, 0⟩ rfl).1 (-2)
  obtain ⟨-, onwards⟩ := walks ⟨0, 0⟩ (by simp) (-2) ⟨1, 0⟩ back
  exact ⟨_, _, valid.sound, rfl, (places 2 ⟨0, 0⟩ rfl).1 _, back,
    (onwards 1).trans ((places 2 ⟨0, 0⟩ rfl).1 _), (places 1 ⟨2, 0⟩ rfl).2 9⟩

end TokenStream.Chain
