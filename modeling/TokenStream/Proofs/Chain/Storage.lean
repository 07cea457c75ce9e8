import Mathlib.Data.List.Nodup
import Mathlib.Data.List.Perm.Subperm
import TokenStream.Chain.Lemmas
/-!
The storage of a chain: which slots are in use, which are free, and how many tokens there are. An
operation that changes nodes in place leaves all of that alone; allocating takes a free slot, or a
new one where none is free, and freeing gives one back.
-/
namespace TokenStream.Chain

/-- How many slots hold a node. -/
def occupied (c : Chain) : Nat :=
  c.slots.countP fun slot => slot.node.isSome

/-- The bookkeeping is right: the free slots are listed once each, the tokens are counted, and the
slots are no more than there may be. -/
structure Stored (c : Chain) : Prop where
  free_nodup : c.free.Nodup
  mem_free_iff : ∀ i, i ∈ c.free ↔ ∃ slot, c.slots[i]? = some slot ∧ slot.node = none
  live_eq : c.live = c.occupied
  size_le : c.slots.size ≤ Limits.slots

theorem exists_vacant_iff {c : Chain} {i : Nat} :
    (∃ slot, c.slots[i]? = some slot ∧ slot.node = none) ↔
      (c.slots.map (·.node.isSome))[i]? = some false := by
  simp

/-- The second chain uses the same slots under the same handles. -/
structure SameStorage (c d : Chain) : Prop where
  generations : d.slots.map (·.generation) = c.slots.map (·.generation)
  occupancy : d.slots.map (·.node.isSome) = c.slots.map (·.node.isSome)
  free_eq : d.free = c.free
  live_eq : d.live = c.live

namespace SameStorage

variable {c d e : Chain}

theorem refl (c : Chain) : SameStorage c c := ⟨rfl, rfl, rfl, rfl⟩

theorem trans (first : SameStorage c d) (second : SameStorage d e) : SameStorage c e where
  generations := second.generations.trans first.generations
  occupancy := second.occupancy.trans first.occupancy
  free_eq := second.free_eq.trans first.free_eq
  live_eq := second.live_eq.trans first.live_eq

theorem size_eq (same : SameStorage c d) : d.slots.size = c.slots.size := by
  simpa using congrArg Array.size same.generations

theorem contains_eq (same : SameStorage c d) (h : Handle) : d.contains h = c.contains h := by
  have generation := congrArg (·[h.index]?) same.generations
  have occupancy := congrArg (·[h.index]?) same.occupancy
  simp only [Array.getElem?_map] at generation occupancy
  unfold contains node?
  cases hd : d.slots[h.index]? <;> cases hc : c.slots[h.index]? <;>
    simp only [hd, hc, Option.map_none, Option.map_some, reduceCtorEq, Option.some.injEq]
      at generation occupancy ⊢
  rw [generation]
  split
  · exact occupancy
  · rfl

theorem occupied_eq (same : SameStorage c d) : d.occupied = c.occupied := by
  have count (c : Chain) : c.occupied = (c.slots.map (·.node.isSome)).countP id := by
    rw [occupied, Array.countP_map]
    rfl
  rw [count, count, same.occupancy]

theorem stored (same : SameStorage c d) (stored : c.Stored) : d.Stored where
  free_nodup := same.free_eq ▸ stored.free_nodup
  mem_free_iff i := by
    rw [same.free_eq, stored.mem_free_iff, exists_vacant_iff, exists_vacant_iff, same.occupancy]
  live_eq := by rw [same.live_eq, same.occupied_eq, stored.live_eq]
  size_le := by rw [same.size_eq]; exact stored.size_le

end SameStorage

/-! ### The storage operations -/

theorem sameStorage_setNode {c : Chain} {h : Handle} (live : c.contains h = true) (n : Node) :
    SameStorage c (c.setNode h n) := by
  obtain ⟨m, hm⟩ := contains_iff.1 live
  have slot := node?_eq_some_iff.1 hm
  refine ⟨?_, ?_, rfl, rfl⟩
  · refine Array.ext_getElem? fun i => ?_
    simp only [setNode, Array.getElem?_map, Array.getElem?_setIfInBounds]
    grind
  · refine Array.ext_getElem? fun i => ?_
    simp only [setNode, Array.getElem?_map, Array.getElem?_setIfInBounds]
    grind

/-! ### Counting -/

/-- The indices of the slots that satisfy a test. -/
def slotsWith (c : Chain) (test : Slot → Bool) : List Nat :=
  (List.range c.slots.size).filter fun i => c.slots[i]?.any test

theorem countP_range_getElem? {α : Type} (p : α → Bool) (l : List α) :
    (List.range l.length).countP (fun i => l[i]?.any p) = l.countP p := by
  induction l with
  | nil => rfl
  | cons a l ih =>
      rw [List.length_cons, List.range_succ_eq_map, List.countP_cons, List.countP_map,
        List.countP_cons, ← ih]
      simp [Function.comp_def]

theorem length_slotsWith (c : Chain) (test : Slot → Bool) :
    (c.slotsWith test).length = c.slots.countP test := by
  rw [slotsWith, ← List.countP_eq_length_filter, ← Array.countP_toList,
    ← countP_range_getElem? test c.slots.toList]
  simp

theorem nodup_slotsWith (c : Chain) (test : Slot → Bool) : (c.slotsWith test).Nodup :=
  List.nodup_range.filter _

theorem mem_slotsWith {c : Chain} {test : Slot → Bool} {i : Nat} :
    i ∈ c.slotsWith test ↔ ∃ slot, c.slots[i]? = some slot ∧ test slot = true := by
  rw [slotsWith, List.mem_filter, List.mem_range, Option.any_eq_true]
  constructor
  · exact fun h => h.2
  · rintro ⟨slot, found, holds⟩
    exact ⟨(Array.getElem?_eq_some_iff.1 found).1, slot, found, holds⟩

/-- Every slot is free or holds a token. -/
theorem Stored.length_free_add_live {c : Chain} (stored : c.Stored) :
    c.free.length + c.live = c.slots.size := by
  have perm : c.free.Perm (c.slotsWith fun slot => !slot.node.isSome) := by
    refine (List.perm_ext_iff_of_nodup stored.free_nodup (nodup_slotsWith _ _)).2 fun i => ?_
    rw [stored.mem_free_iff, mem_slotsWith]
    simp
  rw [perm.length_eq, length_slotsWith, stored.live_eq, occupied]
  have parts := c.slots.size_eq_countP_add_countP (p := fun slot => slot.node.isSome)
  simp only [Bool.not_eq_true, Bool.decide_eq_false] at parts
  omega

/-- Live handles differ by their slots. -/
theorem eq_of_index_eq {c : Chain} {h k : Handle} (liveH : c.contains h = true)
    (liveK : c.contains k = true) (same : h.index = k.index) : h = k := by
  obtain ⟨n, hn⟩ := contains_iff.1 liveH
  obtain ⟨m, hm⟩ := contains_iff.1 liveK
  by_contra differs
  rw [node?_eq_none_of_index_eq (node?_eq_some_iff.1 hm) rfl same differs] at hn
  cases hn

theorem index_mem_slotsWith {c : Chain} {h : Handle} (live : c.contains h = true) :
    h.index ∈ c.slotsWith fun slot => slot.node.isSome := by
  obtain ⟨n, hn⟩ := contains_iff.1 live
  exact mem_slotsWith.2 ⟨_, node?_eq_some_iff.1 hn, rfl⟩

section
variable {c : Chain} {order : List Handle}

theorem subperm_slots (nodup : order.Nodup) (live : ∀ h ∈ order, c.contains h = true) :
    (order.map (·.index)).Subperm (c.slotsWith fun slot => slot.node.isSome) := by
  refine List.Nodup.subperm ?_ ?_
  · exact nodup.map_on fun h memH k memK same => eq_of_index_eq (live h memH) (live k memK) same
  · intro i mem
    obtain ⟨h, memH, rfl⟩ := List.mem_map.1 mem
    exact index_mem_slotsWith (live h memH)

/-- There are no more live handles than slots in use. -/
theorem length_le_occupied (nodup : order.Nodup) (live : ∀ h ∈ order, c.contains h = true) :
    order.length ≤ c.occupied := by
  have short := (subperm_slots nodup live).length_le
  rwa [List.length_map, length_slotsWith] at short

/-- As many live handles as slots are in use are all of them. -/
theorem mem_of_occupied_le (nodup : order.Nodup) (live : ∀ h ∈ order, c.contains h = true)
    (all : c.occupied ≤ order.length) {h : Handle} (here : c.contains h = true) : h ∈ order := by
  have perm := (subperm_slots nodup live).perm_of_length_le (by
    rwa [List.length_map, length_slotsWith])
  obtain ⟨k, memK, same⟩ := List.mem_map.1 (perm.mem_iff.2 (index_mem_slotsWith here))
  rwa [← eq_of_index_eq (live k memK) here same]

/-- An enumeration of the live handles has one for every slot in use. -/
theorem length_eq_occupied (nodup : order.Nodup)
    (mem_iff : ∀ h, h ∈ order ↔ c.contains h = true) : order.length = c.occupied := by
  refine Nat.le_antisymm (length_le_occupied nodup fun h => (mem_iff h).1) ?_
  have images : (order.map (·.index)).length = order.length := List.length_map _
  rw [occupied, ← length_slotsWith, ← images]
  refine ((nodup_slotsWith c _).subperm ?_).length_le
  intro i mem
  obtain ⟨slot, found, used⟩ := mem_slotsWith.1 mem
  obtain ⟨n, hn⟩ := Option.isSome_iff_exists.1 used
  have live : c.contains ⟨i, slot.generation⟩ = true :=
    contains_iff.2 ⟨n, node?_eq_some_iff.2 (by rw [found, ← hn])⟩
  exact List.mem_map.2 ⟨_, (mem_iff _).2 live, rfl⟩

end

/-! ### Allocating and freeing -/

theorem index_not_mem_free {c : Chain} (stored : c.Stored) {h : Handle}
    (live : c.contains h = true) : h.index ∉ c.free := by
  intro mem
  obtain ⟨n, hn⟩ := contains_iff.1 live
  obtain ⟨slot, found, vacant⟩ := (stored.mem_free_iff h.index).1 mem
  rw [node?_eq_some_iff.1 hn, Option.some_inj] at found
  subst found
  cases vacant

/-- There is room for a token as long as not all slots there may be are in use. The handle it gets
was not live before. -/
theorem allocate_ok {c : Chain} (stored : c.Stored) (room : c.live < Limits.slots)
    (token : Token) :
    ∃ d h, c.allocate token = .ok (d, h) ∧ d.Stored ∧ c.node? h = none ∧ d.live = c.live + 1 ∧
      d.front = c.front ∧ d.back = c.back := by
  obtain ⟨free_nodup, mem_free_iff, live_eq, size_le⟩ := stored
  unfold allocate
  cases hfree : c.free with
  | nil =>
      have size := Stored.length_free_add_live ⟨free_nodup, mem_free_iff, live_eq, size_le⟩
      rw [hfree, List.length_nil, Nat.zero_add] at size
      rw [hfree] at free_nodup mem_free_iff
      rw [if_pos (size ▸ room)]
      refine ⟨_, _, rfl, ⟨?_, ?_, ?_, ?_⟩, ?_, rfl, rfl, rfl⟩
      · simp
      · intro i
        simp only [mem_free_iff, Array.getElem?_push]
        split
        next last => simp [last]
        next inner => rfl
      · simp [occupied, live_eq]
      · simp only [Array.size_push]
        omega
      · simp [node?]
  | cons i free =>
      rw [hfree] at free_nodup mem_free_iff
      obtain ⟨slot, found, vacant⟩ := (mem_free_iff i).1 List.mem_cons_self
      obtain ⟨bound, here⟩ := Array.getElem?_eq_some_iff.1 found
      obtain ⟨absent, nodup⟩ := List.nodup_cons.1 free_nodup
      simp only [dif_pos bound]
      refine ⟨_, _, rfl, ⟨nodup, ?_, ?_, ?_⟩, ?_, rfl, rfl, rfl⟩
      · intro j
        by_cases same : j = i
        · subst same
          simp [bound, absent]
        · have other : j ∈ free ↔ j ∈ i :: free := by simp [same]
          rw [other, mem_free_iff, Array.getElem?_set_ne _ (Ne.symm same)]
      · simp [occupied, Array.countP_set, here, vacant, live_eq]
      · simpa using size_le
      · simp [node?, bound, here, vacant]

/-- With every slot in use that there may be, no token can be stored. -/
theorem allocate_full {c : Chain} (stored : c.Stored) (full : Limits.slots ≤ c.live)
    (token : Token) : c.allocate token = .error .exhausted := by
  have size := stored.length_free_add_live
  have size_le := stored.size_le
  have none_free : c.free = [] := List.eq_nil_of_length_eq_zero (by omega)
  have no_room : ¬ c.slots.size < Limits.slots := by omega
  simp only [allocate, none_free, if_neg no_room]

theorem stored_release {c : Chain} (stored : c.Stored) {h : Handle} (live : c.contains h = true) :
    (c.release h).Stored := by
  obtain ⟨n, hn⟩ := contains_iff.1 live
  have found := node?_eq_some_iff.1 hn
  obtain ⟨bound, here⟩ := Array.getElem?_eq_some_iff.1 found
  refine ⟨?_, ?_, ?_, ?_⟩
  · exact List.nodup_cons.2 ⟨index_not_mem_free stored live, stored.free_nodup⟩
  · intro i
    simp only [release, List.mem_cons, stored.mem_free_iff, Array.getElem?_setIfInBounds]
    by_cases same : h.index = i
    · subst same
      simp [bound]
    · simp [same, Ne.symm same]
  · have some_used : 0 < c.occupied := Array.countP_pos_iff.2 ⟨_, Array.mem_of_getElem? found, rfl⟩
    rw [live_release, stored.live_eq]
    simp only [occupied, release, Array.setIfInBounds, dif_pos bound] at some_used ⊢
    simp [Array.countP_set, here]
  · rw [size_slots_release]
    exact stored.size_le

theorem contains_release {c : Chain} {h : Handle} (live : c.contains h = true) (k : Handle) :
    (c.release h).contains k = true ↔ k ≠ h ∧ c.contains k = true := by
  by_cases same : k = h
  · subst same
    simp [contains, node?_release_self]
  · simp [contains, node?_release_of_ne live same, same]

end TokenStream.Chain
