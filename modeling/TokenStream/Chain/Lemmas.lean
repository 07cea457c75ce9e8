import TokenStream.Chain.Basic

/-!
What the storage operations do to look-ups. `node?` is the view of a chain: storing, freeing and
allocating change it at one handle only, and everything else about a chain is said through it.
-/
namespace TokenStream.Chain

theorem contains_iff {c : Chain} {h : Handle} :
    c.contains h = true ↔ ∃ n, c.node? h = some n := by
  rw [contains, Option.isSome_iff_exists]

theorem node_eq_ok_iff {c : Chain} {h : Handle} {n : Node} :
    c.node h = .ok n ↔ c.node? h = some n := by
  unfold node
  cases c.node? h <;> simp

theorem node_eq_error_iff {c : Chain} {h : Handle} {f : Fault} :
    c.node h = .error f ↔ c.node? h = none ∧ f = .stale h := by
  unfold node
  cases c.node? h <;> simp [eq_comm]

theorem node?_eq_some_iff {c : Chain} {h : Handle} {n : Node} :
    c.node? h = some n
      ↔ c.slots[h.index]? = some { generation := h.generation, node := some n } := by
  unfold node?
  cases hs : c.slots[h.index]? with
  | none => simp
  | some slot =>
    obtain ⟨generation, node⟩ := slot
    simp

/-- Of two handles to one slot at most one is live. -/
theorem node?_eq_none_of_index_eq {c : Chain} {h k : Handle} {slot : Slot}
    (at_h : c.slots[h.index]? = some slot) (generation : slot.generation = h.generation)
    (index : k.index = h.index) (ne : k ≠ h) : c.node? k = none := by
  have differs : ¬ slot.generation = k.generation := fun same =>
    ne (Handle.ext index (same.symm.trans generation))
  simp only [node?, index, at_h, if_neg differs]

/-! ### Storing -/

@[simp] theorem front_setNode (c : Chain) (h : Handle) (n : Node) :
    (c.setNode h n).front = c.front := rfl

@[simp] theorem back_setNode (c : Chain) (h : Handle) (n : Node) :
    (c.setNode h n).back = c.back := rfl

@[simp] theorem live_setNode (c : Chain) (h : Handle) (n : Node) :
    (c.setNode h n).live = c.live := rfl

@[simp] theorem free_setNode (c : Chain) (h : Handle) (n : Node) :
    (c.setNode h n).free = c.free := rfl

@[simp] theorem size_slots_setNode (c : Chain) (h : Handle) (n : Node) :
    (c.setNode h n).slots.size = c.slots.size := by
  simp [setNode]

theorem node?_setNode_self {c : Chain} {h : Handle} (live : c.contains h = true) (n : Node) :
    (c.setNode h n).node? h = some n := by
  obtain ⟨m, hm⟩ := contains_iff.1 live
  obtain ⟨bound, _⟩ := Array.getElem?_eq_some_iff.1 (node?_eq_some_iff.1 hm)
  rw [node?_eq_some_iff, setNode, Array.getElem?_setIfInBounds_self_of_lt bound]

theorem node?_setNode_of_ne {c : Chain} {h k : Handle} (live : c.contains h = true) (ne : k ≠ h)
    (n : Node) : (c.setNode h n).node? k = c.node? k := by
  obtain ⟨m, hm⟩ := contains_iff.1 live
  by_cases index : k.index = h.index
  · rw [node?_eq_none_of_index_eq (node?_eq_some_iff.1 hm) rfl index ne]
    exact node?_eq_none_of_index_eq
      (node?_eq_some_iff.1 (node?_setNode_self live n)) rfl index ne
  · simp only [node?, setNode]
    rw [Array.getElem?_setIfInBounds_ne (Ne.symm index)]

/-! ### Freeing -/

@[simp] theorem front_release (c : Chain) (h : Handle) : (c.release h).front = c.front := rfl

@[simp] theorem back_release (c : Chain) (h : Handle) : (c.release h).back = c.back := rfl

@[simp] theorem live_release (c : Chain) (h : Handle) : (c.release h).live = c.live - 1 := rfl

@[simp] theorem free_release (c : Chain) (h : Handle) :
    (c.release h).free = h.index :: c.free := rfl

@[simp] theorem size_slots_release (c : Chain) (h : Handle) :
    (c.release h).slots.size = c.slots.size := by
  simp [release]

/-- A freed handle is stale. -/
theorem node?_release_self (c : Chain) (h : Handle) : (c.release h).node? h = none := by
  cases found : (c.release h).node? h with
  | none => rfl
  | some n =>
    have at_h := node?_eq_some_iff.1 found
    rw [release, Array.getElem?_setIfInBounds] at at_h
    split at at_h
    · split at at_h <;> simp at at_h
    next differs => exact absurd rfl differs

theorem node?_release_of_ne {c : Chain} {h k : Handle} (live : c.contains h = true) (ne : k ≠ h) :
    (c.release h).node? k = c.node? k := by
  obtain ⟨m, hm⟩ := contains_iff.1 live
  by_cases index : k.index = h.index
  · rw [node?_eq_none_of_index_eq (node?_eq_some_iff.1 hm) rfl index ne]
    obtain ⟨bound, _⟩ := Array.getElem?_eq_some_iff.1 (node?_eq_some_iff.1 hm)
    simp only [node?, release, index, Array.getElem?_setIfInBounds_self_of_lt bound, ite_self]
  · simp only [node?, release]
    rw [Array.getElem?_setIfInBounds_ne (Ne.symm index)]

/-! ### Allocating -/

/-- The new handle finds the token in a node by itself. -/
theorem node?_allocate_self {c c' : Chain} {token : Token} {h : Handle}
    (allocated : c.allocate token = .ok (c', h)) :
    c'.node? h = some (.ofToken token) := by
  unfold allocate at allocated
  split at allocated
  · split at allocated
    next bound =>
      cases allocated
      rw [node?_eq_some_iff]
      simp [bound]
    · cases allocated
  · split at allocated
    · cases allocated
      rw [node?_eq_some_iff]
      simp
    · cases allocated

/-- All other handles find what they found before. -/
theorem node?_allocate_of_ne {c c' : Chain} {token : Token} {h k : Handle}
    (allocated : c.allocate token = .ok (c', h)) (ne : k ≠ h) : c'.node? k = c.node? k := by
  have here := node?_eq_some_iff.1 (node?_allocate_self allocated)
  unfold allocate at allocated
  split at allocated
  · split at allocated
    next i _ _ bound =>
      cases allocated
      by_cases index : k.index = i
      · rw [node?_eq_none_of_index_eq here rfl index ne]
        exact (node?_eq_none_of_index_eq (h := ⟨i, c.slots[i].generation⟩)
          (Array.getElem?_eq_getElem bound) rfl index ne).symm
      · simp only [node?]
        rw [Array.getElem?_set_ne _ (Ne.symm index)]
    · cases allocated
  · split at allocated
    · cases allocated
      simp only [node?]
      by_cases index : k.index = c.slots.size
      · rw [index, Array.getElem?_push_size, Array.getElem?_eq_none (Nat.le_refl _)]
        have differs : ¬ (0 : UInt32) = k.generation := fun same =>
          ne (Handle.ext index same.symm)
        simp [differs]
      · rw [Array.getElem?_push, if_neg index]
    · cases allocated

end TokenStream.Chain
