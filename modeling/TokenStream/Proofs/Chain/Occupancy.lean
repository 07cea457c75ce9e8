import TokenStream.Proofs.Chain.Lifetime
/-!
The slots that a run of edits uses. A token goes only where no other one is, a slot is freed only
while it holds a token, and a new slot is made only when none is free, so a chain has as many slots
as it ever had tokens at one time.
-/
namespace TokenStream

/-- The chains that a run of edits has led to, the last one first. -/
inductive Trace : List Chain → Prop
  | start : Trace [.empty]
  | edit {c : Chain} {past : List Chain} {e : Edit} {r : Applied} :
      Trace (c :: past) → c.apply e = .ok r → Trace (r.chain :: c :: past)

namespace Chain

variable {α : Type} {f : Handle → Node → α} {c d : Chain} {h x : Handle} {t : Token}
  {xs : List Handle} {e : Edit} {r : Applied}

/-- No token is in the slot of this index. There may be no such slot yet. -/
def Vacant (c : Chain) (i : Nat) : Prop :=
  ∀ slot, c.slots[i]? = some slot → slot.node = none

/-! ### A slot taken -/

/-- The slot is the one that was freed last, and a new one only where none is free. -/
theorem allocate_cases (allocated : c.allocate t = .ok (d, x)) :
    d.live = c.live + 1 ∧
      ((c.free = x.index :: d.free ∧ d.slots.size = c.slots.size) ∨
        (c.free = [] ∧ x.index = c.slots.size ∧ d.slots.size = c.slots.size + 1)) := by
  unfold allocate at allocated
  split at allocated
  next free =>
    split at allocated
    next bound =>
      cases allocated
      exact ⟨rfl, .inl ⟨free, Array.size_set bound⟩⟩
    next => cases allocated
  next free =>
    split at allocated
    · cases allocated
      exact ⟨rfl, .inr ⟨free, rfl, Array.size_push _⟩⟩
    · cases allocated

theorem vacant_of_allocate (stored : c.Stored) (allocated : c.allocate t = .ok (d, x)) :
    c.Vacant x.index := by
  intro slot found
  obtain ⟨-, ⟨free, -⟩ | ⟨-, last, -⟩⟩ := allocate_cases allocated
  · have mem : x.index ∈ c.free := free ▸ List.mem_cons_self
    obtain ⟨slot', found', vacant⟩ := (stored.mem_free_iff x.index).1 mem
    rw [found] at found'
    cases found'
    exact vacant
  · rw [last, Array.getElem?_eq_none (Nat.le_refl _)] at found
    cases found

theorem size_allocate (stored : c.Stored) (allocated : c.allocate t = .ok (d, x)) :
    d.slots.size = max d.live c.slots.size := by
  have parts := stored.length_free_add_live
  obtain ⟨live, ⟨free, size⟩ | ⟨free, -, size⟩⟩ := allocate_cases allocated
  · rw [free, List.length_cons] at parts
    omega
  · rw [free, List.length_nil] at parts
    omega

/-! ### Slots freed -/

theorem live_pos (stored : c.Stored) (live : c.contains h = true) : 0 < c.live := by
  rw [stored.live_eq]
  exact length_le_occupied (List.nodup_singleton h) (by simpa using live)

namespace Sheds

theorem stored (sheds : Sheds f c xs d) (stored : c.Stored) : d.Stored := by
  induction sheds with
  | stay keeps => exact keeps.storage.stored stored
  | release keeps live _ ih => exact ih (stored_release (keeps.storage.stored stored) live)

theorem size_eq (sheds : Sheds f c xs d) : d.slots.size = c.slots.size := by
  induction sheds with
  | stay keeps => exact keeps.storage.size_eq
  | release keeps _ _ ih => rw [ih, size_slots_release, keeps.storage.size_eq]

/-- No node is released twice: after the first time it is no longer live. -/
theorem nodup (sheds : Sheds f c xs d) : xs.Nodup := by
  induction sheds with
  | stay _ => exact .nil
  | release _ live rest ih =>
      refine List.nodup_cons.2 ⟨fun again => ?_, ih⟩
      exact ((contains_release live _).1 (rest.live_of_mem again)).1 rfl

theorem free_eq (sheds : Sheds f c xs d) :
    d.free = (xs.map (·.index)).reverse ++ c.free := by
  induction sheds with
  | stay keeps => exact keeps.storage.free_eq
  | release keeps _ _ ih =>
      rw [ih, free_release, keeps.storage.free_eq, List.map_cons, List.reverse_cons,
        List.append_assoc, List.singleton_append]

/-- The count goes down by one for each node, which it could not do from zero. -/
theorem live_add_length (sheds : Sheds f c xs d) (stored : c.Stored) :
    d.live + xs.length = c.live := by
  induction sheds with
  | stay keeps => exact keeps.storage.live_eq
  | release keeps live _ ih =>
      have before := keeps.storage.stored stored
      have left := ih (stored_release before live)
      have some_live := live_pos before live
      rw [live_release] at left
      rw [List.length_cons, ← keeps.storage.live_eq]
      omega

end Sheds

/-! ### One edit -/

theorem stored_apply (stored : c.Stored) (ok : c.apply e = .ok r) : r.chain.Stored := by
  cases apply_effect ok with
  | issues allocated keeps _ _ =>
      exact keeps.storage.stored (stored_allocate stored allocated).1
  | sheds sheds _ => exact sheds.stored stored

theorem size_apply (stored : c.Stored) (ok : c.apply e = .ok r) :
    r.chain.slots.size = max r.chain.live c.slots.size := by
  cases apply_effect ok with
  | issues allocated keeps _ _ =>
      rw [keeps.storage.size_eq, keeps.storage.live_eq]
      exact size_allocate stored allocated
  | sheds sheds _ =>
      have parts := stored.length_free_add_live
      have fewer := sheds.live_add_length stored
      rw [sheds.size_eq]
      omega

/-- The slots after an edit. A handle that was issued has a slot where no token was, and no token
is lost by it. Otherwise the slots of the removed nodes are freed, all of them in use until then and
none of them twice, and nothing else is. -/
structure Books (e : Edit) (c : Chain) (r : Applied) : Prop where
  vacant : ∀ x, r.issued = some x → c.Vacant x.index
  kept : ∀ x, r.issued = some x → ∀ h, c.contains h = true → r.chain.contains h = true
  counted : ∀ x, r.issued = some x → r.chain.live = c.live + 1
  live : ∀ h ∈ e.removed c, c.contains h = true
  once : (e.removed c).Nodup
  freed : r.issued = none → r.chain.free = ((e.removed c).map (·.index)).reverse ++ c.free
  discounted : r.issued = none → r.chain.live + (e.removed c).length = c.live

theorem books_apply (stored : c.Stored) (ok : c.apply e = .ok r) : Books e c r := by
  cases apply_effect ok with
  | @issues t d x allocated keeps issued none_removed =>
      have only {y : Handle} (other : r.issued = some y) : y = x :=
        Option.some.inj (other.symm.trans issued)
      have dead := (stored_allocate stored allocated).2
      refine ⟨?_, ?_, ?_, ?_, ?_, ?_, ?_⟩
      · intro y other
        exact only other ▸ vacant_of_allocate stored allocated
      · intro y _ h live
        have ne : h ≠ x := by
          rintro rfl
          rw [live] at dead
          cases dead
        rwa [keeps.storage.contains_eq, contains, node?_allocate_of_ne allocated ne]
      · intro y _
        rw [keeps.storage.live_eq, (allocate_cases allocated).1]
      · simp [none_removed]
      · simp [none_removed]
      · simp [issued]
      · simp [issued]
  | sheds sheds none_issued =>
      refine ⟨?_, ?_, ?_, fun h => sheds.live_of_mem, sheds.nodup, fun _ => sheds.free_eq,
        fun _ => sheds.live_add_length stored⟩
      all_goals simp [none_issued]

end Chain

/-! ### Whole runs -/

theorem Trace.stored {c : Chain} {past : List Chain} (trace : Trace (c :: past)) : c.Stored := by
  generalize all : c :: past = chains at trace
  induction trace generalizing c past with
  | start =>
      cases all
      exact Chain.valid_empty.stored
  | edit _ ok ih =>
      cases all
      exact Chain.stored_apply (ih rfl) ok

/-- Between two chains of a run there is nothing more to count: an edit takes one slot, or it only
frees some. -/
theorem Trace.peak {c : Chain} {past : List Chain} (trace : Trace (c :: past)) :
    ((c :: past).map (·.live)).max? = some c.slots.size := by
  generalize all : c :: past = chains at trace
  induction trace generalizing c past with
  | start =>
      cases all
      rfl
  | edit trace ok ih =>
      cases all
      rw [List.map_cons, List.max?_cons, ih rfl, Chain.size_apply trace.stored ok]
      rfl

namespace Chain

/-- In every chain that a run of edits leads to, the free list has the empty slots once each, the
other slots are as many as the chain says it has tokens, and all slots together are as many as it
had at most so far. The next edit, whichever it is, puts a token only into an empty slot and frees
only slots in use. -/
theorem occupancy_exact {c : Chain} {past : List Chain} (trace : Trace (c :: past)) :
    c.free.Nodup ∧
      (∀ i, i ∈ c.free ↔ ∃ slot, c.slots[i]? = some slot ∧ slot.node = none) ∧
      c.live = c.occupied ∧ c.live + c.free.length = c.slots.size ∧
      ((c :: past).map (·.live)).max? = some c.slots.size ∧
      ∀ e r, c.apply e = .ok r → Books e c r := by
  have stored := trace.stored
  refine ⟨stored.free_nodup, stored.mem_free_iff, stored.live_eq, ?_, trace.peak, ?_⟩
  · rw [Nat.add_comm]
    exact stored.length_free_add_live
  · exact fun e r ok => books_apply stored ok

-- Of three tokens two are removed, and a new one comes into the slot that was freed last.
theorem refilled_slot :
    ∃ c past, Trace (c :: past) ∧ c.live = 2 ∧ c.free = [1] ∧
      ((c :: past).map (·.live)).max? = some 3 ∧
      ∀ r, c.apply (.deleteThis ⟨0, 0⟩) = .ok r → r.chain.free = [2, 1] := by
  have t₁ : Trace _ := .edit (e := .push "a" 1 0) .start rfl
  have t₂ : Trace _ := .edit (e := .push "b" 1 0) t₁ rfl
  have t₃ : Trace _ := .edit (e := .push "c" 1 0) t₂ rfl
  have t₄ : Trace _ := .edit (e := .deleteNext ⟨0, 0⟩) t₃ rfl
  have t₅ : Trace _ := .edit (e := .deleteNext ⟨0, 0⟩) t₄ rfl
  have t₆ : Trace _ := .edit (e := .push "d" 1 0) t₅ rfl
  obtain ⟨-, -, -, -, peak, books⟩ := occupancy_exact t₆
  refine ⟨_, _, t₆, rfl, rfl, peak, fun r ok => ?_⟩
  have issued : r.issued = none := by
    cases ok
    rfl
  exact (books _ r ok).freed issued

end Chain

end TokenStream
