import TokenStream.Proofs.Chain.Outcome
/-!
How long a handle names its node. As long as no slot has gone through all its generations, no handle
is issued twice, and a handle finds a node from the edit that issues it to the edit that removes it,
and never again.
-/
namespace TokenStream

/-- The chains that edits lead to, with the handles that were issued on the way and the handles
whose nodes were removed. -/
inductive Run : Chain → List Handle → List Handle → Prop
  | start : Run .empty [] []
  | edit {c : Chain} {issued removed : List Handle} {e : Edit} {r : Applied} :
      Run c issued removed → c.apply e = .ok r →
      Run r.chain (issued ++ r.issued.toList) (removed ++ e.removed c)

namespace Edit

/-- What an edit may make of the token under a handle whose node it does not remove. Only an edit of
that very node may change it, except that nodes which move take a new progress value. -/
def Rewrites (h : Handle) (t u : Token) : Edit → Prop
  | .deleteThis k | .change k _ => k = h ∨ u = t
  | .moveRange _ _ _ => u = { t with progress := u.progress }
  | _ => u = t

theorem rewrites_of_kept {e : Edit} {h : Handle} {n m : Node} (same : e.kept h m = e.kept h n) :
    e.Rewrites h n.token m.token := by
  have plain (same : some m.token = some n.token) : m.token = n.token := Option.some.inj same
  have away {k : Handle}
      (same : (if h = k then none else some m.token) = if h = k then none else some n.token) :
      k = h ∨ m.token = n.token := by
    by_cases here : h = k
    · exact .inl here.symm
    · rw [if_neg here, if_neg here] at same
      exact .inr (plain same)
  cases e with
  | deleteThis k => exact away same
  | change k _ => exact away same
  | moveRange _ _ _ =>
      have settled := congrArg (fun t : Token => { t with progress := m.token.progress })
        (Option.some.inj same)
      exact settled
  | push _ _ _ => exact plain same
  | insertAfter _ _ => exact plain same
  | deleteNext _ => exact plain same
  | replace _ _ _ => exact plain same
  | eraseRange _ _ => exact plain same
  | linkPair _ _ => exact plain same
  | unlink _ => exact plain same

end Edit

namespace Chain

variable {α : Type} {f : Handle → Node → α} {c d : Chain} {h x : Handle}

/-! ### Generations -/

/-- The generation of the handles that a slot gives out. -/
def generationAt (c : Chain) (i : Nat) : UInt32 :=
  (c.slots[i]?.map (·.generation)).getD 0

theorem generationAt_of_live (live : c.contains h = true) :
    c.generationAt h.index = h.generation := by
  obtain ⟨n, found⟩ := contains_iff.1 live
  rw [generationAt, node?_eq_some_iff.1 found]
  rfl

theorem SameStorage.generationAt_eq (same : SameStorage c d) (i : Nat) :
    d.generationAt i = c.generationAt i := by
  have there := congrArg (·[i]?) same.generations
  simp only [Array.getElem?_map] at there
  rw [generationAt, generationAt, there]

theorem generationAt_release (live : c.contains h = true) (i : Nat) :
    (c.release h).generationAt i =
      if i = h.index then c.generationAt i + 1 else c.generationAt i := by
  obtain ⟨n, found⟩ := contains_iff.1 live
  obtain ⟨bound, -⟩ := Array.getElem?_eq_some_iff.1 (node?_eq_some_iff.1 found)
  split
  next here =>
    subst here
    rw [generationAt_of_live live, generationAt, release,
      Array.getElem?_setIfInBounds_self_of_lt bound]
    rfl
  next other =>
    rw [generationAt, generationAt, release, Array.getElem?_setIfInBounds_ne (Ne.symm other)]

theorem generationAt_allocate {t : Token} (allocated : c.allocate t = .ok (d, x)) (i : Nat) :
    d.generationAt i = c.generationAt i := by
  unfold allocate at allocated
  split at allocated
  · split at allocated
    next j _ _ bound =>
      cases allocated
      by_cases here : i = j
      · subst here
        simp [generationAt, bound]
      · simp only [generationAt]
        rw [Array.getElem?_set_ne _ (Ne.symm here)]
    · cases allocated
  · split at allocated
    · cases allocated
      by_cases here : i = c.slots.size
      · subst here
        simp [generationAt]
      · simp only [generationAt]
        rw [Array.getElem?_push, if_neg here]
    · cases allocated

/-- A handle is issued only where no live one is. -/
theorem stored_allocate (stored : c.Stored) {t : Token} (allocated : c.allocate t = .ok (d, x)) :
    d.Stored ∧ c.contains x = false := by
  have room : c.live < Limits.slots := by
    by_contra full
    rw [allocate_full stored (Nat.not_lt.1 full)] at allocated
    cases allocated
  obtain ⟨d', x', ok, storedD, new, -⟩ := allocate_ok stored room t
  rw [allocated] at ok
  cases ok
  exact ⟨storedD, by rw [contains, new]; rfl⟩

/-! ### The books of a run -/

/-- The books agree with the chain. A slot has moved on as often as a node in it was removed, so the
handles of removed nodes are all behind it. -/
structure Ledger (c : Chain) (issued removed : List Handle) : Prop where
  stored : c.Stored
  once : issued.Nodup
  live_iff : ∀ h, c.contains h = true ↔ h ∈ issued ∧ h ∉ removed
  generation : ∀ i, (c.generationAt i).toNat = (removed.map (·.index)).count i
  past : ∀ h ∈ removed, h.generation.toNat < (removed.map (·.index)).count h.index

namespace Ledger

variable {issued removed : List Handle}

theorem keep (ledger : Ledger c issued removed) (keeps : Keeps f c d) :
    Ledger d issued removed where
  stored := keeps.storage.stored ledger.stored
  once := ledger.once
  live_iff h := by rw [keeps.storage.contains_eq, ledger.live_iff]
  generation i := by rw [keeps.storage.generationAt_eq, ledger.generation]
  past := ledger.past

theorem issue (ledger : Ledger c issued removed) {t : Token}
    (allocated : c.allocate t = .ok (d, x)) : Ledger d (issued ++ [x]) removed := by
  obtain ⟨stored, dead⟩ := stored_allocate ledger.stored allocated
  have live : d.contains x = true := contains_iff.2 ⟨_, node?_allocate_self allocated⟩
  have newest : (c.generationAt x.index).toNat = x.generation.toNat := by
    rw [← generationAt_allocate allocated, generationAt_of_live live]
  have kept : x ∉ removed := by
    intro mem
    have behind := ledger.past x mem
    rw [← ledger.generation, newest] at behind
    exact Nat.lt_irrefl _ behind
  have fresh : x ∉ issued := by
    intro mem
    rw [(ledger.live_iff x).2 ⟨mem, kept⟩] at dead
    cases dead
  refine ⟨stored, by simpa using ledger.once.concat fresh, fun h => ?_, fun i => ?_,
    ledger.past⟩
  · by_cases here : h = x
    · subst here
      simp [live, kept]
    · have same : d.contains h = c.contains h := by
        rw [contains, contains, node?_allocate_of_ne allocated here]
      rw [same, ledger.live_iff, List.mem_append, List.mem_singleton, or_iff_left here]
  · rw [generationAt_allocate allocated, ledger.generation]

theorem release (ledger : Ledger c issued removed) (live : c.contains x = true)
    (few : removed.length + 1 < UInt32.size) :
    Ledger (c.release x) issued (removed ++ [x]) := by
  have counted (i : Nat) : ((removed ++ [x]).map (·.index)).count i =
      (removed.map (·.index)).count i + if i = x.index then 1 else 0 := by
    rw [List.map_append, List.count_append, List.map_singleton, List.count_singleton]
    by_cases same : i = x.index
    · simp [same]
    · simp [same, Ne.symm same]
  have newest : x.generation.toNat = (removed.map (·.index)).count x.index := by
    rw [← ledger.generation, generationAt_of_live live]
  refine ⟨stored_release ledger.stored live, ledger.once, fun h => ?_, fun i => ?_, fun h mem => ?_⟩
  · rw [contains_release live, ledger.live_iff, List.mem_append, List.mem_singleton, not_or]
    tauto
  · rw [generationAt_release live, counted, ← ledger.generation]
    split
    next here =>
      -- the generation does not wrap round, because nodes were not removed often enough for that
      have short : (removed.map (·.index)).count i ≤ removed.length := by
        simpa using List.count_le_length (a := i) (l := removed.map (·.index))
      rw [← ledger.generation] at short
      rw [UInt32.toNat_add, UInt32.toNat_one]
      exact Nat.mod_eq_of_lt (Nat.lt_of_le_of_lt (Nat.add_le_add_right short 1) few)
    next => rfl
  · rw [counted]
    rcases List.mem_append.1 mem with mem | here
    · exact Nat.lt_of_lt_of_le (ledger.past h mem) (Nat.le_add_right _ _)
    · rw [List.mem_singleton] at here
      subst here
      rw [if_pos rfl, newest]
      exact Nat.lt_succ_self _

theorem shed (ledger : Ledger c issued removed) {xs : List Handle} (sheds : Sheds f c xs d)
    (few : (removed ++ xs).length < UInt32.size) : Ledger d issued (removed ++ xs) := by
  induction sheds generalizing removed with
  | stay keeps =>
      rw [List.append_nil]
      exact ledger.keep keeps
  | release keeps live _ ih =>
      rw [List.append_cons] at few ⊢
      refine ih ((ledger.keep keeps).release live ?_) few
      rw [List.length_append, List.length_append, List.length_singleton] at few
      omega

end Ledger

end Chain

theorem Run.ledger {c : Chain} {issued removed : List Handle} (run : Run c issued removed)
    (few : removed.length < UInt32.size) : c.Ledger issued removed := by
  induction run with
  | start =>
      exact ⟨Chain.valid_empty.stored, .nil, by simp [Chain.contains, Chain.node?, Chain.empty],
        fun _ => rfl, fun _ mem => nomatch mem⟩
  | edit run ok ih =>
      have before := ih (Nat.lt_of_le_of_lt (by simp) few)
      cases Chain.apply_effect ok with
      | issues allocated keeps issued none_removed =>
          rw [issued, none_removed, List.append_nil]
          exact (before.issue allocated).keep keeps
      | sheds sheds none_issued =>
          rw [none_issued, Option.toList_none, List.append_nil]
          exact before.shed sheds few

namespace Chain

/-- In a run that removes fewer nodes than a slot has generations, every handle is issued once. It
is live from then on until its node is removed, and stale ever after; live handles have slots of
their own. What a live handle shows changes only by an edit of that very node, progress apart. -/
theorem handles_never_alias {c : Chain} {issued removed : List Handle} (run : Run c issued removed)
    (few : removed.length < UInt32.size) :
    issued.Nodup ∧
      (∀ h, c.contains h = true ↔ h ∈ issued ∧ h ∉ removed) ∧
      (∀ h ∈ removed, c.contains h = false ∧ c.token? h = none) ∧
      (∀ h k, c.contains h = true → c.contains k = true → h.index = k.index → h = k) ∧
      ∀ e r, c.apply e = .ok r → ∀ h t, c.token? h = some t → h ∉ e.removed c →
        ∃ u, r.chain.token? h = some u ∧ e.Rewrites h t u := by
  have ledger := run.ledger few
  refine ⟨ledger.once, ledger.live_iff, ?_, fun h k => eq_of_index_eq, ?_⟩
  · intro h mem
    have dead : c.contains h = false :=
      Bool.eq_false_iff.2 fun live => ((ledger.live_iff h).1 live).2 mem
    refine ⟨dead, ?_⟩
    rw [token?, Option.map_eq_none_iff]
    exact Option.isNone_iff_eq_none.1 (by simpa [contains] using dead)
  · intro e r ok h t shown stays
    obtain ⟨n, found, rfl⟩ := exists_node_of_token shown
    have same : (r.chain.node? h).map (e.kept h) = (c.node? h).map (e.kept h) := by
      cases apply_effect ok with
      | @issues _ d x allocated keeps _ _ =>
          have other : h ≠ x := by
            rintro rfl
            have dead := (stored_allocate ledger.stored allocated).2
            rw [contains, found] at dead
            cases dead
          rw [keeps.same, node?_allocate_of_ne allocated other]
      | sheds sheds _ => exact sheds.same stays
    rw [found, Option.map_some] at same
    obtain ⟨m, foundR, kept⟩ := Option.map_eq_some_iff.1 same
    exact ⟨m.token, (view_of_node? foundR).2.2.2, Edit.rewrites_of_kept kept⟩

-- The second node's slot is used again, under a handle that is not the old one.
theorem reissued_slot :
    ∃ c, Run c [⟨0, 0⟩, ⟨1, 0⟩, ⟨1, 1⟩] [⟨1, 0⟩] ∧ c.contains ⟨1, 1⟩ = true ∧
      c.token? ⟨1, 0⟩ = none := by
  have run₁ : Run _ _ _ := .edit (e := .push "a" 1 0) .start rfl
  have run₂ : Run _ _ _ := .edit (e := .push "b" 1 0) run₁ rfl
  have run₃ : Run _ _ _ := .edit (e := .deleteNext ⟨0, 0⟩) run₂ rfl
  have run₄ : Run _ [⟨0, 0⟩, ⟨1, 0⟩, ⟨1, 1⟩] [⟨1, 0⟩] :=
    .edit (e := .insertAfter ⟨0, 0⟩ "c") run₃ rfl
  obtain ⟨-, live_iff, gone, -⟩ := handles_never_alias run₄ (by decide)
  exact ⟨_, run₄, (live_iff _).2 (by decide), (gone _ (by decide)).2⟩

end Chain

end TokenStream
