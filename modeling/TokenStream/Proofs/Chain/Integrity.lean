import Mathlib.Data.List.TakeWhile
import TokenStream.Chain.Integrity
import TokenStream.Proofs.Chain.Effect
/-!
The check of a chain finds nothing exactly if its nodes can be enumerated: each live node once, from
the front to the back, `prev` the inverse of `next`, and every link between two nodes that both
know of it. The chain may be in any state whatsoever, with handles that are stale, crossed or go
round in circles; only its count of tokens has to be right.
-/
namespace TokenStream.Chain

variable {c : Chain}

/-! ### One node -/

theorem checkLive_eq_ok_iff {h : Handle} {n : Node} :
    c.checkLive h = .ok n ↔ c.node? h = some n := by
  unfold checkLive
  cases c.node? h <;> simp

theorem checkNext_eq_ok_iff {h : Handle} {n : Node} :
    c.checkNext h n = .ok () ↔
      ∀ a, n.next = some a → c.contains a = true ∧ c.view.prev (some a) = some h := by
  unfold checkNext checkLive
  cases n.next with
  | none => simp [pure, Except.pure]
  | some a =>
      cases found : c.node? a with
      | none => simp [bind, Except.bind, contains, found]
      | some m =>
          by_cases back : m.prev = some h <;>
            simp [bind, Except.bind, pure, Except.pure, throw, throwThe, MonadExceptOf.throw,
              contains, view, found, back]

theorem checkLink_eq_ok_iff {h : Handle} {n : Node} :
    c.checkLink h n = .ok () ↔
      ∀ k, n.link = some k → k ≠ h ∧ c.contains k = true ∧ c.view.partner k = some h := by
  unfold checkLink checkLive
  cases n.link with
  | none => simp [pure, Except.pure]
  | some k =>
      by_cases self : k = h
      · simp [bind, Except.bind, throw, throwThe, MonadExceptOf.throw, self]
      · cases found : c.node? k with
        | none => simp [bind, Except.bind, contains, found, self]
        | some m =>
            by_cases back : m.link = some h <;>
              simp [bind, Except.bind, pure, Except.pure, throw, throwThe, MonadExceptOf.throw,
                contains, view, found, back, self]

/-- All that is checked about one node. -/
def checkNode (c : Chain) (h : Handle) : Except Violation Node := do
  let n ← c.checkLive h
  c.checkNext h n
  c.checkLink h n
  return n

/-- A node passes if its successor points back to it and its partner, another node, links back. -/
structure Passes (c : Chain) (h : Handle) : Prop where
  live : c.contains h = true
  next : ∀ a, c.view.next (some h) = some a →
    c.contains a = true ∧ c.view.prev (some a) = some h
  link : ∀ k, c.view.partner h = some k →
    k ≠ h ∧ c.contains k = true ∧ c.view.partner k = some h

theorem checkNode_eq_ok_iff {h : Handle} {n : Node} :
    c.checkNode h = .ok n ↔ c.node? h = some n ∧ c.Passes h := by
  unfold checkNode
  constructor
  · intro ok
    cases live : c.checkLive h with
    | error v => rw [live] at ok; cases ok
    | ok m =>
        cases next : c.checkNext h m with
        | error v => simp only [live, next, ok_bind, error_bind] at ok; cases ok
        | ok _ =>
            cases link : c.checkLink h m with
            | error v => simp only [live, next, link, ok_bind, error_bind] at ok; cases ok
            | ok _ =>
                simp only [live, next, link, ok_bind] at ok
                cases ok
                have found := checkLive_eq_ok_iff.1 live
                obtain ⟨viewNext, -, viewLink, -⟩ := view_of_node? found
                refine ⟨found, contains_iff.2 ⟨n, found⟩, ?_, ?_⟩
                · rw [viewNext]; exact checkNext_eq_ok_iff.1 next
                · rw [viewLink]; exact checkLink_eq_ok_iff.1 link
  · rintro ⟨found, passes⟩
    obtain ⟨viewNext, -, viewLink, -⟩ := view_of_node? found
    have next : c.checkNext h n = .ok () := checkNext_eq_ok_iff.2 (viewNext ▸ passes.next)
    have link : c.checkLink h n = .ok () := checkLink_eq_ok_iff.2 (viewLink ▸ passes.link)
    simp only [checkLive_eq_ok_iff.2 found, next, link, ok_bind]
    rfl

/-! ### The walk -/

theorem checkFrom_succ (budget : Nat) (last h : Handle) :
    c.checkFrom (budget + 1) last (some h) =
      c.checkNode h >>= fun n => c.checkFrom budget h n.next := by
  rw [checkFrom, checkNode]
  cases c.checkLive h with
  | error v => rfl
  | ok n =>
      simp only [ok_bind]
      cases c.checkNext h n with
      | error v => rfl
      | ok _ => cases c.checkLink h n <;> rfl

/-- The walk as a loop that counts up and has no bound of its own. It ends where no node follows,
at the first violation, or when it has counted as many nodes as are live and meets one more. -/
inductive Counts (c : Chain) :
    Nat → Handle → Option Handle → Except Violation (Handle × Nat) → Prop
  | finish (visited : Nat) (last : Handle) : Counts c visited last none (.ok (last, visited))
  | excess {visited : Nat} (last : Handle) {h : Handle} :
      c.live ≤ visited → Counts c visited last (some h) (.error (.brokenChain h))
  | refuse {visited : Nat} (last : Handle) {h : Handle} {v : Violation} :
      visited < c.live → c.checkNode h = .error v → Counts c visited last (some h) (.error v)
  | visit {visited : Nat} (last : Handle) {h : Handle} {n : Node}
      {r : Except Violation (Handle × Nat)} :
      visited < c.live → c.checkNode h = .ok n → Counts c (visited + 1) h n.next r →
      Counts c visited last (some h) r

/-- The verdict on a chain that has a front, from what the loop came to. -/
def verdict (c : Chain) (front : Handle) (r : Except Violation (Handle × Nat)) :
    Except Violation Unit := do
  let n ← c.checkLive front
  if n.prev.isSome then throw .headMismatch
  let (last, visited) ← r
  if c.back ≠ some last then throw .tailMismatch
  if visited ≠ c.live then throw (.unreachable (c.live - visited))

/-- What is left of the budget, as a count of the nodes visited. -/
def counted (c : Chain) (r : Except Violation (Handle × Nat)) :
    Except Violation (Handle × Nat) :=
  r.map fun (last, left) => (last, c.live - left)

theorem counts_checkFrom {visited budget : Nat} (sum : visited + budget = c.live) (last : Handle)
    (current : Option Handle) :
    c.Counts visited last current (c.counted (c.checkFrom budget last current)) := by
  induction budget generalizing visited last current with
  | zero =>
      cases current with
      | none =>
          have all : visited = c.live := by omega
          subst all
          exact .finish _ last
      | some h => exact .excess last (by omega)
  | succ budget ih =>
      cases current with
      | none =>
          have left : visited = c.live - (budget + 1) := by omega
          subst left
          exact .finish _ last
      | some h =>
          rw [checkFrom_succ]
          cases node : c.checkNode h with
          | error v => exact .refuse last (by omega) node
          | ok n => exact .visit last (by omega) node (ih (by omega) h n.next)

theorem Counts.unique {visited : Nat} {last : Handle} {current : Option Handle}
    {r s : Except Violation (Handle × Nat)} (first : c.Counts visited last current r)
    (second : c.Counts visited last current s) : r = s := by
  induction first with
  | finish visited last =>
      cases second
      rfl
  | excess last full =>
      cases second with
      | excess _ _ => rfl
      | refuse _ room _ => omega
      | visit _ room _ _ => omega
  | refuse last room node =>
      cases second with
      | excess _ full => omega
      | refuse _ _ node' =>
          rw [node] at node'
          cases node'
          rfl
      | visit _ _ node' _ =>
          rw [node] at node'
          cases node'
  | visit last room node rest ih =>
      cases second with
      | excess _ full => omega
      | refuse _ _ node' =>
          rw [node] at node'
          cases node'
      | visit _ _ node' rest' =>
          rw [node] at node'
          cases node'
          exact ih rest'

theorem Counts.visited_le {visited : Nat} {last : Handle} {current : Option Handle}
    {r : Except Violation (Handle × Nat)} (counts : c.Counts visited last current r)
    (start : visited ≤ c.live) {l : Handle} {n : Nat} (ok : r = .ok (l, n)) : n ≤ c.live := by
  induction counts with
  | finish visited last =>
      cases ok
      exact start
  | excess last full => cases ok
  | refuse last room node => cases ok
  | visit last room node rest ih => exact ih room ok

/-- What the walk has seen where it ends well: nodes that all pass, threaded from where it began. -/
theorem exists_walk {budget : Nat} {last : Handle} {current : Option Handle} {l : Handle}
    {left : Nat} (ok : c.checkFrom budget last current = .ok (l, left)) :
    ∃ walk : List Handle, walk.length + left = budget ∧ walk.head? = current ∧
      l = walk.getLast?.getD last ∧ (∀ h ∈ walk, c.Passes h) ∧ c.view.Path (walk.map some) ∧
      ∀ h, walk.getLast? = some h → c.view.next (some h) = none := by
  induction budget generalizing last current with
  | zero =>
      cases current with
      | none =>
          cases ok
          exact ⟨[], rfl, rfl, rfl, by simp, .nil, by simp⟩
      | some h => cases ok
  | succ budget ih =>
      cases current with
      | none =>
          cases ok
          exact ⟨[], by simp, rfl, rfl, by simp, .nil, by simp⟩
      | some h =>
          rw [checkFrom_succ] at ok
          cases node : c.checkNode h with
          | error v => rw [node] at ok; cases ok
          | ok n =>
              rw [node, ok_bind] at ok
              obtain ⟨found, passes⟩ := checkNode_eq_ok_iff.1 node
              have viewNext := (view_of_node? found).1
              obtain ⟨walk, sum, first, final, all, path, stop⟩ := ih ok
              refine ⟨h :: walk, ?_, rfl, ?_, ?_, ?_, ?_⟩
              · rw [List.length_cons]; omega
              · rw [final, List.getLast?_cons]; rfl
              · exact List.forall_mem_cons.2 ⟨passes, all⟩
              · cases walk with
                | nil => exact .singleton _
                | cons a walk =>
                    have next : c.view.next (some h) = some a := viewNext.trans first.symm
                    exact .cons_cons ⟨next, (passes.next a next).2⟩ path
              · cases walk with
                | nil =>
                    intro k here
                    obtain rfl : h = k := by simpa using here
                    exact viewNext.trans first.symm
                | cons a walk => exact stop

/-- On a path from the place between the ends no node comes twice: `prev` would lead back from it
both to that place and to a node. -/
theorem nodup_of_path_opening {v : View} {order : List Handle}
    (path : v.Path (View.opening order)) : order.Nodup := by
  induction order using List.reverseRecOn with
  | nil => exact .nil
  | append_singleton A x ih =>
      obtain ⟨pathA, -, -, prev⟩ := (View.path_opening_append (by simp)).1 path
      have nodup := ih pathA
      refine List.nodup_append.2 ⟨nodup, by simp, ?_⟩
      rintro y memA z memX rfl
      obtain rfl : y = x := by simpa using memX
      obtain ⟨A₁, A₂, rfl⟩ := List.append_of_mem memA
      have again := ((View.path_opening_append (by simp)).1 pathA).2.2.2
      -- `prev` leads from the node to the last of `A₁` and to the last of `A₁ ++ y :: A₂`
      have tail : (A₁ ++ y :: A₂).getLast? = (y :: A₂).getLast? :=
        List.getLast?_append_of_ne_nil A₁ (List.cons_ne_nil y A₂)
      have same : A₁.getLast? = (y :: A₂).getLast? := again.symm.trans (prev.trans tail)
      obtain ⟨l, last⟩ : ∃ l, (y :: A₂).getLast? = some l :=
        ⟨_, List.getLast?_eq_some_getLast (List.cons_ne_nil y A₂)⟩
      exact (List.nodup_append.1 nodup).2.2 l (List.mem_of_getLast? (same.trans last)) l
        (List.mem_of_getLast? last) rfl

/-! ### Soundness and completeness -/

theorem validate_eq_ok_of_front_none (start : c.front = none) :
    c.validate = .ok () ↔ c.back = none ∧ c.live = 0 := by
  simp only [validate, start]
  rw [unless_throw_eq_ok_iff, Option.not_isSome_iff_eq_none]
  by_cases live : c.live = 0
  · simp [live, pure, Except.pure]
  · simp [live, throw, throwThe, MonadExceptOf.throw]

theorem validate_eq_ok_of_front_some {front : Handle} (start : c.front = some front) :
    c.validate = .ok () ↔ c.contains front = true ∧ c.view.prev (some front) = none ∧
      ∃ last, c.checkFrom c.live front (some front) = .ok (last, 0) ∧ c.back = some last := by
  simp only [validate, start]
  cases found : c.node? front with
  | none => simp [checkLive, found, contains, error_bind]
  | some n =>
      have live : c.checkLive front = .ok n := checkLive_eq_ok_iff.2 found
      rw [live, ok_bind, unless_throw_eq_ok_iff, Option.not_isSome_iff_eq_none,
        (view_of_node? found).2.1, and_iff_right (contains_iff.2 ⟨n, found⟩)]
      refine and_congr_right fun _ => ?_
      cases c.checkFrom c.live front (some front) with
      | error v => simp [error_bind]
      | ok result =>
          obtain ⟨last, left⟩ := result
          rw [ok_bind, unless_throw_eq_ok_iff]
          by_cases back : c.back = some last
          · by_cases all : left = 0
            · simp [back, all, pure, Except.pure]
            · simp [back, all, throw, throwThe, MonadExceptOf.throw]
          · simp [back]

/-- Once every slot in use is accounted for, no handle is live without having been visited. -/
theorem sound_of_validate (count : c.live = c.occupied) (ok : c.validate = .ok ()) :
    ∃ order, c.view.Sound order := by
  cases start : c.front with
  | none =>
      obtain ⟨back, live⟩ := (validate_eq_ok_of_front_none start).1 ok
      have dead (h : Handle) : c.contains h ≠ true := by
        intro here
        have short := length_le_occupied (List.nodup_singleton h) (by simpa using here)
        rw [List.length_singleton] at short
        omega
      refine ⟨[], List.nodup_nil, ?_, ?_, ?_⟩
      · intro h
        rw [← contains_eq_isSome_token?]
        simpa using dead h
      · exact .cons_cons ⟨start, back⟩ (.singleton _)
      · exact fun h k link => absurd (live_of_partner link) (dead h)
  | some front =>
      obtain ⟨-, head, last, walked, back⟩ := (validate_eq_ok_of_front_some start).1 ok
      obtain ⟨walk, sum, first, final, passes, path, stop⟩ := exists_walk walked
      obtain ⟨rest, rfl⟩ : ∃ rest, walk = front :: rest := List.head?_eq_some_iff.1 first
      have last_eq : (front :: rest).getLast? = some last := by
        rw [final, List.getLast?_cons]
        rfl
      have opens : c.view.Path (View.opening (front :: rest)) := .cons_cons ⟨start, head⟩ path
      have nodup := nodup_of_path_opening opens
      have live : ∀ h ∈ front :: rest, c.contains h = true := fun h mem => (passes h mem).live
      have mem_of_live {h : Handle} (here : c.contains h = true) : h ∈ front :: rest :=
        mem_of_occupied_le nodup live (by omega) here
      refine ⟨front :: rest, nodup, ?_, ?_, ?_⟩
      · intro h
        rw [← contains_eq_isSome_token?]
        exact ⟨live h, mem_of_live⟩
      · rw [← List.append_nil (front :: rest)]
        refine View.ring_append.2 ⟨opens, .singleton _, ?_, ?_⟩
        · rw [last_eq]
          exact stop last last_eq
        · rw [last_eq]
          exact back
      · intro h k link
        obtain ⟨differs, liveK, mutual_link⟩ :=
          (passes h (mem_of_live (live_of_partner link))).link k link
        exact ⟨differs, mem_of_live liveK, mutual_link⟩

theorem passes_of_sound {order : List Handle} (sound : c.view.Sound order) {h : Handle}
    (mem : h ∈ order) : c.Passes h := by
  refine ⟨contains_of_sound sound mem, ?_, ?_⟩
  · intro a next
    obtain ⟨A, C, rfl⟩ := List.append_of_mem mem
    rw [sound.ring.next_some] at next
    obtain ⟨C, rfl⟩ := List.head?_eq_some_iff.1 next
    have split : A ++ h :: a :: C = (A ++ [h]) ++ a :: C := by simp
    refine ⟨contains_of_sound sound (by simp), ?_⟩
    have ring := sound.ring
    rw [split] at ring
    rw [ring.prev_some, List.getLast?_concat]
  · intro k link
    obtain ⟨differs, memK, back⟩ := sound.linked h k link
    exact ⟨differs, contains_of_sound sound memK, back⟩

/-- From any node on, the walk goes to the tail and uses up its budget. -/
theorem checkFrom_of_sound {A C : List Handle} (sound : c.view.Sound (A ++ C)) (last : Handle) :
    c.checkFrom C.length last C.head? = .ok (C.getLast?.getD last, 0) := by
  induction C generalizing A last with
  | nil => rfl
  | cons h C ih =>
      have passes := passes_of_sound sound (by simp : h ∈ A ++ h :: C)
      obtain ⟨n, found, -, next⟩ := exists_node_of_sound sound
      have rest : c.view.Sound ((A ++ [h]) ++ C) := by simpa using sound
      rw [List.head?_cons, List.length_cons, checkFrom_succ,
        checkNode_eq_ok_iff.2 ⟨found, passes⟩, ok_bind, next, ih rest h, List.getLast?_cons]
      rfl

/-- A start is the first node of the part of the chain that a walk from it sees. -/
theorem exists_part {order : List Handle} (sound : c.view.Sound order) {start : Option Handle}
    (live : ∀ h, start = some h → c.contains h = true) :
    ∃ A C, order = A ++ C ∧ C.head? = start ∧ order.dropWhile (some · != start) = C ∧
      A.isEmpty = (start == order.head?) := by
  cases start with
  | none =>
      refine ⟨order, [], by simp, rfl, List.dropWhile_eq_nil_iff.2 fun h _ => rfl, ?_⟩
      cases order <;> rfl
  | some h =>
      have here : h ∈ order := by
        rw [sound.mem_iff, ← contains_eq_isSome_token?]
        exact live h rfl
      obtain ⟨A, C, rfl⟩ := List.append_of_mem here
      have absent : h ∉ A := fun mem =>
        (List.nodup_append'.1 sound.nodup).2.2 mem List.mem_cons_self
      refine ⟨A, h :: C, rfl, rfl, ?_, ?_⟩
      · rw [List.dropWhile_append_of_pos, List.dropWhile_cons_of_neg]
        · simp
        · intro k mem
          have ne : k ≠ h := by
            rintro rfl
            exact absent mem
          simpa using ne
      · cases A with
        | nil => simp
        | cons k A =>
            have ne : h ≠ k := by
              rintro rfl
              exact absent List.mem_cons_self
            simpa using ne

theorem length_of_sound {order : List Handle} (sound : c.view.Sound order) :
    order.length = c.occupied :=
  length_eq_occupied sound.nodup fun h => by
    rw [contains_eq_isSome_token?]
    exact sound.mem_iff h

theorem validate_of_sound (count : c.live = c.occupied) {order : List Handle}
    (sound : c.view.Sound order) : c.validate = .ok () := by
  have length := length_of_sound sound
  have first : c.front = order.head? := sound.ring.next_none
  have final : c.back = order.getLast? := sound.ring.prev_none
  cases order with
  | nil =>
      rw [List.length_nil] at length
      exact (validate_eq_ok_of_front_none first).2 ⟨final, by omega⟩
  | cons front rest =>
      have walked := checkFrom_of_sound (A := []) (C := front :: rest) sound front
      rw [length, ← count, List.head?_cons] at walked
      refine (validate_eq_ok_of_front_some first).2
        ⟨(passes_of_sound sound List.mem_cons_self).live, ?_, _, walked, ?_⟩
      · exact View.Ring.prev_some (A := []) sound.ring
      · rw [final, List.getLast?_cons]
        rfl

theorem verdict_counted {front : Handle} (start : c.front = some front) :
    c.validate =
      c.verdict front (c.counted (c.checkFrom c.live front (some front))) := by
  simp only [validate, start, verdict, counted]
  cases c.checkLive front with
  | error v => rfl
  | ok n =>
      simp only [ok_bind]
      cases walked : c.checkFrom c.live front (some front) with
      | error v => rfl
      | ok result =>
          obtain ⟨last, left⟩ := result
          obtain ⟨walk, sum, -⟩ := exists_walk walked
          have exact_count : c.live - (c.live - left) = left := by omega
          have done : c.live - left ≠ c.live ↔ left ≠ 0 := by omega
          simp only [Except.map, ok_bind, exact_count, done]

/-- The check ends on every chain, its count of the nodes visited never passes the count of live
ones, and it finds nothing exactly if the nodes can be enumerated soundly. -/
theorem validate_exact (c : Chain) (count : c.live = c.occupied) :
    (∀ front, c.front = some front →
      ∃ r, (∀ s, c.Counts 0 front (some front) s ↔ s = r) ∧
        (∀ last visited, r = .ok (last, visited) → visited ≤ c.live) ∧
        c.validate = c.verdict front r) ∧
    (c.validate = .ok () ↔ ∃ order, c.view.Sound order) := by
  refine ⟨?_, sound_of_validate count, ?_⟩
  · intro front start
    have counts := counts_checkFrom (c := c) (Nat.zero_add c.live) front (some front)
    refine ⟨_, fun s => ⟨?_, ?_⟩, ?_, verdict_counted start⟩
    · exact fun other => other.unique counts
    · rintro rfl
      exact counts
    · exact fun last visited ok => counts.visited_le (Nat.zero_le _) ok
  · rintro ⟨order, sound⟩
    exact validate_of_sound count sound

/-- Two live nodes that follow each other round and round, each with its `prev` right. -/
def circular : Chain :=
  let token : Token := .bare ";"
  let a : Handle := { index := 0, generation := 0 }
  let b : Handle := { index := 1, generation := 7 }
  { slots := #[
      { generation := 0, node := some { token, next := some b, prev := none, link := some b } },
      { generation := 7, node := some { token, next := some a, prev := some a, link := some a } }]
    free := []
    live := 2
    front := some a
    back := some b }

theorem circular_not_sound :
    circular.live = circular.occupied ∧ ¬ ∃ order, circular.view.Sound order := by
  have count : circular.live = circular.occupied := by decide
  have found : circular.validate ≠ .ok () := by decide
  exact ⟨count, fun sound => found ((validate_exact circular count).2.2 sound)⟩

end TokenStream.Chain
