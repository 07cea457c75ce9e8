import TokenStream.Proofs.Chain.History
import TokenStream.Proofs.Chain.Outcome
/-!
Blocks of nodes that are given another place. Wherever a block stands and wherever it goes, the
order afterwards is one and the same list: the old one without the block, with the block put back at
the node that names its place. The nodes keep what they hold, except that a block which is moved
behind a node takes over that node's progress value.
-/
namespace TokenStream.Chain

variable {c d : Chain} {order block nodes A B C X Y : List Handle} {t first last : Handle}

/-! ### Orders -/

/-- The order without the block, and with these nodes in the place of `t`. -/
def rearranged (order block : List Handle) (t : Handle) (nodes : List Handle) : List Handle :=
  (order.filter (· ∉ block)).flatMap fun k => if k = t then nodes else [k]

theorem filter_not_mem_block (nodup : (A ++ B ++ C).Nodup) :
    (A ++ B ++ C).filter (· ∉ B) = A ++ C := by
  obtain ⟨nodupAB, -, apartC⟩ := List.nodup_append'.1 nodup
  obtain ⟨-, -, apartA⟩ := List.nodup_append'.1 nodupAB
  rw [List.disjoint_append_left] at apartC
  have before : A.filter (· ∉ B) = A :=
    List.filter_eq_self.2 fun k mem => decide_eq_true (apartA mem)
  have inside : B.filter (· ∉ B) = [] :=
    List.filter_eq_nil_iff.2 fun k mem => by simpa using mem
  have after : C.filter (· ∉ B) = C :=
    List.filter_eq_self.2 fun k mem => decide_eq_true fun memB => apartC.2 memB mem
  rw [List.filter_append, List.filter_append, before, inside, after, List.append_nil]

theorem flatMap_of_not_mem (absent : t ∉ X) :
    X.flatMap (fun k => if k = t then nodes else [k]) = X := by
  have same : ∀ k ∈ X, (if k = t then nodes else [k]) = [k] := by
    intro k mem
    exact if_neg (ne_of_mem_of_not_mem mem absent)
  rw [List.flatMap_congr same, List.flatMap_singleton']

theorem rearranged_eq (nodup : (A ++ B ++ C).Nodup) (rest : A ++ C = X ++ t :: Y) :
    rearranged (A ++ B ++ C) B t nodes = X ++ nodes ++ Y := by
  have left : (A ++ C).Nodup := filter_not_mem_block nodup ▸ nodup.filter _
  rw [rest] at left
  have absent : t ∉ X ++ Y := (List.nodup_middle.1 left).notMem
  rw [List.mem_append, not_or] at absent
  rw [rearranged, filter_not_mem_block nodup, rest, List.flatMap_append, List.flatMap_cons,
    flatMap_of_not_mem absent.1, flatMap_of_not_mem absent.2, if_pos rfl, List.append_assoc]

theorem mem_of_rest (rest : A ++ C = X ++ t :: Y) : t ∈ A ++ B ++ C := by
  have mem : t ∈ A ++ C := by simp [rest]
  rcases List.mem_append.1 mem with before | after
  · simp [before]
  · simp [after]

/-- The node that a block follows already is where the block goes back to. -/
theorem rearranged_eq_self (valid : c.Valid order) (span : c.Span first last block)
    (before : c.next t = .ok (some first)) : rearranged order block t (t :: block) = order := by
  obtain ⟨A, C, rfl⟩ := span.exists_split valid
  have mem : t ∈ A ++ block ++ C := (valid.mem_iff t).2 (live_of_next before).1
  obtain ⟨P, Q, eq⟩ := List.append_of_mem mem
  -- the block comes after `A`, and its first node comes after `t`
  have atA : c.view.prev (some first) = A.getLast? := by
    obtain ⟨B, rfl⟩ := List.head?_eq_some_iff.1 span.starts
    have ring := valid.sound.ring
    rw [List.append_assoc] at ring
    exact ring.prev_some
  have atT : c.view.prev (some first) = some t := by
    have ring := valid.sound.ring
    rw [eq] at valid ring
    rw [valid.next_ok] at before
    obtain ⟨Q, rfl⟩ := List.head?_eq_some_iff.1 (Except.ok.inj before)
    rw [List.append_cons] at ring
    rw [ring.prev_some, List.getLast?_concat]
  obtain ⟨A, rfl⟩ := List.getLast?_eq_some_iff.1 (atA.symm.trans atT)
  rw [rearranged_eq valid.sound.nodup (List.append_cons A t C).symm]
  simp

/-! ### A block in the place of a node -/

/-- The chain `d` is `c` after a block took the place of the node `t`, in this order now. -/
structure Replaces (c d : Chain) (t : Handle) (order : List Handle) : Prop where
  valid : d.Valid order
  front : d.front = order.head?
  back : d.back = order.getLast?
  live : d.live + 1 = c.live
  stale : d.contains t = false
  left : ∀ p, c.link t = .ok (some p) → d.link p = .ok none
  tokens : ∀ k, k ≠ t → d.token? k = c.token? k
  links : ∀ k, k ≠ t → c.link k ≠ .ok (some t) → d.link k = c.link k

theorem replace_replaces (valid : c.Valid (A ++ block ++ C)) (starts : block.head? = some first)
    (ends : block.getLast? = some last) (rest : A ++ C = X ++ t :: Y) :
    ∃ d, c.replace t first last = .ok d ∧ c.Replaces d t (X ++ block ++ Y) := by
  obtain ⟨e, ok, same, view, validE⟩ := replace_ok valid starts ends rest
  have liveT : c.contains t = true := valid.live (mem_of_rest rest)
  have liveE : e.contains t = true := (same.contains_eq t).trans liveT
  have dropped (a b : Handle) :
      e.view.partner a = some b ↔ c.view.partner a = some b ∧ a ≠ t ∧ b ≠ t := by
    rw [view]
    exact valid.sound.partner_unlink
  have tokens : e.token? = c.token? := congrArg View.token? view
  refine ⟨e.release t, ok, validE, validE.sound.ring.next_none,
    validE.sound.ring.prev_none, ?_, ?_, ?_, ?_, ?_⟩
  · have fewer := congrArg List.length rest
    rw [← validE.length_eq_live, ← valid.length_eq_live]
    simp only [List.length_append, List.length_cons] at fewer ⊢
    omega
  · simp [contains, node?_release_self]
  · intro p link
    have ne : p ≠ t := (valid.mutual_link t p (link_eq_some_iff.1 link)).1
    rw [link_release_of_ne liveE ne]
    exact link_partner_of_dropped same.contains_eq dropped valid link
  · intro k ne
    rw [token?_release_of_ne liveE ne, tokens]
  · intro k ne other
    rw [link_release_of_ne liveE ne]
    exact link_of_dropped same.contains_eq dropped ne other

/-- Replacing a node by a block of others puts the block in its place. The node is gone, whoever was
linked to it is linked to nobody, and everything else that the chain shows is as before. -/
theorem replace_exact (valid : c.Valid order) (span : c.Span first last block)
    (live : c.contains t = true) (outside : t ∉ block) :
    ∃ d, c.replace t first last = .ok d ∧
      c.Replaces d t (rearranged order block t block) := by
  obtain ⟨A, C, X, Y, rfl, rest⟩ := span.exists_target valid live outside
  rw [rearranged_eq valid.sound.nodup rest]
  exact replace_replaces valid span.starts span.ends rest

-- In `( x )` the part that is left of `)` takes its place, and `(` has no partner any more.
theorem parenthesis_replaced : ∃ c d, History c ∧ c.link ⟨2, 0⟩ = .ok (some ⟨0, 0⟩) ∧
    c.replace ⟨2, 0⟩ ⟨0, 0⟩ ⟨1, 0⟩ = .ok d ∧ d.Valid [⟨0, 0⟩, ⟨1, 0⟩] ∧
    d.contains ⟨2, 0⟩ = false ∧ d.link ⟨0, 0⟩ = .ok none := by
  have h₁ : History _ := .edit (e := .push "(" 1 0) .start (show "(" ≠ "" by decide) rfl
  have h₂ : History _ := .edit (e := .push "x" 1 0) h₁ (show "x" ≠ "" by decide) rfl
  have h₃ : History _ := .edit (e := .push ")" 1 0) h₂ (show ")" ≠ "" by decide) rfl
  have h₄ : History _ := .edit (e := .linkPair ⟨0, 0⟩ ⟨2, 0⟩) h₃ ⟨by decide, rfl, rfl⟩ rfl
  obtain ⟨order, valid⟩ := h₄.valid
  obtain rfl : order = [⟨0, 0⟩, ⟨1, 0⟩, ⟨2, 0⟩] := valid.order_eq rfl
  have span := Valid.span (A := []) (B := [⟨0, 0⟩, ⟨1, 0⟩]) (C := [⟨2, 0⟩]) valid rfl rfl
  obtain ⟨d, ok, replaces⟩ := replace_exact (t := ⟨2, 0⟩) valid span rfl (by decide)
  exact ⟨_, d, h₄, rfl, ok, replaces.valid, replaces.stale, replaces.left ⟨0, 0⟩ rfl⟩

/-! ### A block behind a node -/

/-- The chain `d` is `c` after a block moved behind the node `t`, in this order now. -/
structure Moves (c d : Chain) (block : List Handle) (t : Handle) (order : List Handle) : Prop where
  valid : d.Valid order
  front : d.front = order.head?
  back : d.back = order.getLast?
  live : d.live = c.live
  handles : ∀ k, d.contains k = c.contains k
  links : ∀ k, d.link k = c.link k
  moved : ∃ u, c.token? t = some u ∧ ∀ k ∈ block, ∃ v, c.token? k = some v ∧
    d.token? k = some { v with progress := u.progress }
  tokens : ∀ k, k ∉ block → d.token? k = c.token? k

theorem moveRange_moves (valid : c.Valid (A ++ block ++ C)) (starts : block.head? = some first)
    (ends : block.getLast? = some last) (rest : A ++ C = X ++ t :: Y) :
    ∃ d, c.moveRange first last t = .ok d ∧ c.Moves d block t (X ++ (t :: block) ++ Y) := by
  obtain ⟨u, found⟩ := valid.exists_token (mem_of_rest rest)
  obtain ⟨d, ok, same, view, validD⟩ := moveRange_ok valid starts ends rest found
  have split : X ++ t :: (block ++ Y) = X ++ (t :: block) ++ Y := by simp
  rw [split] at validD
  have links : d.view.partner = c.view.partner := by rw [view]; rfl
  have token (k : Handle) : d.token? k =
      if k ∈ block then (c.token? k).map fun v => { v with progress := u.progress }
      else c.token? k :=
    congrFun (congrArg View.token? view) k
  refine ⟨d, ok, validD, validD.sound.ring.next_none, validD.sound.ring.prev_none, same.live_eq,
    same.contains_eq, fun k => link_congr (same.contains_eq k) fun b => by rw [links],
    ⟨u, found, fun k mem => ?_⟩, fun k out => by rw [token, if_neg out]⟩
  obtain ⟨v, here⟩ := valid.exists_token (h := k) (by simp [mem])
  refine ⟨v, here, ?_⟩
  rw [token, if_pos mem]
  exact congrArg (Option.map _) here

/-- A destination within the block is refused before anything is changed. -/
theorem moveRange_inside (valid : c.Valid (A ++ block ++ C)) (starts : block.head? = some first)
    (ends : block.getLast? = some last) (inside : t ∈ block) :
    c.moveRange first last t = .error .moveRange := by
  have search := rangeContains_block valid starts ends t
  rw [decide_eq_true inside] at search
  simp only [moveRange, search, ok_bind, if_true]
  rfl

theorem moveRange_stale (valid : c.Valid (A ++ block ++ C)) (starts : block.head? = some first)
    (ends : block.getLast? = some last) (gone : c.contains t = false) :
    c.moveRange first last t = .error (.stale t) := by
  have outside : t ∉ block := by
    intro mem
    rw [valid.live (by simp [mem])] at gone
    cases gone
  have search := rangeContains_block valid starts ends t
  rw [decide_eq_false outside] at search
  obtain ⟨before, after, d, ok, same, -⟩ := detach_ok valid starts ends
  have fails : d.next t = .error (.stale t) := next_stale ((same.contains_eq t).trans gone)
  simp only [moveRange, search, ok_bind, Bool.false_eq_true, if_false, before, after, ok, fails]
  rfl

/-- Moving a block is refused if its destination is one of the block. Otherwise the block comes
behind the destination and takes over the progress value there, and everything else that the chain
shows is as before. A destination that is gone is named. -/
theorem moveRange_exact (valid : c.Valid order) (span : c.Span first last block) (t : Handle) :
    (c.moveRange first last t = .error .moveRange ↔ t ∈ block) ∧
      (c.contains t = false → c.moveRange first last t = .error (.stale t)) ∧
      (t ∉ block → c.contains t = true → ∃ d, c.moveRange first last t = .ok d ∧
        c.Moves d block t (rearranged order block t (t :: block))) ∧
      (c.next t = .ok (some first) → rearranged order block t (t :: block) = order) := by
  obtain ⟨A, C, rfl⟩ := span.exists_split valid
  have stale := moveRange_stale (t := t) valid span.starts span.ends
  have moves (outside : t ∉ block) (live : c.contains t = true) :
      ∃ d, c.moveRange first last t = .ok d ∧
        c.Moves d block t (rearranged (A ++ block ++ C) block t (t :: block)) := by
    obtain ⟨A, C, X, Y, eq, rest⟩ := span.exists_target valid live outside
    rw [eq] at valid ⊢
    rw [rearranged_eq valid.sound.nodup rest]
    exact moveRange_moves valid span.starts span.ends rest
  refine ⟨⟨fun refused => ?_, moveRange_inside valid span.starts span.ends⟩, stale, moves,
    rearranged_eq_self valid span⟩
  by_contra outside
  cases live : c.contains t with
  | false =>
      rw [stale live] at refused
      cases refused
  | true =>
      obtain ⟨d, ok, -⟩ := moves outside live
      rw [ok] at refused
      cases refused

-- The block `( )` goes behind the `f` at the end, but not behind its own `)`.
theorem parenthesis_moved : ∃ c d, History c ∧
    c.moveRange ⟨0, 0⟩ ⟨1, 0⟩ ⟨1, 0⟩ = .error .moveRange ∧
    c.moveRange ⟨0, 0⟩ ⟨1, 0⟩ ⟨2, 0⟩ = .ok d ∧ d.Valid [⟨2, 0⟩, ⟨0, 0⟩, ⟨1, 0⟩] ∧
    ∀ k ∈ [(⟨0, 0⟩ : Handle), ⟨1, 0⟩], (d.token? k).map (·.progress) = some 7 := by
  have h₁ : History _ := .edit (e := .push "(" 1 0) .start (show "(" ≠ "" by decide) rfl
  have h₂ : History _ := .edit (e := .push ")" 1 0) h₁ (show ")" ≠ "" by decide) rfl
  have h₃ : History _ := .edit (e := .push "f" 1 0) h₂ (show "f" ≠ "" by decide) rfl
  have h₄ : History _ :=
    .edit (e := .change ⟨2, 0⟩ (.progress 7)) h₃ ⟨rfl, fun _ no => nomatch no⟩ rfl
  obtain ⟨order, valid⟩ := h₄.valid
  obtain rfl : order = [⟨0, 0⟩, ⟨1, 0⟩, ⟨2, 0⟩] := valid.order_eq rfl
  have span := Valid.span (A := []) (B := [⟨0, 0⟩, ⟨1, 0⟩]) (C := [⟨2, 0⟩]) valid rfl rfl
  have behind := moveRange_exact valid span
  obtain ⟨d, ok, moves⟩ := (behind ⟨2, 0⟩).2.2.1 (by decide) rfl
  obtain ⟨u, found, moved⟩ := moves.moved
  cases found
  refine ⟨_, d, h₄, (behind ⟨1, 0⟩).1.2 (by decide), ok, moves.valid, fun k mem => ?_⟩
  obtain ⟨v, -, now⟩ := moved k mem
  rw [now]
  rfl

end TokenStream.Chain
