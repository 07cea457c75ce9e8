import TokenStream.Proofs.Chain.Edit
/-!
The edits of a whole block of nodes: `replace` and `moveRange` put it in another place, `eraseRange`
removes it. A block that moves is taken out first, and everything after that is read off the chain
without it, so it does not matter on which side of the block its new place is.
-/
namespace TokenStream.Chain

variable {c d : Chain} {A B C X M Y : List Handle} {a b t : Handle}

/-! ### Moving -/

theorem detach_ok (valid : c.Valid (A ++ B ++ C)) (first : B.head? = some a)
    (last : B.getLast? = some b) :
    c.previous a = .ok A.getLast? ∧ c.next b = .ok C.head? ∧
      ∃ d, c.stitch A.getLast? C.head? = .ok d ∧ SameStorage c d ∧
        d.view = c.view.stitch A.getLast? C.head? ∧ d.view.Ring (A ++ C) ∧
        d.view.Path (B.map some) := by
  have nonempty : B ≠ [] := by rintro rfl; cases first
  have placeA : c.HasPlace A.getLast? :=
    valid.hasPlace fun k here => by simp [List.mem_of_getLast? here]
  have placeC : c.HasPlace C.head? :=
    valid.hasPlace fun k here => by simp [List.mem_of_head? here]
  obtain ⟨d, ok, same, view⟩ := yields_stitch placeA placeC
  obtain ⟨ring, path⟩ := valid.sound.ring.detach nonempty valid.sound.nodup
  refine ⟨?_, ?_, d, ok, same, view, view ▸ ring, view ▸ path⟩
  · obtain ⟨B, rfl⟩ := List.head?_eq_some_iff.1 first
    rw [List.append_assoc] at valid
    exact valid.previous_ok
  · obtain ⟨B, rfl⟩ := List.getLast?_eq_some_iff.1 last
    rw [← List.append_assoc, List.append_assoc] at valid
    exact valid.next_ok

/-- The block goes between `X` and `Y` in the chain without it. -/
theorem relocate_ok (valid : c.Valid (A ++ B ++ C)) (first : B.head? = some a)
    (last : B.getLast? = some b) (rest : A ++ C = X ++ M ++ Y) (same : SameStorage c d)
    (view : d.view = c.view.stitch A.getLast? C.head?) :
    ∃ e f, d.stitch X.getLast? (some a) = .ok e ∧ e.stitch (some b) Y.head? = .ok f ∧
      SameStorage c f ∧ f.view = c.view.relocate A B C X Y ∧ f.view.Ring (X ++ B ++ Y) := by
  have live {k : Handle} (mem : k ∈ A ++ B ++ C) : d.contains k = true := by
    rw [same.contains_eq]
    exact valid.live mem
  have kept {k : Handle} (mem : k ∈ X ++ M ++ Y) : k ∈ A ++ B ++ C := by
    have either : k ∈ A ∨ k ∈ C := by rwa [← rest, List.mem_append] at mem
    rcases either with mem | mem
    · simp [mem]
    · simp [mem]
  have placeX : d.HasPlace X.getLast? := by
    intro k here
    exact live (kept (by simp [List.mem_of_getLast? here]))
  have placeY : d.HasPlace Y.head? := by
    intro k here
    exact live (kept (by simp [List.mem_of_head? here]))
  have placeA : d.HasPlace (some a) := by
    intro k here
    cases here
    exact live (by simp [List.mem_of_head? first])
  have placeB : d.HasPlace (some b) := by
    intro k here
    cases here
    exact live (by simp [List.mem_of_getLast? last])
  obtain ⟨e, okE, sameE, viewE⟩ := yields_stitch placeX placeA
  obtain ⟨f, okF, sameF, viewF⟩ := yields_stitch (sameE.hasPlace placeB) (sameE.hasPlace placeY)
  have viewC : f.view = c.view.relocate A B C X Y := by
    rw [viewF, viewE, view, View.relocate, first, last]
  refine ⟨e, f, okE, okF, (same.trans sameE).trans sameF, viewC, ?_⟩
  rw [viewC]
  have nonempty : B ≠ [] := by rintro rfl; cases first
  exact valid.sound.ring.relocate nonempty valid.sound.nodup rest

theorem replace_ok (valid : c.Valid (A ++ B ++ C)) (first : B.head? = some a)
    (last : B.getLast? = some b) (rest : A ++ C = X ++ t :: Y) :
    ∃ d, c.replace t a b = .ok (d.release t) ∧ SameStorage c d ∧
      d.view = (c.view.relocate A B C X Y).unlink t ∧ (d.release t).Valid (X ++ B ++ Y) := by
  have perm : (A ++ B ++ C).Perm (t :: (X ++ B ++ Y)) :=
    View.perm_relocate (M := [t]) (by simpa using rest)
  have absent : t ∉ B := by
    have nodup := perm.nodup_iff.1 valid.sound.nodup
    intro mem
    exact (List.nodup_cons.1 nodup).1 (by simp [mem])
  have outside : ¬ (t = a ∨ t = b) := by
    rintro (rfl | rfl)
    · exact absent (List.mem_of_head? first)
    · exact absent (List.mem_of_getLast? last)
  obtain ⟨before, after, d, okD, sameD, viewD, ring, -⟩ := detach_ok valid first last
  rw [rest] at ring
  have live : d.contains t = true := by
    rw [sameD.contains_eq]
    exact valid.live (perm.mem_iff.2 List.mem_cons_self)
  have prevT : d.previous t = .ok X.getLast? := by rw [previous_ok live, ring.prev_some]
  have nextT : d.next t = .ok Y.head? := by rw [next_ok live, ring.next_some]
  obtain ⟨e, f, okE, okF, sameF, viewF, ringF⟩ :=
    relocate_ok (M := [t]) valid first last (by simpa using rest) sameD viewD
  have liveF : f.contains t = true := by
    rw [sameF.contains_eq]
    exact valid.live (perm.mem_iff.2 List.mem_cons_self)
  have links : f.view.partner = c.view.partner := by rw [viewF]; rfl
  have tokens : f.view.token? = c.view.token? := by rw [viewF]; rfl
  obtain ⟨g, okG, sameG, viewG⟩ :=
    yields_unlink liveF (by rw [links]; exact valid.mutual_link t)
  have same := sameF.trans sameG
  refine ⟨g, ?_, same, by rw [viewG, viewF], ?_⟩
  · simp only [replace, if_neg outside, before, after, okD, prevT, nextT, okE, okF, okG, ok_bind]
    rfl
  · exact valid.release same viewG perm.symm ringF tokens links

/-! ### Walks along a block -/

theorem ne_of_getLast? {h : Handle} (nodup : (A ++ h :: B ++ C).Nodup)
    (last : B.getLast? = some b) : h ≠ b := by
  rintro rfl
  have inner := (List.nodup_append.1 (List.nodup_append.1 nodup).1).2.1
  exact (List.nodup_cons.1 inner).1 (List.mem_of_getLast? last)

theorem exists_fuel {h : Handle} {n : Nat} (fuel : (h :: B).length ≤ n) :
    ∃ m, n = m + 1 ∧ B.length ≤ m := by
  rw [List.length_cons] at fuel
  exact ⟨n - 1, by omega, by omega⟩

/-- The search of the block for a node ends where it finds it, or else at the end of the block. -/
theorem rangeContains_eq {n : Nat} (valid : c.Valid (A ++ B ++ C)) (last : B.getLast? = some b)
    (t : Handle) (fuel : B.length ≤ n) :
    c.rangeContains b t n B.head? = .ok (decide (t ∈ B)) := by
  induction B generalizing A n with
  | nil => cases last
  | cons h B ih =>
      obtain ⟨n, rfl, enough⟩ := exists_fuel fuel
      have split : A ++ h :: B ++ C = A ++ h :: (B ++ C) := by simp
      have next : c.next h = .ok (B ++ C).head? := by
        rw [split] at valid
        exact valid.next_ok
      by_cases here : h = t
      · subst here
        simp only [List.head?_cons, rangeContains, next, ok_bind, if_true, List.mem_cons_self,
          decide_true]
        rfl
      · have later : decide (t ∈ h :: B) = decide (t ∈ B) := by simp [Ne.symm here]
        rw [later]
        cases B with
        | nil =>
            obtain rfl : h = b := by simpa using last
            -- the search looks at the node after the block before it gives up
            have beyond : ∀ k, C.head? = some k → ∃ r, c.next k = .ok r := by
              intro k first
              exact ⟨_, next_ok (valid.live (by simp [List.mem_of_head? first]))⟩
            simp only [List.head?_cons, rangeContains, next, ok_bind, if_neg here, if_true,
              List.nil_append]
            cases hc : C.head? with
            | none => rfl
            | some k =>
                obtain ⟨r, ok⟩ := beyond k hc
                simp only [ok]
                rfl
        | cons k B =>
            have end_b : (k :: B).getLast? = some b := by simpa using last
            have inner : h ≠ b := ne_of_getLast? valid.sound.nodup end_b
            simp only [List.head?_cons, rangeContains, next, ok_bind, if_neg here, if_neg inner,
              List.cons_append]
            exact ih (A := A ++ [h]) (by simpa using valid) end_b enough

theorem length_block_le (valid : c.Valid (A ++ B ++ C)) : B.length ≤ c.stepLimit := by
  have all := valid.length_lt_stepLimit
  simp only [List.length_append] at all
  omega

theorem rangeContains_block (valid : c.Valid (A ++ B ++ C)) (first : B.head? = some a)
    (last : B.getLast? = some b) (t : Handle) :
    c.rangeContains b t c.stepLimit (some a) = .ok (decide (t ∈ B)) := by
  have search := rangeContains_eq valid last t (length_block_le valid)
  rwa [first] at search

/-- All these nodes have one progress value. -/
def settled (v : View) (progress : UInt32) (B : List Handle) : View :=
  { v with token? := fun h =>
      if h ∈ B then (v.token? h).map fun t => { t with progress } else v.token? h }

theorem settled_nil (v : View) (progress : UInt32) : settled v progress [] = v := by
  refine View.ext rfl rfl rfl ?_
  funext k
  simp only [settled, List.not_mem_nil, if_false]

theorem settled_put {v : View} {h : Handle} (progress : UInt32) {u : Token}
    (found : v.token? h = some u) (absent : h ∉ B) :
    settled (v.put h { u with progress }) progress B = settled v progress (h :: B) := by
  refine View.ext rfl rfl rfl ?_
  funext k
  by_cases here : k = h
  · subst here
    simp [settled, absent, found]
  · simp [settled, here]

theorem setProgressThrough_ok {n : Nat} (progress : UInt32) (valid : c.Valid (A ++ B ++ C))
    (last : B.getLast? = some b) (fuel : B.length ≤ n) :
    ∃ d, setProgressThrough progress b n c B.head? = .ok d ∧ SameStorage c d ∧
      d.view = settled c.view progress B ∧ d.Valid (A ++ B ++ C) := by
  induction B generalizing A c n with
  | nil => cases last
  | cons h B ih =>
      obtain ⟨n, rfl, enough⟩ := exists_fuel fuel
      have mem : h ∈ A ++ h :: B ++ C := by simp
      have absent : h ∉ B := by
        have inner := (List.nodup_append.1 (List.nodup_append.1 valid.sound.nodup).1).2.1
        exact (List.nodup_cons.1 inner).1
      obtain ⟨u, found⟩ := valid.exists_token mem
      obtain ⟨d, ok, same, view, validD⟩ :=
        modifyToken_ok valid found fun t => { t with progress }
      have shown := settled_put progress found absent
      simp only [List.head?_cons, setProgressThrough, ok, ok_bind]
      cases B with
      | nil =>
          obtain rfl : h = b := by simpa using last
          refine ⟨d, by simp only [if_true]; rfl, same, ?_, validD⟩
          rw [← shown, view, settled_nil]
      | cons k B =>
          have end_b : (k :: B).getLast? = some b := by simpa using last
          have inner : h ≠ b := ne_of_getLast? valid.sound.nodup end_b
          have split : A ++ h :: (k :: B) ++ C = A ++ h :: (k :: (B ++ C)) := by simp
          have next : d.next h = .ok (some k) := by
            rw [split] at validD
            exact validD.next_ok
          obtain ⟨e, okE, sameE, viewE, validE⟩ :=
            ih (A := A ++ [h]) (by simpa using validD) end_b enough
          refine ⟨e, ?_, same.trans sameE, ?_, by simpa using validE⟩
          · rw [if_neg inner, next]
            exact okE
          · rw [viewE, view, shown]

theorem moveRange_ok (valid : c.Valid (A ++ B ++ C)) (first : B.head? = some a)
    (last : B.getLast? = some b) (rest : A ++ C = X ++ t :: Y) {u : Token}
    (found : c.view.token? t = some u) :
    ∃ d, c.moveRange a b t = .ok d ∧ SameStorage c d ∧
      d.view = settled (c.view.relocate A B C (X ++ [t]) Y) u.progress B ∧
      d.Valid (X ++ t :: (B ++ Y)) := by
  -- the destination stays, so nothing is passed over in the new place
  have around : A ++ C = (X ++ [t]) ++ [] ++ Y := by simpa using rest
  have perm : (A ++ B ++ C).Perm (X ++ [t] ++ B ++ Y) := by
    simpa using View.perm_relocate (B := B) around
  have absent : t ∉ B := by
    have nodup := (List.nodup_append.1 (perm.nodup_iff.1 valid.sound.nodup)).1
    have apart := (List.nodup_append'.1 nodup).2.2
    exact fun mem => apart (by simp) mem
  have search := rangeContains_block valid first last t
  rw [decide_eq_false absent] at search
  obtain ⟨before, after, d, okD, sameD, viewD, ring, -⟩ := detach_ok valid first last
  rw [rest] at ring
  have live : d.contains t = true := by
    rw [sameD.contains_eq]
    exact valid.live (perm.mem_iff.2 (by simp))
  have nextT : d.next t = .ok Y.head? := by rw [next_ok live, ring.next_some]
  obtain ⟨e, f, okE, okF, sameF, viewF, ringF⟩ :=
    relocate_ok valid first last around sameD viewD
  rw [List.getLast?_concat] at okE
  have links : f.view.partner = c.view.partner := by rw [viewF]; rfl
  have tokens : f.view.token? = c.view.token? := by rw [viewF]; rfl
  have validF : f.Valid (X ++ [t] ++ B ++ Y) :=
    valid.of_view sameF rfl (valid.sound.rethread ringF perm.symm tokens links)
  have limit : f.stepLimit = c.stepLimit := by rw [stepLimit, stepLimit, sameF.size_eq]
  obtain ⟨g, okG, sameG, viewG, validG⟩ :=
    setProgressThrough_ok u.progress validF last (limit ▸ length_block_le valid)
  rw [first] at okG
  have token : f.token t = .ok u := token_ok (by rw [tokens]; exact found)
  refine ⟨g, ?_, sameF.trans sameG, by rw [viewG, viewF], by simpa using validG⟩
  simp only [moveRange, search, ok_bind, Bool.false_eq_true, if_false, before, after, okD, nextT,
    okE, okF, token, okG]

/-! ### Removing -/

theorem eraseUntil_ok {n : Nat} (last : Option Handle) (valid : c.Valid (A ++ t :: C))
    (fuel : C.length ≤ n) :
    ∃ d, eraseUntil t last n c = .ok d ∧
      d.Valid (A ++ t :: C.dropWhile fun k => some k ≠ last) := by
  induction C generalizing c n with
  | nil =>
      refine ⟨c, ?_, valid⟩
      unfold eraseUntil
      rw [valid.next_ok]
      rfl
  | cons h C ih =>
      obtain ⟨n, rfl, enough⟩ := exists_fuel fuel
      unfold eraseUntil
      rw [valid.next_ok]
      by_cases stop : some h = last
      · refine ⟨c, ?_, by simpa [stop] using valid⟩
        simp only [List.head?_cons, ok_bind, if_pos stop]
        rfl
      · obtain ⟨d, ok, same, view, validD⟩ := deleteNext_ok valid
        obtain ⟨e, okE, validE⟩ := ih validD enough
        refine ⟨e, ?_, by simpa [stop] using validE⟩
        simp only [List.head?_cons, ok_bind, if_neg stop, ok]
        exact okE

theorem eraseRange_ok (last : Option Handle) (valid : c.Valid (A ++ t :: C)) :
    ∃ d, c.eraseRange (some t) last = .ok d ∧
      d.Valid (A ++ t :: C.dropWhile fun k => some k ≠ last) := by
  refine eraseUntil_ok last valid ?_
  have all := valid.length_lt_stepLimit
  simp only [List.length_append, List.length_cons] at all
  omega

end TokenStream.Chain
