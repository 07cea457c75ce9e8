import TokenStream.Proofs.Chain.History
/-!
Nodes erased one by one behind a node that stays. What the whole run takes away is the sum of what
its rounds take away: the nodes, their tokens, and every link with an end at one of them. Where the
run ends is known from the start, as the nodes that come before its end are those that are erased.
-/
namespace TokenStream.Chain

open Function (update update_apply)

variable {c d e : Chain} {A B C D : List Handle} {first h x : Handle} {last : Option Handle}

/-! ### One node after the other -/

/-- The chain `d` has the tokens and the links of `c`, except for those of these nodes. -/
structure Lacks (c d : Chain) (erased : List Handle) : Prop where
  tokens : ∀ k, d.view.token? k = if k ∈ erased then none else c.view.token? k
  links : ∀ a b, d.view.partner a = some b ↔
    c.view.partner a = some b ∧ a ∉ erased ∧ b ∉ erased

namespace Lacks

theorem refl (c : Chain) : c.Lacks c [] where
  tokens k := by rw [if_neg List.not_mem_nil]
  links a b := by simp

theorem trans (before : c.Lacks d B) (after : d.Lacks e C) : c.Lacks e (B ++ C) where
  tokens k := by
    rw [after.tokens, before.tokens]
    by_cases later : k ∈ C
    · simp [later]
    · simp [later]
  links a b := by
    rw [after.links, before.links, List.mem_append, List.mem_append, not_or, not_or]
    constructor
    · rintro ⟨⟨link, notB, notB'⟩, notC, notC'⟩
      exact ⟨link, ⟨notB, notC⟩, notB', notC'⟩
    · rintro ⟨link, ⟨notB, notC⟩, notB', notC'⟩
      exact ⟨⟨link, notB, notB'⟩, notC, notC'⟩

end Lacks

theorem deleteNext_lacks (valid : c.Valid (A ++ h :: x :: C)) :
    ∃ d, c.deleteNext h = .ok d ∧ d.Valid (A ++ h :: C) ∧ c.Lacks d [x] := by
  obtain ⟨d, ok, same, view, validD⟩ := deleteNext_ok valid
  have live : d.contains x = true := (same.contains_eq x).trans (valid.live (by simp))
  have cut (a b : Handle) :
      d.view.partner a = some b ↔ c.view.partner a = some b ∧ a ≠ x ∧ b ≠ x := by
    have stitched : (c.view.stitch (some h) C.head?).partner = c.view.partner := rfl
    rw [view, View.partner_unlink_eq_some_iff, stitched, ← View.partner_unlink_eq_some_iff,
      valid.sound.partner_unlink]
  refine ⟨d.release x, ok, validD, fun k => ?_, fun a b => ?_⟩
  · rw [view_release live, View.token?_drop, view, View.token?_unlink, View.token?_stitch,
      update_apply]
    simp only [List.mem_singleton]
  · have dropped : (d.release x).view.partner = update d.view.partner x none := by
      rw [view_release live]
      rfl
    rw [dropped, update_apply, List.mem_singleton, List.mem_singleton]
    split
    next here => simp [here]
    next other => exact cut a b

/-- A run takes away what comes next, up to the node that is to end it. -/
theorem eraseUntil_lacks {n : Nat} (valid : c.Valid (A ++ h :: C))
    (ok : eraseUntil h last n c = .ok d) : c.Lacks d (C.takeWhile fun k => some k ≠ last) := by
  induction C generalizing c n with
  | nil =>
      unfold eraseUntil at ok
      rw [valid.next_ok] at ok
      cases ok
      exact .refl _
  | cons x C ih =>
      unfold eraseUntil at ok
      rw [valid.next_ok] at ok
      by_cases stop : some x = last
      · simp only [List.head?_cons, ok_bind, if_pos stop] at ok
        cases ok
        rw [List.takeWhile_cons_of_neg (by simpa using stop)]
        exact .refl _
      · simp only [List.head?_cons, ok_bind, if_neg stop] at ok
        cases n with
        | zero => cases ok
        | succ n =>
            obtain ⟨c₁, deleted, ok⟩ := exists_of_bind_eq_ok ok
            obtain ⟨c₂, done, validC, lacks⟩ := deleteNext_lacks valid
            obtain rfl : c₁ = c₂ := Except.ok.inj (deleted.symm.trans done)
            rw [List.takeWhile_cons_of_pos (by simpa using stop)]
            exact lacks.trans (ih validC ok)

/-! ### The whole run -/

/-- The chain `d` is `c` after the nodes `erased`, which came next after `first`, were removed, in
this order now. -/
structure Erases (c d : Chain) (first : Handle) (erased order : List Handle) : Prop where
  valid : d.Valid order
  front : d.front = c.front
  back : d.back = if c.back ∈ erased.map some then some first else c.back
  live : d.live + erased.length = c.live
  stale : ∀ k ∈ erased, d.contains k = false
  handles : ∀ k, k ∉ erased → d.contains k = c.contains k
  tokens : ∀ k, k ∉ erased → d.token? k = c.token? k
  left : ∀ k, k ∉ erased → ∀ p ∈ erased, c.link k = .ok (some p) → d.link k = .ok none
  links : ∀ k, k ∉ erased → (∀ p ∈ erased, c.link k ≠ .ok (some p)) → d.link k = c.link k

/-- Where the last node is one of those that go, `first` is left as the last one. -/
theorem getLast?_of_erased (nodup : (B ++ D).Nodup) :
    (A ++ first :: D).getLast? =
      if (A ++ first :: (B ++ D)).getLast? ∈ B.map some then some first
      else (A ++ first :: (B ++ D)).getLast? := by
  rcases List.eq_nil_or_concat D with rfl | ⟨D, x, rfl⟩
  · rcases List.eq_nil_or_concat B with rfl | ⟨B, b, rfl⟩
    · simp
    · have split : A ++ first :: (B.concat b ++ []) = (A ++ first :: B) ++ [b] := by simp
      rw [split, List.getLast?_concat, List.getLast?_concat, if_pos (by simp)]
  · rw [List.concat_eq_append] at nodup ⊢
    have kept : x ∉ B := fun mem => (List.nodup_append'.1 nodup).2.2 mem (by simp)
    have now : A ++ first :: (D ++ [x]) = (A ++ first :: D) ++ [x] := by simp
    have before : A ++ first :: (B ++ (D ++ [x])) = (A ++ first :: (B ++ D)) ++ [x] := by simp
    rw [now, before, List.getLast?_concat, List.getLast?_concat, if_neg (by simpa using kept)]

theorem Lacks.erases (lacks : c.Lacks d B) (valid : c.Valid (A ++ first :: (B ++ D)))
    (validD : d.Valid (A ++ first :: D)) : c.Erases d first B (A ++ first :: D) := by
  have nodup : (B ++ D).Nodup := by
    have nodup := (List.nodup_append.1 valid.sound.nodup).2.1
    exact (List.nodup_cons.1 nodup).2
  have handles {k : Handle} (kept : k ∉ B) : d.contains k = c.contains k := by
    rw [contains_eq_isSome_token?, contains_eq_isSome_token?, lacks.tokens, if_neg kept]
  refine ⟨validD, ?_, ?_, ?_, ?_, fun k => handles, ?_, ?_, ?_⟩
  · have frontD : d.front = (A ++ first :: D).head? := validD.sound.ring.next_none
    have frontC : c.front = (A ++ first :: (B ++ D)).head? := valid.sound.ring.next_none
    rw [frontD, frontC]
    cases A <;> rfl
  · have backD : d.back = (A ++ first :: D).getLast? := validD.sound.ring.prev_none
    have backC : c.back = (A ++ first :: (B ++ D)).getLast? := valid.sound.ring.prev_none
    rw [backD, backC, getLast?_of_erased nodup]
  · rw [← validD.length_eq_live, ← valid.length_eq_live]
    simp only [List.length_append, List.length_cons]
    omega
  · intro k mem
    rw [contains_eq_isSome_token?, lacks.tokens, if_pos mem]
    rfl
  · intro k kept
    exact (lacks.tokens k).trans (if_neg kept)
  · intro k kept p mem link
    rw [link_eq_some_iff] at link
    refine link_ok_none ((handles kept).trans (live_of_partner link)) fun b there => ?_
    obtain ⟨old, -, stays⟩ := (lacks.links k b).1 there
    rw [link, Option.some.injEq] at old
    exact stays (old ▸ mem)
  · intro k kept other
    refine link_congr (handles kept) fun b => ?_
    rw [lacks.links]
    constructor
    · exact fun there => there.1
    · exact fun link => ⟨link, kept, fun mem => other b mem (link_eq_some_iff.2 link)⟩

theorem eraseRange_erases (last : Option Handle) (valid : c.Valid (A ++ first :: C)) :
    ∃ d, c.eraseRange (some first) last = .ok d ∧
      c.Erases d first (C.takeWhile fun k => some k ≠ last)
        (A ++ first :: C.dropWhile fun k => some k ≠ last) := by
  obtain ⟨d, ok, validD⟩ := eraseRange_ok last valid
  have lacks := eraseUntil_lacks valid ok
  rw [← List.takeWhile_append_dropWhile (p := fun k => some k ≠ last) (l := C)] at valid
  exact ⟨d, ok, lacks.erases valid validD⟩

/-- Erasing what is between two nodes removes just that, and where the second is no node behind the
first one, all that is behind the first one. The nodes that stay keep their order, handles, tokens
and links, other than the links to nodes that are gone. -/
theorem eraseRange_exact (valid : c.Valid (A ++ first :: C)) :
    (∀ B z D, C = B ++ z :: D → ∃ d, c.eraseRange (some first) (some z) = .ok d ∧
      c.Erases d first B (A ++ first :: z :: D)) ∧
    ∀ last, (∀ z, last = some z → z ∉ C) → ∃ d, c.eraseRange (some first) last = .ok d ∧
      c.Erases d first C (A ++ [first]) := by
  constructor
  · rintro B z D rfl
    have nodup := (List.nodup_cons.1 (List.nodup_append.1 valid.sound.nodup).2.1).2
    have before : ∀ k ∈ B, decide (some k ≠ some z) = true := by
      intro k mem
      have ne : k ≠ z := fun same =>
        (List.nodup_append'.1 nodup).2.2 mem (same ▸ List.mem_cons_self)
      simpa using ne
    have erases := eraseRange_erases (some z) valid
    rwa [List.takeWhile_append_of_pos before, List.dropWhile_append_of_pos before,
      List.takeWhile_cons_of_neg (by simp), List.dropWhile_cons_of_neg (by simp),
      List.append_nil] at erases
  · intro last absent
    have all : ∀ k ∈ C, decide (some k ≠ last) = true := by
      intro k mem
      exact decide_eq_true fun same => absent k same.symm mem
    have erases := eraseRange_erases last valid
    rwa [List.takeWhile_eq_self_iff.2 all, List.dropWhile_eq_nil_iff.2 all] at erases

-- In `( x ) ;` the `)` goes with what is between `x` and `;`, and `(` is left without a partner.
-- The `(` is not behind the `x`, so up to there all that is behind the `x` goes.
theorem parenthesis_erased : ∃ c d e, History c ∧ c.link ⟨0, 0⟩ = .ok (some ⟨2, 0⟩) ∧
    c.eraseRange (some ⟨1, 0⟩) (some ⟨3, 0⟩) = .ok d ∧ d.Valid [⟨0, 0⟩, ⟨1, 0⟩, ⟨3, 0⟩] ∧
    d.contains ⟨2, 0⟩ = false ∧ d.link ⟨0, 0⟩ = .ok none ∧ d.back = some ⟨3, 0⟩ ∧
    c.eraseRange (some ⟨1, 0⟩) (some ⟨0, 0⟩) = .ok e ∧ e.Valid [⟨0, 0⟩, ⟨1, 0⟩] ∧
    e.back = some ⟨1, 0⟩ := by
  have h₁ : History _ := .edit (e := .push "(" 1 0) .start (show "(" ≠ "" by decide) rfl
  have h₂ : History _ := .edit (e := .push "x" 1 0) h₁ (show "x" ≠ "" by decide) rfl
  have h₃ : History _ := .edit (e := .push ")" 1 0) h₂ (show ")" ≠ "" by decide) rfl
  have h₄ : History _ := .edit (e := .push ";" 1 0) h₃ (show ";" ≠ "" by decide) rfl
  have h₅ : History _ := .edit (e := .linkPair ⟨0, 0⟩ ⟨2, 0⟩) h₄ ⟨by decide, rfl, rfl⟩ rfl
  obtain ⟨order, valid⟩ := h₅.valid
  obtain rfl : order = [⟨0, 0⟩, ⟨1, 0⟩, ⟨2, 0⟩, ⟨3, 0⟩] := valid.order_eq rfl
  obtain ⟨between, behind⟩ :=
    eraseRange_exact (A := [⟨0, 0⟩]) (C := [⟨2, 0⟩, ⟨3, 0⟩]) valid
  obtain ⟨d, okD, part⟩ := between [⟨2, 0⟩] ⟨3, 0⟩ [] rfl
  obtain ⟨e, okE, rest⟩ := behind (some ⟨0, 0⟩) (by decide)
  exact ⟨_, d, e, h₅, rfl, okD, part.valid, part.stale ⟨2, 0⟩ (by decide),
    part.left ⟨0, 0⟩ (by decide) ⟨2, 0⟩ (by decide) rfl, part.back, okE, rest.valid, rest.back⟩

end TokenStream.Chain
