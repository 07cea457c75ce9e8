import TokenStream.Proofs.Chain.History
/-!
Bracket links that are set and dropped. A node has one partner at most, so a new pair takes its two
nodes away from the partners that they had. The pairs of all other nodes stay, and so does all that
a chain shows besides its links.
-/
namespace TokenStream.Chain

variable {c d : Chain} {order : List Handle} {a b h : Handle}

/-- The chain `d` shows what `c` shows, except for the links. -/
structure Relinked (c d : Chain) : Prop where
  handles : ∀ k, d.contains k = c.contains k
  tokens : ∀ k, d.token? k = c.token? k
  next : ∀ k, d.next k = c.next k
  previous : ∀ k, d.previous k = c.previous k
  front : d.front = c.front
  back : d.back = c.back
  live : d.live = c.live

theorem relinked_of_view (same : SameStorage c d) (next : d.view.next = c.view.next)
    (prev : d.view.prev = c.view.prev) (tokens : d.view.token? = c.view.token?) :
    c.Relinked d where
  handles := same.contains_eq
  tokens := congrFun tokens
  next k := by
    cases live : c.contains k with
    | false => rw [next_stale live, next_stale ((same.contains_eq k).trans live)]
    | true => rw [next_ok live, next_ok ((same.contains_eq k).trans live), next]
  previous k := by
    cases live : c.contains k with
    | false =>
        rw [Chain.previous, Chain.previous, node_stale live,
          node_stale ((same.contains_eq k).trans live)]
    | true => rw [previous_ok live, previous_ok ((same.contains_eq k).trans live), prev]
  front := congrFun next none
  back := congrFun prev none
  live := same.live_eq

/-! ### A pair is made -/

/-- The chain `d` is `c` after `a` and `b` were made partners. -/
structure Pairs (c d : Chain) (a b : Handle) : Prop where
  rest : c.Relinked d
  links : ∀ h k, d.link h = .ok (some k) ↔
    (c.link h = .ok (some k) ∧ (h ≠ a ∧ k ≠ a) ∧ h ≠ b ∧ k ≠ b) ∨ h = a ∧ k = b ∨ h = b ∧ k = a

theorem linkPair_pairs (sound : c.view.Sound order) (liveA : c.contains a = true)
    (liveB : c.contains b = true) (ne : a ≠ b) :
    ∃ d, c.linkPair a b = .ok d ∧ d.view.Sound order ∧ c.Pairs d a b := by
  obtain ⟨d, ok, same, view⟩ := yields_linkPair sound ne liveA liveB
  have member {k : Handle} (live : c.contains k = true) : k ∈ order := by
    rw [contains_eq_isSome_token?] at live
    exact (sound.mem_iff k).2 live
  refine ⟨d, ok, view ▸ sound.linkPair ne (member liveA) (member liveB), ?_, ?_⟩
  · exact relinked_of_view same (by rw [view]; rfl) (by rw [view]; rfl) (by rw [view]; rfl)
  · intro h k
    rw [link_eq_some_iff, link_eq_some_iff, view]
    exact sound.partner_linkPair ne

/-! ### A pair is parted -/

/-- The chain `d` is `c` after `a` and its partner, if it had one, were parted. Parting them once
more, from either end, changes nothing. -/
structure Parts (c d : Chain) (a : Handle) : Prop where
  rest : c.Relinked d
  links : ∀ h k, d.link h = .ok (some k) ↔ c.link h = .ok (some k) ∧ h ≠ a ∧ k ≠ a
  again : d.unlink a = .ok d
  other : ∀ p, c.link a = .ok (some p) → d.unlink p = .ok d

theorem unlink_of_loose (loose : c.link h = .ok none) : c.unlink h = .ok c := by
  obtain ⟨n, found, free⟩ := exists_of_bind_eq_ok loose
  have free : n.link = none := Except.ok.inj free
  simp only [unlink, found, ok_bind, free]
  rfl

theorem unlink_parts (sound : c.view.Sound order) (live : c.contains a = true) :
    ∃ d, c.unlink a = .ok d ∧ d.view.Sound order ∧ c.Parts d a := by
  have back {h k : Handle} (link : c.view.partner h = some k) :
      k ≠ h ∧ c.view.partner k = some h :=
    ⟨(sound.linked h k link).1, (sound.linked h k link).2.2⟩
  obtain ⟨d, ok, same, view⟩ := yields_unlink live fun k => back
  have links (h k : Handle) :
      d.link h = .ok (some k) ↔ c.link h = .ok (some k) ∧ h ≠ a ∧ k ≠ a := by
    rw [link_eq_some_iff, link_eq_some_iff, view]
    exact sound.partner_unlink
  have loose {h : Handle} (there : c.contains h = true) (cut : ∀ k, d.link h ≠ .ok (some k)) :
      d.link h = .ok none := by
    refine link_ok_none ((same.contains_eq h).trans there) fun k link => ?_
    exact cut k (link_eq_some_iff.2 link)
  refine ⟨d, ok, view ▸ sound.unlink a, ?_, links, ?_, ?_⟩
  · exact relinked_of_view same (by rw [view]; rfl) (by rw [view]; rfl) (by rw [view]; rfl)
  · exact unlink_of_loose (loose live fun k link => ((links a k).1 link).2.1 rfl)
  · intro p link
    rw [link_eq_some_iff] at link
    -- the partner of `a` had no other partner
    refine unlink_of_loose (loose (live_of_partner (back link).2) fun k left => ?_)
    obtain ⟨old, -, notA⟩ := (links p k).1 left
    rw [link_eq_some_iff, (back link).2, Option.some.injEq] at old
    exact notA old.symm

/-- Setting a link drops the pairs of its two nodes and adds one, dropping a link drops one pair,
and nothing else that a chain shows is changed by either. -/
theorem relink_exact (sound : c.view.Sound order) :
    (∀ a b, c.contains a = true → c.contains b = true → a ≠ b →
      ∃ d, c.linkPair a b = .ok d ∧ d.view.Sound order ∧ c.Pairs d a b) ∧
    ∀ a, c.contains a = true →
      ∃ d, c.unlink a = .ok d ∧ d.view.Sound order ∧ c.Parts d a :=
  ⟨fun _ _ => linkPair_pairs sound, fun _ => unlink_parts sound⟩

-- In `( ) [ ]` the outer two become partners, and the inner two are left alone.
theorem outer_paired : ∃ c d, History c ∧ c.link ⟨0, 0⟩ = .ok (some ⟨1, 0⟩) ∧
    c.link ⟨2, 0⟩ = .ok (some ⟨3, 0⟩) ∧ c.linkPair ⟨0, 0⟩ ⟨3, 0⟩ = .ok d ∧
    d.link ⟨3, 0⟩ = .ok (some ⟨0, 0⟩) ∧ d.link ⟨1, 0⟩ ≠ .ok (some ⟨0, 0⟩) ∧
    d.link ⟨2, 0⟩ ≠ .ok (some ⟨3, 0⟩) := by
  have h₁ : History _ := .edit (e := .push "(" 1 0) .start (show "(" ≠ "" by decide) rfl
  have h₂ : History _ := .edit (e := .push ")" 1 0) h₁ (show ")" ≠ "" by decide) rfl
  have h₃ : History _ := .edit (e := .push "[" 1 0) h₂ (show "[" ≠ "" by decide) rfl
  have h₄ : History _ := .edit (e := .push "]" 1 0) h₃ (show "]" ≠ "" by decide) rfl
  have h₅ : History _ := .edit (e := .linkPair ⟨0, 0⟩ ⟨1, 0⟩) h₄ ⟨by decide, rfl, rfl⟩ rfl
  have h₆ : History _ := .edit (e := .linkPair ⟨2, 0⟩ ⟨3, 0⟩) h₅ ⟨by decide, rfl, rfl⟩ rfl
  obtain ⟨order, valid⟩ := h₆.valid
  obtain ⟨d, ok, -, pairs⟩ :=
    (relink_exact valid.sound).1 ⟨0, 0⟩ ⟨3, 0⟩ rfl rfl (by decide)
  refine ⟨_, d, h₆, rfl, rfl, ok, ?_, ?_, ?_⟩
  · rw [pairs.links]
    exact .inr (.inr ⟨rfl, rfl⟩)
  · rw [ne_eq, pairs.links]
    decide
  · rw [ne_eq, pairs.links]
    decide

end TokenStream.Chain
