import TokenStream.Proofs.Chain.History
/-!
A token that is removed while its handle stays. The handle takes over the node that came next: it
has that node's token and bracket from then on, and the chain shows, place by place, what it showed
without the removed token. The last token of a chain has no next one, and becomes a semicolon.
-/
namespace TokenStream.Chain

open Function (update update_self update_of_ne)

variable {c d : Chain} {order A C : List Handle} {h x : Handle}

/-! ### Texts and links by place -/

/-- The texts of these nodes in order. -/
def textsOf (c : Chain) (order : List Handle) : List String :=
  (order.filterMap c.token?).map (·.text)

/-- Two chains show the same texts and links where each node stands for one of the other chain. -/
theorem same_by_place {f : Handle → Handle}
    (text : ∀ k ∈ order, (d.token? k).map (·.text) = (c.token? (f k)).map (·.text))
    (link : ∀ a ∈ order, ∀ b ∈ order,
      d.view.partner a = some b ↔ c.view.partner (f a) = some (f b)) :
    d.textsOf order = c.textsOf (order.map f) ∧
      ∀ i j, d.LinksTo order i j ↔ c.LinksTo (order.map f) i j := by
  constructor
  · simp only [textsOf, List.map_filterMap, List.filterMap_map]
    exact List.filterMap_congr text
  · intro i j
    simp only [LinksTo, link_eq_some_iff, List.getElem?_map, Option.map_eq_some_iff]
    constructor
    · rintro ⟨a, b, atI, atJ, linked⟩
      have linked := (link a (List.mem_of_getElem? atI) b (List.mem_of_getElem? atJ)).1 linked
      exact ⟨f a, f b, ⟨a, atI, rfl⟩, ⟨b, atJ, rfl⟩, linked⟩
    · rintro ⟨-, -, ⟨a, atI, rfl⟩, ⟨b, atJ, rfl⟩, linked⟩
      exact ⟨a, b, atI, atJ,
        (link a (List.mem_of_getElem? atI) b (List.mem_of_getElem? atJ)).2 linked⟩

/-! ### The handle takes over its successor -/

/-- The node that a handle stood for before `h` took over the node `x`. -/
def standsFor (h x k : Handle) : Handle :=
  if k = h then x else k

theorem standsFor_self (h x : Handle) : standsFor h x h = x := if_pos rfl

theorem standsFor_of_ne {k : Handle} (ne : k ≠ h) : standsFor h x k = k := if_neg ne

theorem standsFor_ne (ne : x ≠ h) (k : Handle) : standsFor h x k ≠ h := by
  unfold standsFor
  split
  · exact ne
  · assumption

theorem map_standsFor (nodup : (A ++ h :: C).Nodup) :
    (A ++ h :: C).map (standsFor h x) = A ++ x :: C := by
  have outside : h ∉ A ++ C := (List.nodup_middle.1 nodup).notMem
  have same {B : List Handle} (sub : ∀ k ∈ B, k ∈ A ++ C) : B.map (standsFor h x) = B := by
    refine (List.map_congr_left fun k mem => standsFor_of_ne ?_).trans (List.map_id B)
    rintro rfl
    exact outside (sub k mem)
  rw [List.map_append, List.map_cons, standsFor_self, same fun k => List.mem_append_left C,
    same fun k => List.mem_append_right A]

/-- Between the nodes that stay, the links are those between the nodes they stand for. -/
theorem partner_absorbed {v : View} (sound : v.Sound order) (ne : x ≠ h) (t u : Token)
    {a b : Handle} (neA : a ≠ x) (neB : b ≠ x) :
    (absorbed v h x t u).partner a = some b ↔
      v.partner (standsFor h x a) = some (standsFor h x b) := by
  have back {a b : Handle} (link : v.partner a = some b) : b ≠ a ∧ v.partner b = some a :=
    ⟨(sound.linked a b link).1, (sound.linked a b link).2.2⟩
  have rest (a b : Handle) :
      (((v.unlink h).unlink x).put h { u with progress := t.progress }).partner a = some b ↔
        (v.partner a = some b ∧ a ≠ h ∧ b ≠ h) ∧ a ≠ x ∧ b ≠ x := by
    rw [View.partner_put, (sound.unlink h).partner_unlink, sound.partner_unlink]
  unfold absorbed standsFor
  generalize ((v.unlink h).unlink x).put h { u with progress := t.progress } = w at rest ⊢
  cases taken : (v.partner x).filter (· ≠ h) with
  | none =>
      rw [Option.filter_eq_none_iff] at taken
      simp only [rest]
      grind
  | some p =>
      obtain ⟨link, other⟩ := Option.filter_eq_some_iff.1 taken
      have loose {k : Handle} (cut : k = h ∨ k = p) : w.partner k = none := by
        refine Option.eq_none_iff_forall_ne_some.2 fun b there => ?_
        have kept := (rest k b).1 there
        grind
      dsimp only
      rw [View.partner_linkPair_eq_some_iff (Ne.symm (by simpa using other)) (loose (.inl rfl))
        (loose (.inr rfl)), rest]
      grind

theorem token?_absorbed (v : View) (h x : Handle) (t u : Token) :
    (absorbed v h x t u).token? =
      update v.token? h (some { u with progress := t.progress }) := by
  unfold absorbed
  cases (v.partner x).filter (· ≠ h) with
  | none => rfl
  | some p => rfl

theorem successor_ne (valid : c.Valid (A ++ h :: x :: C)) : x ≠ h := by
  have nodup := (List.nodup_append.1 valid.sound.nodup).2.1
  rintro rfl
  exact (List.nodup_cons.1 nodup).1 List.mem_cons_self

/-- The chain `d` shows what `c` shows, but with the token `moved` under `h` and nothing under `x`.
Each handle has the links of the node that it stands for. -/
structure StandsIn (c d : Chain) (h x : Handle) (moved : Token) : Prop where
  tokens : d.view.token? = update (update c.view.token? h (some moved)) x none
  links : ∀ a b, d.view.partner a = some b ↔
    (a ≠ x ∧ b ≠ x) ∧ c.view.partner (standsFor h x a) = some (standsFor h x b)

theorem deleteThis_standsIn (valid : c.Valid (A ++ h :: x :: C)) {t u : Token}
    (foundH : c.view.token? h = some t) (foundX : c.view.token? x = some u) :
    ∃ d, c.deleteThis h = .ok d ∧ d.Valid (A ++ h :: C) ∧
      c.StandsIn d h x { u with progress := t.progress } := by
  have ne := successor_ne valid
  obtain ⟨d, taken, -, validD, viewD⟩ := deleteThis_ok valid foundH foundX
  obtain ⟨e, ok, sameE, viewE, validE⟩ := deleteNext_ok validD
  have live : e.contains x = true := (sameE.contains_eq x).trans (validD.live (by simp))
  have links : (e.release x).view.partner = update (d.view.unlink x).partner x none := by
    rw [view_release live, viewE]
    rfl
  refine ⟨e.release x, taken.trans ok, validE, ?_, fun a b => ?_⟩
  · rw [view_release live, View.token?_drop, viewE, View.token?_unlink, View.token?_stitch, viewD,
      token?_absorbed]
  · rw [links]
    by_cases atX : a = x
    · subst atX
      simp
    · rw [update_of_ne atX, validD.sound.partner_unlink, viewD, and_comm]
      exact and_congr_right fun away => partner_absorbed valid.sound ne t u away.1 away.2

namespace StandsIn

variable {moved : Token} (stands : c.StandsIn d h x moved)
include stands

theorem token_self (ne : x ≠ h) : d.token? h = some moved := by
  refine (congrFun stands.tokens h).trans ?_
  rw [update_of_ne ne.symm, update_self]

theorem token_of_ne {k : Handle} (neH : k ≠ h) (neX : k ≠ x) : d.token? k = c.token? k := by
  refine (congrFun stands.tokens k).trans ?_
  rw [update_of_ne neX, update_of_ne neH]
  rfl

theorem stale : d.contains x = false := by
  rw [contains_eq_isSome_token?, stands.tokens, update_self]
  rfl

theorem link_kept {k : Handle} (neH : k ≠ h) (neX : k ≠ x) (notH : c.link k ≠ .ok (some h))
    (notX : c.link k ≠ .ok (some x)) : d.link k = c.link k := by
  have live : d.contains k = c.contains k := by
    rw [contains_eq_isSome_token?, contains_eq_isSome_token?]
    exact congrArg Option.isSome (stands.token_of_ne neH neX)
  rw [ne_eq, link_eq_some_iff] at notH notX
  refine link_congr live fun b => ?_
  rw [stands.links, standsFor_of_ne neH]
  constructor
  · rintro ⟨-, old⟩
    rwa [standsFor_of_ne] at old
    rintro rfl
    exact notX (standsFor_self b x ▸ old)
  · intro old
    have neB : b ≠ h := by rintro rfl; exact notH old
    have away : b ≠ x := by rintro rfl; exact notX old
    rw [standsFor_of_ne neB]
    exact ⟨⟨neX, away⟩, old⟩

variable (valid : c.Valid (A ++ h :: x :: C)) (validD : d.Valid (A ++ h :: C))
include valid validD

theorem link_taken {p : Handle} (ne : p ≠ h) (link : c.link x = .ok (some p)) :
    d.link h = .ok (some p) ∧ d.link p = .ok (some h) := by
  rw [link_eq_some_iff] at link
  have neX : p ≠ x := (valid.mutual_link x p link).1
  have forth : d.view.partner h = some p := by
    rw [stands.links, standsFor_self, standsFor_of_ne ne]
    exact ⟨⟨(successor_ne valid).symm, neX⟩, link⟩
  exact ⟨link_eq_some_iff.2 forth, link_eq_some_iff.2 (validD.mutual_link h p forth).2⟩

theorem link_loose (link : c.link h = .ok (some x) ∨ c.link x = .ok none) :
    d.link h = .ok none := by
  rw [link_eq_some_iff, link_ok (valid.live (h := x) (by simp)), Except.ok.injEq] at link
  refine link_ok_none (validD.live (by simp)) fun b there => ?_
  obtain ⟨-, old⟩ := (stands.links h b).1 there
  rw [standsFor_self] at old
  rcases link with inner | none
  · rw [(valid.mutual_link h x inner).2, Option.some.injEq] at old
    exact standsFor_ne (successor_ne valid) b old.symm
  · rw [none] at old
    cases old

theorem link_left {q : Handle} (ne : q ≠ x) (link : c.link h = .ok (some q)) :
    d.link q = .ok none := by
  rw [link_eq_some_iff] at link
  obtain ⟨neH, back⟩ := valid.mutual_link h q link
  have mem : q ∈ A ++ h :: C := by
    have mem := (valid.sound.linked h q link).2.1
    simpa [ne, neH] using mem
  refine link_ok_none (validD.live mem) fun b there => ?_
  obtain ⟨-, old⟩ := (stands.links q b).1 there
  rw [standsFor_of_ne neH, back, Option.some.injEq] at old
  exact standsFor_ne (successor_ne valid) b old.symm

omit valid in
/-- Place by place, the chain shows the nodes that its handles stand for. -/
theorem shown_by_place (ne : x ≠ h)
    (text : (c.token? x).map (·.text) = some moved.text) :
    d.textsOf (A ++ h :: C) = c.textsOf (A ++ x :: C) ∧
      ∀ i j, d.LinksTo (A ++ h :: C) i j ↔ c.LinksTo (A ++ x :: C) i j := by
  have away {k : Handle} (mem : k ∈ A ++ h :: C) : k ≠ x := by
    rintro rfl
    exact absurd (validD.live mem) (by simp [stands.stale])
  rw [← map_standsFor (x := x) validD.sound.nodup]
  refine same_by_place (fun k mem => ?_) fun a memA b memB => ?_
  · by_cases same : k = h
    · subst same
      rw [standsFor_self, stands.token_self ne, text]
      rfl
    · rw [standsFor_of_ne same, stands.token_of_ne same (away mem)]
  · rw [stands.links a b, and_iff_right ⟨away memA, away memB⟩]

end StandsIn

/-- The chain `d` is `c` after `h` took over the node `x` that came next. -/
structure Absorbs (c d : Chain) (A C : List Handle) (h x : Handle) : Prop where
  valid : d.Valid (A ++ h :: C)
  stale : d.contains x = false
  token : ∃ t u, c.token? h = some t ∧ c.token? x = some u ∧
    d.token? h = some { u with progress := t.progress }
  tokens : ∀ k, k ≠ h → k ≠ x → d.token? k = c.token? k
  taken : ∀ p, p ≠ h → c.link x = .ok (some p) → d.link h = .ok (some p) ∧ d.link p = .ok (some h)
  loose : c.link h = .ok (some x) ∨ c.link x = .ok none → d.link h = .ok none
  left : ∀ q, q ≠ x → c.link h = .ok (some q) → d.link q = .ok none
  links : ∀ k, k ≠ h → k ≠ x → c.link k ≠ .ok (some h) → c.link k ≠ .ok (some x) →
    d.link k = c.link k
  texts : d.textsOf (A ++ h :: C) = c.textsOf (A ++ x :: C)
  places : ∀ i j, d.LinksTo (A ++ h :: C) i j ↔ c.LinksTo (A ++ x :: C) i j

theorem deleteThis_absorbs (valid : c.Valid (A ++ h :: x :: C)) :
    ∃ d, c.deleteThis h = .ok d ∧ c.Absorbs d A C h x := by
  obtain ⟨t, foundH⟩ := valid.exists_token (h := h) (by simp)
  obtain ⟨u, foundX⟩ := valid.exists_token (h := x) (by simp)
  obtain ⟨d, ok, validD, stands⟩ := deleteThis_standsIn valid foundH foundX
  have ne := successor_ne valid
  obtain ⟨texts, places⟩ := stands.shown_by_place validD ne (congrArg _ foundX)
  exact ⟨d, ok, validD, stands.stale, ⟨t, u, foundH, foundX, stands.token_self ne⟩,
    fun k => stands.token_of_ne, fun p => stands.link_taken valid validD,
    stands.link_loose valid validD, fun q => stands.link_left valid validD,
    fun k => stands.link_kept, texts, places⟩

/-! ### The last token becomes a semicolon -/

theorem getElem?_concat_of_ne {k : Handle} (ne : k ≠ h) (i : Nat) :
    (A ++ [h])[i]? = some k ↔ A[i]? = some k := by
  rw [List.getElem?_append]
  split
  · rfl
  next beyond =>
    rw [List.getElem?_eq_none (Nat.not_lt.1 beyond)]
    cases i - A.length with
    | zero => simp [ne.symm]
    | succ n => simp

theorem linksTo_concat_of_dropped
    (dropped : ∀ a b, d.view.partner a = some b ↔ c.view.partner a = some b ∧ a ≠ h ∧ b ≠ h)
    (absent : h ∉ A) (i j : Nat) : d.LinksTo (A ++ [h]) i j ↔ c.LinksTo A i j := by
  have inside {k : Handle} {i : Nat} (here : A[i]? = some k) : k ≠ h := by
    rintro rfl
    exact absent (List.mem_of_getElem? here)
  simp only [LinksTo, link_eq_some_iff]
  constructor
  · rintro ⟨a, b, atI, atJ, link⟩
    obtain ⟨old, neA, neB⟩ := (dropped a b).1 link
    exact ⟨a, b, (getElem?_concat_of_ne neA i).1 atI, (getElem?_concat_of_ne neB j).1 atJ, old⟩
  · rintro ⟨a, b, atI, atJ, old⟩
    have neA := inside atI
    have neB := inside atJ
    exact ⟨a, b, (getElem?_concat_of_ne neA i).2 atI, (getElem?_concat_of_ne neB j).2 atJ,
      (dropped a b).2 ⟨old, neA, neB⟩⟩

/-- The chain `d` is `c` after its last token `h` became a semicolon. -/
structure Blanks (c d : Chain) (A : List Handle) (h : Handle) : Prop where
  valid : d.Valid (A ++ [h])
  token : ∃ t, c.token? h = some t ∧
    d.token? h = some
      { t with text := ";", nonempty := by decide, lexical := .ofText ";", varId := 0 }
  tokens : ∀ k, k ≠ h → d.token? k = c.token? k
  loose : d.link h = .ok none
  left : ∀ q, c.link h = .ok (some q) → d.link q = .ok none
  links : ∀ k, k ≠ h → c.link k ≠ .ok (some h) → d.link k = c.link k
  texts : d.textsOf (A ++ [h]) = c.textsOf A ++ [";"]
  places : ∀ i j, d.LinksTo (A ++ [h]) i j ↔ c.LinksTo A i j

theorem deleteThis_blanks (valid : c.Valid (A ++ [h])) :
    ∃ d, c.deleteThis h = .ok d ∧ c.Blanks d A h := by
  obtain ⟨t, found⟩ := valid.exists_token (h := h) (by simp)
  obtain ⟨d, ok, same, validD, view⟩ := deleteThis_tail valid found
  have dropped (a b : Handle) :
      d.view.partner a = some b ↔ c.view.partner a = some b ∧ a ≠ h ∧ b ≠ h := by
    rw [view, View.partner_put, valid.sound.partner_unlink]
  have tokens : d.token? = update c.token? h
      (some { t with text := ";", nonempty := by decide, lexical := .ofText ";", varId := 0 }) :=
    congrArg View.token? view
  have kept {k : Handle} (ne : k ≠ h) : d.token? k = c.token? k := by
    rw [tokens, update_of_ne ne]
  have absent : h ∉ A := fun mem =>
    (List.nodup_append'.1 valid.sound.nodup).2.2 mem List.mem_cons_self
  refine ⟨d, ok, validD, ⟨t, found, by rw [tokens, update_self]⟩, fun k => kept, ?_, ?_, ?_, ?_, ?_⟩
  · exact link_ok_none (validD.live (by simp)) fun b there => ((dropped h b).1 there).2.1 rfl
  · intro q link
    exact link_partner_of_dropped same.contains_eq dropped valid link
  · intro k ne notH
    exact link_of_dropped same.contains_eq dropped ne notH
  · have before : d.textsOf A = c.textsOf A := by
      unfold textsOf
      rw [List.filterMap_congr fun k mem => kept (ne_of_mem_of_not_mem mem absent)]
    rw [← before]
    simp [textsOf, tokens]
  · intro i j
    exact linksTo_concat_of_dropped dropped absent i j

/-- Removing a token by its handle gives the chain without that token, and the handle goes on with
the token and the link of the node that came next. At the end of a chain a semicolon is left. -/
theorem deleteThis_exact {rest : List Handle} (valid : c.Valid (A ++ h :: rest)) :
    ∃ d, c.deleteThis h = .ok d ∧
      match rest with
      | x :: C => c.Absorbs d A C h x
      | [] => c.Blanks d A h := by
  cases rest with
  | nil => exact deleteThis_blanks valid
  | cons x C => exact deleteThis_absorbs valid

-- In `[ ( ) ]` the outer bracket goes: its handle is linked to `)` from then on, and `]` to none.
theorem bracket_absorbed : ∃ c d, History c ∧ c.link ⟨0, 0⟩ = .ok (some ⟨3, 0⟩) ∧
    c.deleteThis ⟨0, 0⟩ = .ok d ∧ d.contains ⟨1, 0⟩ = false ∧
    d.link ⟨0, 0⟩ = .ok (some ⟨2, 0⟩) ∧ d.link ⟨3, 0⟩ = .ok none := by
  have h₁ : History _ := .edit (e := .push "[" 1 0) .start (show "[" ≠ "" by decide) rfl
  have h₂ : History _ := .edit (e := .push "(" 1 0) h₁ (show "(" ≠ "" by decide) rfl
  have h₃ : History _ := .edit (e := .push ")" 1 0) h₂ (show ")" ≠ "" by decide) rfl
  have h₄ : History _ := .edit (e := .push "]" 1 0) h₃ (show "]" ≠ "" by decide) rfl
  have h₅ : History _ := .edit (e := .linkPair ⟨0, 0⟩ ⟨3, 0⟩) h₄ ⟨by decide, rfl, rfl⟩ rfl
  have h₆ : History _ := .edit (e := .linkPair ⟨1, 0⟩ ⟨2, 0⟩) h₅ ⟨by decide, rfl, rfl⟩ rfl
  obtain ⟨order, valid⟩ := h₆.valid
  obtain ⟨rest, rfl⟩ := List.head?_eq_some_iff.1 (Eq.symm valid.sound.ring.next_none)
  obtain ⟨C, rfl⟩ := List.head?_eq_some_iff.1 (Except.ok.inj (Eq.symm (valid.next_ok (A := []))))
  obtain ⟨d, ok, absorbs⟩ := deleteThis_exact (A := []) valid
  exact ⟨_, d, h₆, rfl, ok, absorbs.stale, (absorbs.taken ⟨2, 0⟩ (by decide) rfl).1,
    absorbs.left ⟨3, 0⟩ (by decide) rfl⟩

end TokenStream.Chain
