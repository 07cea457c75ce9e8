import TokenStream.Proofs.Chain.Lifetime
import TokenStream.Proofs.Token.Literals
/-!
The lexical class of a token is set with its text and kept beside it. It never goes stale: what
every new token has and no change of a token takes away, all tokens have in every chain that edits
lead to, also where a token moves to another node or is joined with a literal.
-/
namespace TokenStream

namespace LexicalClass

theorem startsName_iff {s : List Char} :
    startsName s = true ↔ ∃ c rest, s = c :: rest ∧ (c = '_' ∨ c.isAlpha = true) := by
  cases s with
  | nil => simp [startsName]
  | cons c rest => simp [startsName]

theorem startsNumber_iff {s : List Char} :
    startsNumber s = true ↔
      ∃ c rest, (s = c :: rest ∨ s = '-' :: c :: rest) ∧ c.isDigit = true := by
  constructor
  · intro starts
    unfold startsNumber at starts
    split at starts
    next c rest => exact ⟨c, rest, .inr rfl, starts⟩
    next c rest _ => exact ⟨c, rest, .inl rfl, starts⟩
    · cases starts
  · rintro ⟨c, rest, rfl | rfl, digit⟩
    · unfold startsNumber
      split
      next same =>
        obtain ⟨rfl, -⟩ := List.cons.inj same
        cases digit
      next same =>
        obtain ⟨rfl, -⟩ := List.cons.inj same
        exact digit
      next empty => cases empty
    · exact digit

theorem boolean_ofText (text : String) :
    (ofText text).boolean = true ↔ text = "true" ∨ text = "false" := by
  simp [ofText]

/-- The quote at its start keeps a literal out of every class. -/
theorem ofText_literal (value : String) :
    ofText (Token.literal value) = { name := false, number := false, boolean := false } := by
  have chars := Token.toList_literal value
  have no_boolean : (ofText (Token.literal value)).boolean = false := by
    rw [← Bool.not_eq_true, boolean_ofText]
    rintro (same | same) <;> rw [same] at chars <;> cases chars
  rw [ofText, chars] at no_boolean ⊢
  exact congrArg _ no_boolean

end LexicalClass

namespace Token

/-- A property that every new token has and that no change of a token takes away. -/
structure Lasting (P : Token → Prop) : Prop where
  made : ∀ {text t}, Token.ofText text = .ok t → P t
  changed : ∀ {t u refused} change, P t → t.apply change = .ok (u, refused) → P u

variable {P : Token → Prop} {t u : Token} {text : String}

section
variable (lasting : Lasting P) (holds : P t)
include lasting holds

theorem Lasting.placed (line file : UInt32) : P { t with line, file } := by
  have lined : P { t with line } := lasting.changed (.line line) holds rfl
  exact lasting.changed (.file file) lined rfl

theorem Lasting.progress (progress : UInt32) : P { t with progress } :=
  lasting.changed (.progress progress) holds rfl

theorem Lasting.setText (ok : t.setText text = .ok u) : P u := by
  have changed : t.apply (.text text) = .ok (u, none) := by
    rw [apply, ok]
    rfl
  exact lasting.changed _ holds changed

end

/-- The class beside the text is the one of this text. -/
def Classified (t : Token) : Prop :=
  t.lexical = .ofText t.text

theorem classified_ofText (made : Token.ofText text = .ok t) : Classified t := by
  unfold Token.ofText at made
  split at made
  · cases made
  · cases made
    rfl

theorem classified_setText (set : t.setText text = .ok u) : Classified u := by
  unfold Token.setText at set
  split at set
  · cases set
  · cases set
    rfl

/-- The class is left as it was, which is right because neither literal is in any class. -/
theorem classified_appendLiteral {other : String} (classified : Classified t)
    (ok : t.appendLiteral other = .ok u) : Classified u := by
  rcases appendLiteral_cases t other with ⟨quoted, -, v, same, joined⟩ | ⟨text, refused, -⟩
  · rw [ok] at same
    cases same
    obtain ⟨value, before⟩ := quoted_iff.1 quoted
    obtain ⟨longer, after⟩ := quoted_iff.1 joined.quoted
    have kept : u.lexical = t.lexical := by rw [joined.rest]
    rw [Classified, kept, classified, before, after, LexicalClass.ofText_literal,
      LexicalClass.ofText_literal]
  · rw [refused] at ok
    cases ok

theorem classified_apply {change : TokenChange} {refused : Option LiteralError}
    (classified : Classified t) (ok : t.apply change = .ok (u, refused)) : Classified u := by
  cases change with
  | text text =>
      rw [apply] at ok
      cases set : t.setText text with
      | error f =>
          rw [set] at ok
          cases ok
      | ok v =>
          rw [set] at ok
          cases ok
          exact classified_setText set
  | literal other =>
      rw [apply] at ok
      split at ok
      next v joined =>
        cases ok
        exact classified_appendLiteral classified joined
      next =>
        cases ok
        exact classified
  | mark mark value =>
      cases ok
      cases mark <;> exact classified
  | varId n =>
      cases ok
      exact classified
  | file n =>
      cases ok
      exact classified
  | line n =>
      cases ok
      exact classified
  | progress n =>
      cases ok
      exact classified

theorem lasting_classified : Lasting Classified :=
  ⟨classified_ofText, fun _ => classified_apply⟩

end Token

namespace Chain

variable {α : Type} {f : Handle → Node → α} {P : Token → Prop} {c d : Chain} {h x : Handle}
  {n : Node} {t : Token} {xs : List Handle} {r : Applied}

/-- All tokens of a chain have the property. -/
def Everywhere (P : Token → Prop) (c : Chain) : Prop :=
  ∀ h n, c.node? h = some n → P n.token

namespace Everywhere

theorem shed (all : Everywhere P c) (sheds : Sheds f c xs d)
    (carries : ∀ h n m, f h m = f h n → P n.token → P m.token) : Everywhere P d := by
  intro h m found
  have stays := (sheds.live_of_live (contains_iff.2 ⟨m, found⟩)).2
  have same := sheds.same stays
  rw [found, Option.map_some] at same
  obtain ⟨n, before, kept⟩ := Option.map_eq_some_iff.1 same.symm
  exact carries h n m kept.symm (all h n before)

/-- Where nodes go or change and tokens do not, all tokens that are left are the ones they were. -/
theorem remain (all : Everywhere P c) (sheds : Sheds (fun _ n => some n.token) c xs d) :
    Everywhere P d :=
  all.shed sheds fun _ _ _ same => (Option.some.inj same ▸ ·)

theorem keep (all : Everywhere P c) (keeps : Keeps (fun _ n => some n.token) c d) :
    Everywhere P d :=
  all.remain (.stay keeps)

theorem store (all : Everywhere P c) (live : c.contains h = true) (holds : P n.token) :
    Everywhere P (c.setNode h n) := by
  intro k m found
  by_cases here : k = h
  · subst here
    rw [node?_setNode_self live, Option.some.injEq] at found
    exact found ▸ holds
  · rw [node?_setNode_of_ne live here] at found
    exact all k m found

theorem allocate (all : Everywhere P c) (allocated : c.allocate t = .ok (d, x)) (holds : P t) :
    Everywhere P d := by
  intro k m found
  by_cases here : k = x
  · subst here
    rw [node?_allocate_self allocated, Option.some.injEq] at found
    exact found ▸ holds
  · rw [node?_allocate_of_ne allocated here] at found
    exact all k m found

theorem stitch (all : Everywhere P c) {a b : Option Handle} (ok : c.stitch a b = .ok d) :
    Everywhere P d :=
  all.keep (keeps_stitch (fun _ _ _ => rfl) (fun _ _ => rfl) ok)

theorem unlink (all : Everywhere P c) (ok : c.unlink h = .ok d) : Everywhere P d :=
  all.keep (keeps_unlink (fun _ _ _ => rfl) ok)

theorem linkPair (all : Everywhere P c) {a b : Handle} (ok : c.linkPair a b = .ok d) :
    Everywhere P d :=
  all.keep (keeps_linkPair (fun _ _ _ => rfl) ok)

theorem token (all : Everywhere P c) (found : c.token h = .ok t) : P t := by
  obtain ⟨n, here, same⟩ := exists_of_bind_eq_ok found
  cases same
  exact all h n (node_eq_ok_iff.1 here)

end Everywhere

section
variable (lasting : Token.Lasting P) (all : Everywhere P c)
include lasting all

theorem everywhere_push {text : String} {line file : UInt32}
    (ok : c.push text line file = .ok (d, x)) : Everywhere P d := by
  rw [push_eq] at ok
  obtain ⟨t, made, ok⟩ := exists_of_bind_eq_ok ok
  obtain ⟨⟨b, y⟩, allocated, ok⟩ := exists_of_bind_eq_ok ok
  obtain ⟨e, threaded, ok⟩ := exists_of_bind_eq_ok ok
  cases ok
  have placed := lasting.placed (lasting.made made) line file
  exact (all.allocate allocated placed).keep (keeps_threadLast threaded)

theorem everywhere_insertAfter {text : String} (ok : c.insertAfter h text = .ok (d, x)) :
    Everywhere P d := by
  obtain ⟨anchor, -, ok⟩ := exists_of_bind_eq_ok ok
  obtain ⟨t, made, ok⟩ := exists_of_bind_eq_ok ok
  obtain ⟨⟨b, y⟩, allocated, ok⟩ := exists_of_bind_eq_ok ok
  obtain ⟨after, -, ok⟩ := exists_of_bind_eq_ok ok
  obtain ⟨c₁, first, ok⟩ := exists_of_bind_eq_ok ok
  obtain ⟨c₂, second, ok⟩ := exists_of_bind_eq_ok ok
  cases ok
  have placed := lasting.placed (lasting.made made) anchor.line anchor.file
  have beside := lasting.progress placed anchor.progress
  exact ((all.allocate allocated beside).stitch first).stitch second

theorem everywhere_setText {text : String} (ok : c.setText h text = .ok d) : Everywhere P d := by
  obtain ⟨n, found, ok⟩ := exists_of_bind_eq_ok ok
  obtain ⟨t, set, ok⟩ := exists_of_bind_eq_ok ok
  cases ok
  have here := node_eq_ok_iff.1 found
  exact all.store (contains_iff.2 ⟨n, here⟩) (lasting.setText (all h n here) set)

/-- The successor's token is written over the one that goes, and the last token over itself. -/
theorem everywhere_deleteThis (ok : c.deleteThis h = .ok d) : Everywhere P d := by
  obtain ⟨next, -, ok⟩ := exists_of_bind_eq_ok ok
  cases next with
  | none =>
      obtain ⟨c₁, cut, ok⟩ := exists_of_bind_eq_ok ok
      exact everywhere_setText lasting (all.unlink cut) ok
  | some successor =>
      obtain ⟨partner, -, ok⟩ := exists_of_bind_eq_ok ok
      obtain ⟨c₁, cutH, ok⟩ := exists_of_bind_eq_ok ok
      obtain ⟨c₂, cutX, ok⟩ := exists_of_bind_eq_ok ok
      obtain ⟨t, -, ok⟩ := exists_of_bind_eq_ok ok
      obtain ⟨moved, found, ok⟩ := exists_of_bind_eq_ok ok
      obtain ⟨c₃, put, ok⟩ := exists_of_bind_eq_ok ok
      obtain ⟨n, here, put⟩ := exists_of_bind_eq_ok put
      cases put
      have unlinked := (all.unlink cutH).unlink cutX
      have written : Everywhere P (c₂.setNode h
          { n with token := { moved with progress := t.progress } }) :=
        unlinked.store (contains_iff.2 ⟨n, node_eq_ok_iff.1 here⟩)
          (lasting.progress (unlinked.token found) t.progress)
      split at ok
      · obtain ⟨c₄, link, ok⟩ := exists_of_bind_eq_ok ok
        exact (written.linkPair link).remain (sheds_deleteNext ok)
      · exact written.remain (sheds_deleteNext ok)

theorem everywhere_moveRange {first last destination : Handle}
    (ok : c.moveRange first last destination = .ok d) : Everywhere P d := by
  refine all.shed (.stay (keeps_moveRange ok)) fun h n m same holds => ?_
  have moved : m.token = { n.token with progress := m.token.progress } :=
    Edit.rewrites_of_kept (e := .moveRange first last destination) (h := h) same
  rw [moved]
  exact lasting.progress holds m.token.progress

theorem everywhere_changeToken {change : TokenChange} (ok : c.changeToken h change = .ok r) :
    Everywhere P r.chain := by
  obtain ⟨n, found, ok⟩ := exists_of_bind_eq_ok ok
  obtain ⟨⟨t, refused⟩, changed, ok⟩ := exists_of_bind_eq_ok ok
  cases ok
  have here := node_eq_ok_iff.1 found
  exact all.store (contains_iff.2 ⟨n, here⟩) (lasting.changed change (all h n here) changed)

theorem everywhere_apply {e : Edit} (ok : c.apply e = .ok r) : Everywhere P r.chain := by
  have plain {result : Except Fault Chain} (ok : plain result = .ok r)
      (held : ∀ d, result = .ok d → Everywhere P d) : Everywhere P r.chain := by
    cases result with
    | error f => cases ok
    | ok d =>
        cases ok
        exact held d rfl
  have issuing {result : Except Fault (Chain × Handle)} (ok : issuing result = .ok r)
      (held : ∀ d x, result = .ok (d, x) → Everywhere P d) : Everywhere P r.chain := by
    cases result with
    | error f => cases ok
    | ok result =>
        cases ok
        exact held result.1 result.2 rfl
  cases e with
  | push text line file => exact issuing ok fun _ _ => everywhere_push lasting all
  | insertAfter anchor text => exact issuing ok fun _ _ => everywhere_insertAfter lasting all
  | deleteNext h => exact plain ok fun _ done => all.remain (sheds_deleteNext done)
  | deleteThis h => exact plain ok fun _ => everywhere_deleteThis lasting all
  | replace target first last => exact plain ok fun _ done => all.remain (sheds_replace done)
  | moveRange first last destination => exact plain ok fun _ => everywhere_moveRange lasting all
  | eraseRange first last =>
      refine plain ok fun d done => ?_
      cases first with
      | none =>
          cases done
          exact all
      | some h => exact all.remain (sheds_eraseUntil done).1
  | linkPair a b => exact plain ok fun _ => all.linkPair
  | unlink h => exact plain ok fun _ => all.unlink
  | change h wanted => exact everywhere_changeToken lasting all ok

end

end Chain

theorem Run.everywhere {P : Token → Prop} (lasting : Token.Lasting P) {c : Chain}
    {issued removed : List Handle} (run : Run c issued removed) : c.Everywhere P := by
  induction run with
  | start =>
      intro h n found
      simp [Chain.node?, Chain.empty] at found
  | edit _ ok ih => exact Chain.everywhere_apply lasting ih ok

namespace Chain

/-- Every token of a chain that edits lead to has a text, and the class that is kept beside it is
the one of this very text: a name starts with an underscore or an ASCII letter, a number with a
digit or with a minus sign and a digit, and there are two truth values. -/
theorem classification_exact {c : Chain} {issued removed : List Handle}
    (run : Run c issued removed) {h : Handle} {t : Token} (found : c.token? h = some t) :
    t.text ≠ "" ∧
      (t.lexical.name = true ↔
        ∃ first rest, t.text.toList = first :: rest ∧ (first = '_' ∨ first.isAlpha = true)) ∧
      (t.lexical.number = true ↔
        ∃ digit rest, (t.text.toList = digit :: rest ∨ t.text.toList = '-' :: digit :: rest) ∧
          digit.isDigit = true) ∧
      (t.lexical.boolean = true ↔ t.text = "true" ∨ t.text = "false") := by
  obtain ⟨n, here, rfl⟩ := exists_node_of_token found
  rw [run.everywhere Token.lasting_classified h n here]
  exact ⟨n.token.nonempty, LexicalClass.startsName_iff, LexicalClass.startsNumber_iff,
    LexicalClass.boolean_ofText _⟩

-- The name `x` gives its node to the literal behind it, which was joined with another one.
theorem literal_moved :
    ∃ c issued removed t, Run c issued removed ∧ c.token? ⟨0, 0⟩ = some t ∧
      t.text = "\"ab\"" ∧ t.lexical.name = false := by
  have run₁ : Run _ _ _ := .edit (e := .push "x" 1 0) .start rfl
  have run₂ : Run _ _ _ := .edit (e := .push "\"a\"" 1 0) run₁ rfl
  have run₃ : Run _ _ _ := .edit (e := .change ⟨1, 0⟩ (.literal "\"b\"")) run₂ rfl
  have run₄ : Run _ _ _ := .edit (e := .deleteThis ⟨0, 0⟩) run₃ rfl
  have moved : ∃ c issued removed t, Run c issued removed ∧ c.token? ⟨0, 0⟩ = some t ∧
      t.text = "\"ab\"" := ⟨_, _, _, _, run₄, rfl, by decide⟩
  obtain ⟨c, issued, removed, t, run, found, text⟩ := moved
  obtain ⟨-, name, -⟩ := classification_exact run found
  refine ⟨c, issued, removed, t, run, found, text, ?_⟩
  rw [← Bool.not_eq_true, name, text]
  rintro ⟨first, rest, chars, starts⟩
  cases chars
  exact absurd starts (by decide)

end Chain

end TokenStream
