import TokenStream.Dump.Reader
/-!
Brackets among the texts of a dump: which texts are well nested, which of their brackets belong
together, what they leave open, and which bracket is the first one out of place. The level of a
position is the number of brackets that are open there; it keeps the pairs apart.
-/
namespace TokenStream.Dump

/-- The brackets that are open after one more text, the innermost first. -/
def track (stack : List Bracket) (text : String) : Option (List Bracket) :=
  match Bracket.ofOpening? text with
  | some b => if stack.length < Limits.openBrackets then some (b :: stack) else none
  | none =>
    match Bracket.ofClosing? text, stack with
    | none, _ => some stack
    | some b, top :: rest => if top = b then some rest else none
    | some _, [] => none

/-- Texts whose brackets are well nested, no deeper than this. -/
inductive WellNested : Nat → List String → Prop
  | nil {depth : Nat} : WellNested depth []
  | plain {depth : Nat} {text : String} {rest : List String} :
      (∀ b : Bracket, text ≠ b.opening ∧ text ≠ b.closing) → WellNested depth rest →
      WellNested depth (text :: rest)
  | pair {depth : Nat} {inner rest : List String} (b : Bracket) :
      WellNested depth inner → WellNested (depth + 1) rest →
      WellNested (depth + 1) (b.opening :: (inner ++ b.closing :: rest))

/-- What texts leave open, the innermost first, if none of their brackets is out of place and no
more than `limit` are ever open. The texts may be parts of larger items. -/
inductive Leaves {α : Type} (text : α → String) (limit : Nat) : List α → List α → Prop
  | nested {items : List α} : WellNested limit (items.map text) → Leaves text limit items []
  | opened {before inner stack : List α} {x : α} {b : Bracket} :
      Leaves text limit before stack → stack.length < limit → text x = b.opening →
      WellNested (limit - (stack.length + 1)) (inner.map text) →
      Leaves text limit (before ++ x :: inner) (x :: stack)

/-- The first bracket of texts with their lines that is out of place, as an error. A closing one
has to fit the innermost open one, an opening one needs room. -/
inductive Misplaced (limit : Nat) : List (String × Nat) → Error → Prop
  | closing {before after stack : List (String × Nat)} {b : Bracket} {line : Nat} :
      Leaves Prod.fst limit before stack → (∀ top ∈ stack.head?, top.1 ≠ b.opening) →
      Misplaced limit (before ++ (b.closing, line) :: after) (.unbalancedBracket line b.closing)
  | opening {before after stack : List (String × Nat)} {b : Bracket} {line : Nat} :
      Leaves Prod.fst limit before stack → stack.length = limit →
      Misplaced limit (before ++ (b.opening, line) :: after) (.nestingTooDeep line)

/-- The error for texts with their lines: the first bracket out of place, or else the innermost one
that stays open. -/
inductive Refused (limit : Nat) (marks : List (String × Nat)) : Error → Prop
  | misplaced {e : Error} : Misplaced limit marks e → Refused limit marks e
  | unclosed {stack : List (String × Nat)} {b : Bracket} {line : Nat} :
      Leaves Prod.fst limit marks ((b.opening, line) :: stack) →
      Refused limit marks (.unbalancedBracket line b.opening)

/-- The opening bracket at `i` belongs to the closing one at `j`. -/
def Matched (texts : List String) (i j : Nat) : Prop :=
  ∃ (b : Bracket) (before inner after : List String) (depth : Nat),
    texts = before ++ b.opening :: (inner ++ b.closing :: after) ∧ WellNested depth inner ∧
      i = before.length ∧ j = before.length + 1 + inner.length

def Paired (texts : List String) (i j : Nat) : Prop :=
  Matched texts i j ∨ Matched texts j i

/-! ### Kinds of texts -/

theorem ofOpening?_eq_none {text : String}
    (other : ∀ b : Bracket, text ≠ b.opening ∧ text ≠ b.closing) :
    Bracket.ofOpening? text = none := by
  refine List.find?_eq_none.2 fun b _ => ?_
  simpa using Ne.symm (other b).1

theorem ofClosing?_eq_none {text : String}
    (other : ∀ b : Bracket, text ≠ b.opening ∧ text ≠ b.closing) :
    Bracket.ofClosing? text = none := by
  refine List.find?_eq_none.2 fun b _ => ?_
  simpa using Ne.symm (other b).2

@[simp] theorem ofOpening?_opening (b : Bracket) : Bracket.ofOpening? b.opening = some b := by
  cases b <;> decide

@[simp] theorem ofOpening?_closing (b : Bracket) : Bracket.ofOpening? b.closing = none := by
  cases b <;> decide

@[simp] theorem ofClosing?_closing (b : Bracket) : Bracket.ofClosing? b.closing = some b := by
  cases b <;> decide

theorem opening_injective {a b : Bracket} (same : a.opening = b.opening) : a = b := by
  have found := congrArg Bracket.ofOpening? same
  simpa using found

theorem bracket_cases (text : String) :
    (∃ b : Bracket, text = b.opening) ∨ (∃ b : Bracket, text = b.closing) ∨
      ∀ b : Bracket, text ≠ b.opening ∧ text ≠ b.closing := by
  by_cases opens : ∃ b : Bracket, text = b.opening
  · exact .inl opens
  · by_cases closes : ∃ b : Bracket, text = b.closing
    · exact .inr (.inl closes)
    · exact .inr (.inr fun b => ⟨fun same => opens ⟨b, same⟩, fun same => closes ⟨b, same⟩⟩)

/-! ### The tracker -/

theorem track_plain {text : String} (other : ∀ b : Bracket, text ≠ b.opening ∧ text ≠ b.closing)
    (stack : List Bracket) : track stack text = some stack := by
  simp only [track, ofOpening?_eq_none other, ofClosing?_eq_none other]

theorem track_opening {stack : List Bracket} (room : stack.length < Limits.openBrackets)
    (b : Bracket) : track stack b.opening = some (b :: stack) := by
  simp only [track, ofOpening?_opening, if_pos room]

theorem track_closing (stack : List Bracket) (b : Bracket) :
    track (b :: stack) b.closing = some stack := by
  simp only [track, ofOpening?_closing, ofClosing?_closing, if_true]

theorem foldlM_track_of_wellNested {depth : Nat} {texts : List String}
    (nested : WellNested depth texts) {stack : List Bracket}
    (room : stack.length + depth ≤ Limits.openBrackets) :
    texts.foldlM track stack = some stack := by
  induction nested generalizing stack with
  | nil => rfl
  | plain other nested ih =>
      rw [List.foldlM_cons, track_plain other]
      exact ih room
  | @pair depth inner rest b _ _ ihInner ihRest =>
      have opened : track stack b.opening = some (b :: stack) := track_opening (by omega) b
      have deeper : (b :: stack).length + depth ≤ Limits.openBrackets := by
        rw [List.length_cons]
        omega
      have within : inner.foldlM track (b :: stack) = some (b :: stack) := ihInner deeper
      rw [List.foldlM_cons, opened, Option.bind_eq_bind, Option.bind_some, List.foldlM_append,
        within, Option.bind_eq_bind, Option.bind_some, List.foldlM_cons, track_closing]
      exact ihRest room

/-! ### Levels -/

/-- How a text changes the number of open brackets. -/
def weight (text : String) : Int :=
  if (Bracket.ofOpening? text).isSome then 1
  else if (Bracket.ofClosing? text).isSome then -1 else 0

def height : List String → Int
  | [] => 0
  | text :: texts => weight text + height texts

def level (texts : List String) (k : Nat) : Int :=
  height (texts.take k)

@[simp] theorem weight_opening (b : Bracket) : weight b.opening = 1 := by simp [weight]

@[simp] theorem weight_closing (b : Bracket) : weight b.closing = -1 := by simp [weight]

@[simp] theorem height_nil : height [] = 0 := rfl

@[simp] theorem height_cons (text : String) (texts : List String) :
    height (text :: texts) = weight text + height texts := rfl

@[simp] theorem height_append (s t : List String) : height (s ++ t) = height s + height t := by
  induction s with
  | nil => rw [List.nil_append, height_nil, Int.zero_add]
  | cons text s ih => rw [List.cons_append, height_cons, height_cons, ih, Int.add_assoc]

theorem weight_plain {text : String}
    (other : ∀ b : Bracket, text ≠ b.opening ∧ text ≠ b.closing) : weight text = 0 := by
  simp [weight, ofOpening?_eq_none other, ofClosing?_eq_none other]

namespace WellNested

variable {depth : Nat} {s t : List String}

theorem append (first : WellNested depth s) (second : WellNested depth t) :
    WellNested depth (s ++ t) := by
  induction first with
  | nil => exact second
  | plain other _ ih => exact .plain other (ih second)
  | pair b inner _ _ ihRest =>
      rw [List.cons_append, List.append_assoc, List.cons_append]
      exact .pair b inner (ihRest second)

theorem height_eq (nested : WellNested depth s) : height s = 0 := by
  induction nested with
  | nil => rfl
  | plain other _ ih => rw [height_cons, weight_plain other, ih, Int.zero_add]
  | pair b _ _ ihInner ihRest =>
      rw [height_cons, height_append, height_cons, weight_opening, weight_closing, ihInner, ihRest]
      omega

/-- No part of well nested texts closes more than it opens. -/
theorem height_take_nonneg (nested : WellNested depth s) (k : Nat) : 0 ≤ height (s.take k) := by
  induction nested generalizing k with
  | nil => simp
  | plain other _ ih =>
      cases k with
      | zero => exact Int.le_refl 0
      | succ k =>
          rw [List.take_succ_cons, height_cons, weight_plain other, Int.zero_add]
          exact ih k
  | @pair _ inner rest b _ _ ihInner ihRest =>
      cases k with
      | zero => exact Int.le_refl 0
      | succ k =>
          have within := ihInner k
          rw [List.take_succ_cons, height_cons, weight_opening, List.take_append, height_append]
          cases outside : k - inner.length with
          | zero =>
              rw [List.take_zero, height_nil]
              omega
          | succ m =>
              have beyond := ihRest m
              rw [List.take_succ_cons, height_cons, weight_closing]
              omega

end WellNested

/-- The levels after an opening bracket, as far as the texts behind it go. -/
theorem level_opening (b : Bracket) (before inner after : List String) {m : Nat}
    (within : m ≤ inner.length) :
    level (before ++ b.opening :: (inner ++ after)) (before.length + 1 + m) =
      level (before ++ b.opening :: (inner ++ after)) before.length + 1 +
        height (inner.take m) := by
  have first : (before ++ b.opening :: (inner ++ after)).take (before.length + 1 + m) =
      before ++ b.opening :: inner.take m := by
    rw [Nat.add_assoc, List.take_length_add_append, Nat.add_comm 1 m, List.take_succ_cons,
      List.take_append_of_le_length within]
  rw [level, level, first, List.take_left, height_append, height_cons, weight_opening]
  omega

/-- An opening bracket with well nested texts behind it: these stay above its level. -/
theorem level_above (b : Bracket) (before after : List String) {inner : List String} {depth : Nat}
    (nested : WellNested depth inner) :
    let texts := before ++ b.opening :: (inner ++ after)
    level texts (before.length + 1) = level texts before.length + 1 ∧
      level texts (before.length + 1 + inner.length) = level texts before.length + 1 ∧
      ∀ k, before.length < k → k ≤ before.length + 1 + inner.length →
        level texts before.length < level texts k := by
  refine ⟨?_, ?_, ?_⟩
  · have up := level_opening b before inner after (Nat.zero_le _)
    rwa [List.take_zero, height_nil, Int.add_zero] at up
  · rw [level_opening b before inner after (Nat.le_refl _), List.take_length, nested.height_eq,
      Int.add_zero]
  · intro k behind within
    obtain ⟨m, rfl⟩ := Nat.exists_eq_add_of_le behind
    have above := nested.height_take_nonneg m
    rw [level_opening b before inner after (by omega)]
    omega

namespace Matched

variable {texts : List String} {i j k l : Nat}

/-- A pair goes one level up and comes back down behind its closing bracket for the first time. -/
theorem levels (pair : Matched texts i j) :
    i < j ∧ j < texts.length ∧ level texts (i + 1) = level texts i + 1 ∧
      level texts (j + 1) = level texts i ∧
      ∀ k, i < k → k ≤ j → level texts i < level texts k := by
  obtain ⟨b, before, inner, after, depth, rfl, nested, rfl, rfl⟩ := pair
  obtain ⟨up, -, above⟩ := level_above b before (b.closing :: after) nested
  have down := level_opening b before (inner ++ [b.closing]) after (Nat.le_refl _)
  rw [List.take_length, height_append, nested.height_eq, height_cons, weight_closing, height_nil,
    List.append_assoc, List.singleton_append, List.length_append] at down
  refine ⟨by omega, ?_, up, ?_, above⟩
  · simp only [List.length_append, List.length_cons]
    omega
  · exact down.trans (by omega)

theorem not_crossing (first : Matched texts i j) (second : Matched texts k l) :
    ¬ (i < k ∧ k < j ∧ j < l) := by
  rintro ⟨starts, inside, ends⟩
  obtain ⟨-, -, -, down, above⟩ := first.levels
  obtain ⟨-, -, -, -, above'⟩ := second.levels
  have outer := above k starts (by omega)
  have inner := above' (j + 1) (by omega) (by omega)
  omega

/-- A bracket that is left open by the texts behind it belongs to no pair. -/
theorem not_of_opened {b : Bracket} {before inner : List String} {depth : Nat}
    (nested : WellNested depth inner) (other : Nat) :
    ¬ Paired (before ++ b.opening :: inner) before.length other := by
  obtain ⟨up, -, above⟩ := level_above b before [] nested
  rw [List.append_nil] at up above
  rintro (opens | closes)
  · obtain ⟨less, inside, -, down, -⟩ := opens.levels
    rw [List.length_append, List.length_cons] at inside
    have still := above (other + 1) (by omega) (by omega)
    omega
  · obtain ⟨less, -, -, down, higher⟩ := closes.levels
    have same := higher before.length less (Nat.le_refl _)
    omega

end Matched

/-- Only one bracket has well nested texts and nothing else behind it. -/
theorem opened_unique {b b' : Bracket} {before before' inner inner' : List String}
    {depth depth' : Nat} (nested : WellNested depth inner) (nested' : WellNested depth' inner')
    (same : before ++ b.opening :: inner = before' ++ b'.opening :: inner') :
    before.length = before'.length := by
  obtain ⟨-, final, above⟩ := level_above b before [] nested
  obtain ⟨-, final', above'⟩ := level_above b' before' [] nested'
  rw [List.append_nil] at final final' above above'
  rw [same] at final above
  have lengths := congrArg List.length same
  rw [List.length_append, List.length_cons, List.length_append, List.length_cons] at lengths
  have ends : before.length + 1 + inner.length = before'.length + 1 + inner'.length := by omega
  rw [ends] at final
  rcases Nat.lt_trichotomy before.length before'.length with less | equal | more
  · have higher := above before'.length less (by omega)
    omega
  · exact equal
  · have higher := above' before.length more (by omega)
    omega

/-! ### One text more -/

theorem matched_concat {texts : List String} {text : String} {i j : Nat} :
    Matched (texts ++ [text]) i j ↔ Matched texts i j ∨
      ∃ (b : Bracket) (before inner : List String) (depth : Nat),
        texts = before ++ b.opening :: inner ∧ WellNested depth inner ∧ text = b.closing ∧
          i = before.length ∧ j = texts.length := by
  constructor
  · rintro ⟨b, before, inner, after, depth, shape, nested, rfl, rfl⟩
    rcases List.eq_nil_or_concat after with rfl | ⟨after, last, rfl⟩
    · rw [← List.cons_append, ← List.append_assoc] at shape
      obtain ⟨rfl, closes⟩ := List.append_inj' shape rfl
      refine .inr ⟨b, before, inner, depth, rfl, nested, (List.cons.inj closes).1, rfl, ?_⟩
      rw [List.length_append, List.length_cons]
      omega
    · rw [List.concat_eq_append, ← List.cons_append, ← List.append_assoc, ← List.cons_append,
        ← List.append_assoc] at shape
      obtain ⟨rfl, -⟩ := List.append_inj' shape rfl
      exact .inl ⟨b, before, inner, after, depth, by simp, nested, rfl, rfl⟩
  · rintro (⟨b, before, inner, after, depth, rfl, nested, rfl, rfl⟩ |
      ⟨b, before, inner, depth, rfl, nested, rfl, rfl, rfl⟩)
    · exact ⟨b, before, inner, after ++ [text], depth, by simp, nested, rfl, rfl⟩
    · refine ⟨b, before, inner, [], depth, by simp, nested, rfl, ?_⟩
      rw [List.length_append, List.length_cons]
      omega

theorem Paired.lt_length {texts : List String} {i j : Nat} (pair : Paired texts i j) :
    i < texts.length ∧ j < texts.length := by
  rcases pair with pair | pair
  · obtain ⟨less, inside, -⟩ := pair.levels
    exact ⟨by omega, inside⟩
  · obtain ⟨less, inside, -⟩ := pair.levels
    exact ⟨inside, by omega⟩

theorem Paired.matched {texts : List String} {i j : Nat} (pair : Paired texts i j) (less : i < j) :
    Matched texts i j :=
  pair.resolve_right fun back => Nat.lt_asymm less back.levels.1

theorem Paired.not_crossing {texts : List String} {i j k l : Nat} (first : Paired texts i j)
    (second : Paired texts k l) : ¬ (i < k ∧ k < j ∧ j < l) := by
  rintro ⟨starts, inside, ends⟩
  have outer := first.matched (by omega)
  have inner := second.matched (by omega)
  exact outer.not_crossing inner ⟨starts, inside, ends⟩

/-- A text that closes nothing makes no pair. -/
theorem paired_concat_of_not_closing {texts : List String} {text : String}
    (other : ∀ b : Bracket, text ≠ b.closing) {i j : Nat} :
    Paired (texts ++ [text]) i j ↔ Paired texts i j := by
  have none_closes (i j : Nat) : Matched (texts ++ [text]) i j ↔ Matched texts i j := by
    rw [matched_concat, or_iff_left]
    rintro ⟨b, -, -, -, -, -, closes, -⟩
    exact other b closes
  rw [Paired, none_closes, none_closes, Paired]

/-- A closing bracket makes one pair, with the bracket that was open behind it. -/
theorem paired_concat_closing {b : Bracket} {before inner : List String} {depth : Nat}
    (nested : WellNested depth inner) {i j : Nat} :
    Paired (before ++ b.opening :: inner ++ [b.closing]) i j ↔
      Paired (before ++ b.opening :: inner) i j ∨
        (i = before.length ∧ j = (before ++ b.opening :: inner).length) ∨
        (i = (before ++ b.opening :: inner).length ∧ j = before.length) := by
  have closes (i j : Nat) : Matched (before ++ b.opening :: inner ++ [b.closing]) i j ↔
      Matched (before ++ b.opening :: inner) i j ∨
        (i = before.length ∧ j = (before ++ b.opening :: inner).length) := by
    rw [matched_concat]
    refine or_congr_right ⟨?_, ?_⟩
    · rintro ⟨b', before', inner', depth', same, nested', -, rfl, rfl⟩
      exact ⟨(opened_unique nested nested' same).symm, rfl⟩
    · rintro ⟨rfl, rfl⟩
      exact ⟨b, before, inner, depth, rfl, nested, rfl, rfl, rfl⟩
  rw [Paired, closes, closes, Paired]
  constructor
  · rintro ((pair | new) | pair | ⟨rfl, rfl⟩)
    · exact .inl (.inl pair)
    · exact .inr (.inl new)
    · exact .inl (.inr pair)
    · exact .inr (.inr ⟨rfl, rfl⟩)
  · rintro ((pair | pair) | new | ⟨rfl, rfl⟩)
    · exact .inl (.inl pair)
    · exact .inr (.inl pair)
    · exact .inl (.inr new)
    · exact .inr (.inr ⟨rfl, rfl⟩)

namespace Leaves

variable {α β : Type} {text : α → String} {limit : Nat} {items more stack : List α} {x y : α}

theorem length_le (leaves : Leaves text limit items stack) : stack.length ≤ limit := by
  cases leaves with
  | nested => exact Nat.zero_le limit
  | opened _ room => exact room

theorem append (leaves : Leaves text limit items stack)
    (nested : WellNested (limit - stack.length) (more.map text)) :
    Leaves text limit (items ++ more) stack := by
  cases leaves with
  | nested first =>
      refine .nested ?_
      rw [List.map_append]
      exact first.append nested
  | opened before room opens inner =>
      rw [List.append_assoc, List.cons_append]
      refine .opened before room opens ?_
      rw [List.map_append]
      exact inner.append nested

theorem push (leaves : Leaves text limit items stack) (room : stack.length < limit) {b : Bracket}
    (opens : text x = b.opening) : Leaves text limit (items ++ [x]) (x :: stack) :=
  .opened leaves room opens .nil

theorem exists_opening (leaves : Leaves text limit items (x :: stack)) :
    ∃ b : Bracket, text x = b.opening := by
  cases leaves with
  | opened _ _ opens _ => exact ⟨_, opens⟩

/-- The innermost open bracket, where it stands and what is behind it. -/
theorem exists_opened (leaves : Leaves text limit items (x :: stack)) :
    ∃ before inner, items = before ++ x :: inner ∧ Leaves text limit before stack ∧
      stack.length < limit ∧ WellNested (limit - (stack.length + 1)) (inner.map text) := by
  cases leaves with
  | opened before room _ inner => exact ⟨_, _, rfl, before, room, inner⟩

theorem pop (leaves : Leaves text limit items (x :: stack)) {b : Bracket}
    (opens : text x = b.opening) (closes : text y = b.closing) :
    Leaves text limit (items ++ [y]) stack := by
  obtain ⟨before, inner, rfl, below, room, nested⟩ := leaves.exists_opened
  rw [List.append_assoc, List.cons_append]
  refine below.append ?_
  have deep : limit - stack.length = limit - (stack.length + 1) + 1 := by omega
  rw [List.map_cons, List.map_append, List.map_singleton, opens, closes, deep]
  exact .pair b nested .nil

theorem map {text' : β → String} {f : α → β} (same : ∀ x, text' (f x) = text x)
    (leaves : Leaves text limit items stack) :
    Leaves text' limit (items.map f) (stack.map f) := by
  have texts (items : List α) : (items.map f).map text' = items.map text := by
    simp [same]
  induction leaves with
  | nested nested => exact .nested (by rwa [texts])
  | opened _ room opens inner ih =>
      rw [List.map_append, List.map_cons, List.map_cons]
      refine .opened ih ?_ ((same _).trans opens) ?_
      · rwa [List.length_map]
      · rwa [List.length_map, texts]

/-- The tracker has the brackets that are left open. -/
theorem foldlM_track (leaves : Leaves text Limits.openBrackets items stack) :
    ∃ brackets : List Bracket, brackets.map Bracket.opening = stack.map text ∧
      (items.map text).foldlM track [] = some brackets := by
  induction leaves with
  | nested nested => exact ⟨[], rfl, foldlM_track_of_wellNested nested (by simp)⟩
  | @opened before inner stack x b _ room opens nested ih =>
      obtain ⟨brackets, same, tracked⟩ := ih
      have size : brackets.length = stack.length := by
        simpa using congrArg List.length same
      refine ⟨b :: brackets, by rw [List.map_cons, List.map_cons, opens, same], ?_⟩
      have opened : track brackets b.opening = some (b :: brackets) :=
        track_opening (by omega) b
      rw [List.map_append, List.foldlM_append, tracked, Option.bind_eq_bind, Option.bind_some,
        List.map_cons, List.foldlM_cons, opens, opened, Option.bind_eq_bind, Option.bind_some]
      refine foldlM_track_of_wellNested nested ?_
      rw [List.length_cons]
      omega

theorem wellNested_iff : Leaves text limit items [] ↔ WellNested limit (items.map text) := by
  constructor
  · rintro ⟨nested⟩
    exact nested
  · exact .nested

end Leaves

/-! ### One error -/

/-- The error for a bracket that is out of place. -/
def blame (mark : String × Nat) : Error :=
  if (Bracket.ofOpening? mark.1).isSome then .nestingTooDeep mark.2
  else .unbalancedBracket mark.2 mark.1

namespace Misplaced

variable {marks : List (String × Nat)} {e e' : Error}

theorem append {limit : Nat} (wrong : Misplaced limit marks e) (more : List (String × Nat)) :
    Misplaced limit (marks ++ more) e := by
  cases wrong with
  | closing leaves unfit =>
      rw [List.append_assoc, List.cons_append]
      exact .closing leaves unfit
  | opening leaves full =>
      rw [List.append_assoc, List.cons_append]
      exact .opening leaves full

/-- The tracker stops at the bracket that is out of place. -/
theorem exists_cut (wrong : Misplaced Limits.openBrackets marks e) :
    ∃ before mark after brackets, marks = before ++ mark :: after ∧
      (before.map Prod.fst).foldlM track [] = some brackets ∧ track brackets mark.1 = none ∧
      e = blame mark := by
  cases wrong with
  | @closing before after stack b line leaves unfit =>
      obtain ⟨brackets, same, tracked⟩ := leaves.foldlM_track
      refine ⟨before, (b.closing, line), after, brackets, rfl, tracked, ?_, by simp [blame]⟩
      cases brackets with
      | nil => simp [track]
      | cons top brackets =>
          cases stack with
          | nil => cases same
          | cons mark stack =>
              have first : top.opening = mark.1 := (List.cons.inj same).1
              have other : top ≠ b := by
                rintro rfl
                exact unfit mark rfl first.symm
              simp [track, other]
  | @opening before after stack b line leaves full =>
      obtain ⟨brackets, same, tracked⟩ := leaves.foldlM_track
      have size : brackets.length = stack.length := by
        simpa using congrArg List.length same
      refine ⟨before, (b.opening, line), after, brackets, rfl, tracked, ?_, by simp [blame]⟩
      simp only [track, ofOpening?_opening]
      rw [if_neg (by omega)]

theorem foldlM_track (wrong : Misplaced Limits.openBrackets marks e) :
    (marks.map Prod.fst).foldlM track [] = none := by
  obtain ⟨before, mark, after, brackets, rfl, tracked, stops, -⟩ := wrong.exists_cut
  rw [List.map_append, List.foldlM_append, tracked, Option.bind_eq_bind, Option.bind_some,
    List.map_cons, List.foldlM_cons, stops]
  rfl

theorem unique (first : Misplaced Limits.openBrackets marks e)
    (second : Misplaced Limits.openBrackets marks e') : e = e' := by
  obtain ⟨before, mark, after, brackets, rfl, tracked, stops, rfl⟩ := first.exists_cut
  obtain ⟨before', mark', after', brackets', same, tracked', stops', rfl⟩ := second.exists_cut
  -- the tracker does not get past the bracket that is nearer to the start
  rcases List.append_eq_append_iff.1 same with ⟨middle, rfl, rest⟩ | ⟨middle, rfl, rest⟩
  · cases middle with
    | nil =>
        obtain ⟨rfl, -⟩ := List.cons.inj rest
        rfl
    | cons head middle =>
        obtain ⟨rfl, -⟩ := List.cons.inj rest
        rw [List.map_append, List.foldlM_append, tracked, Option.bind_eq_bind, Option.bind_some,
          List.map_cons, List.foldlM_cons, stops] at tracked'
        cases tracked'
  · cases middle with
    | nil =>
        obtain ⟨rfl, -⟩ := List.cons.inj rest
        rfl
    | cons head middle =>
        obtain ⟨rfl, -⟩ := List.cons.inj rest
        rw [List.map_append, List.foldlM_append, tracked', Option.bind_eq_bind, Option.bind_some,
          List.map_cons, List.foldlM_cons, stops'] at tracked
        cases tracked

end Misplaced

theorem Leaves.head_unique {α : Type} {text : α → String} {limit : Nat}
    {items stack stack' : List α} {x y : α} (first : Leaves text limit items (x :: stack))
    (second : Leaves text limit items (y :: stack')) : x = y := by
  cases first with
  | @opened before inner _ _ b _ _ opens nested =>
      generalize whole : before ++ x :: inner = items at second
      cases second with
      | @opened before' inner' _ _ b' _ _ opens' nested' =>
          have texts := congrArg (List.map text) whole
          rw [List.map_append, List.map_cons, opens, List.map_append, List.map_cons, opens']
            at texts
          have size := opened_unique nested nested' texts
          rw [List.length_map, List.length_map] at size
          exact (List.cons.inj (List.append_inj whole size).2).1

theorem Refused.unique {marks : List (String × Nat)} {e e' : Error}
    (first : Refused Limits.openBrackets marks e) (second : Refused Limits.openBrackets marks e') :
    e = e' := by
  have apart {e : Error} {stack : List (String × Nat)}
      (wrong : Misplaced Limits.openBrackets marks e)
      (leaves : Leaves Prod.fst Limits.openBrackets marks stack) : False := by
    obtain ⟨brackets, -, tracked⟩ := leaves.foldlM_track
    rw [wrong.foldlM_track] at tracked
    cases tracked
  cases first with
  | misplaced wrong =>
      cases second with
      | misplaced wrong' => exact wrong.unique wrong'
      | unclosed leaves => exact (apart wrong leaves).elim
  | unclosed leaves =>
      cases second with
      | misplaced wrong => exact (apart wrong leaves).elim
      | unclosed leaves' =>
          have same := leaves.head_unique leaves'
          injection same with text line
          rw [line, text]

theorem Refused.not_wellNested {marks : List (String × Nat)} {e : Error}
    (refused : Refused Limits.openBrackets marks e) :
    ¬ WellNested Limits.openBrackets (marks.map Prod.fst) := by
  intro nested
  have tracked : (marks.map Prod.fst).foldlM track [] = some [] :=
    foldlM_track_of_wellNested nested (by simp)
  cases refused with
  | misplaced wrong =>
      rw [wrong.foldlM_track] at tracked
      cases tracked
  | unclosed leaves =>
      obtain ⟨brackets, same, tracked'⟩ := leaves.foldlM_track
      rw [tracked'] at tracked
      cases tracked
      cases same

end TokenStream.Dump
