import TokenStream.Proofs.Chain.Edit
import TokenStream.Proofs.Chain.Integrity
import TokenStream.Proofs.Dump.Brackets
import TokenStream.Proofs.Dump.Items
/-!
What a state of the reader stands for: the tokens it has read, as a valid chain, and the brackets
that are still open. One word more is one token more, and a text whose brackets are well nested
leaves the open brackets as they were.
-/
namespace TokenStream.Dump

open Chain

theorem onChain_ok {α : Type} (a : α) : onChain (.ok a) = .ok a := rfl

/-- The opener is the handle of such an opening bracket. -/
def Opens (c : Chain) (o : Opener) (b : Bracket) : Prop :=
  ∃ t, c.token? o.handle = some t ∧ t.text = b.opening

/-- The chain of the state holds these tokens, and these brackets are open. -/
structure Loaded (s : State) (order : List Handle) (read : List Token) (stack : List Bracket) :
    Prop where
  valid : s.chain.Valid order
  tokens : order.map s.chain.token? = read.map some
  opens : List.Forall₂ (Opens s.chain) s.openers stack
  depth_eq : s.depth = s.openers.length

theorem loaded_start : Loaded .start [] [] [] where
  valid := valid_empty
  tokens := rfl
  opens := .nil
  depth_eq := rfl

section
variable {s : State} {order : List Handle} {read : List Token} {stack stack' : List Bracket}

theorem Opens.mem {c : Chain} {o : Opener} {b : Bracket} (opens : Opens c o b)
    (valid : c.Valid order) : o.handle ∈ order := by
  obtain ⟨t, found, -⟩ := opens
  exact (valid.sound.mem_iff o.handle).2 (Option.isSome_of_eq_some found)

theorem exists_opens {c : Chain} {openers : List Opener}
    (opens : List.Forall₂ (Opens c) openers stack) : ∀ o ∈ openers, ∃ b, Opens c o b := by
  induction opens with
  | nil => simp
  | cons first _ ih =>
      intro o mem
      rcases List.mem_cons.1 mem with rfl | mem
      · exact ⟨_, first⟩
      · exact ih o mem

theorem Loaded.handles (loaded : Loaded s order read stack) :
    ∀ o ∈ s.openers, o.handle ∈ order := by
  intro o mem
  obtain ⟨b, opens⟩ := exists_opens loaded.opens o mem
  exact opens.mem loaded.valid

/-- A handle that is new to the chain opens no bracket that is waiting. -/
theorem Loaded.openers_ne (loaded : Loaded s order read stack) {x : Handle} (new : x ∉ order) :
    ∀ o ∈ s.openers, o.handle ≠ x := by
  rintro o mem rfl
  exact new (loaded.handles o mem)

theorem Loaded.live_eq (loaded : Loaded s order read stack) : s.chain.live = read.length := by
  have same := congrArg List.length loaded.tokens
  rw [List.length_map, List.length_map] at same
  rw [← loaded.valid.length_eq_live, same]

theorem Loaded.filterMap_token? (loaded : Loaded s order read stack) :
    order.filterMap s.chain.token? = read := by
  have all := congrArg (List.filterMap id) loaded.tokens
  simpa [List.filterMap_map] using all

/-! ### One bracket -/

theorem trackBracket_plain {text : String}
    (other : ∀ b : Bracket, text ≠ b.opening ∧ text ≠ b.closing) (number : Nat) (x : Handle)
    (s : State) : trackBracket number x text s = .ok s := by
  simp only [trackBracket, ofOpening?_eq_none other, ofClosing?_eq_none other]

theorem trackBracket_opening (number : Nat) (x : Handle) (b : Bracket) (s : State) :
    trackBracket number x b.opening s =
      if Limits.openBrackets ≤ s.depth then .error (.refused (.nestingTooDeep number))
      else .ok { s with
        openers := { handle := x, line := number } :: s.openers
        depth := s.depth + 1 } := by
  simp only [trackBracket, ofOpening?_opening]

theorem trackBracket_closing_nil (number : Nat) (x : Handle) (b : Bracket) {s : State}
    (none_open : s.openers = []) : trackBracket number x b.closing s =
      .error (.refused (.unbalancedBracket number b.closing)) := by
  obtain ⟨chain, place, openers, depth⟩ := s
  obtain rfl : openers = [] := none_open
  simp only [trackBracket, ofOpening?_closing, ofClosing?_closing]

theorem trackBracket_closing_cons (number : Nat) (x : Handle) (b : Bracket) {s : State}
    {o : Opener} {rest : List Opener} (open_ : s.openers = o :: rest) {t : Token}
    (found : s.chain.token? o.handle = some t) :
    trackBracket number x b.closing s =
      if t.text = b.opening then
        (onChain (s.chain.linkPair o.handle x)).map fun chain =>
          { s with chain, openers := rest, depth := s.depth - 1 }
      else .error (.refused (.unbalancedBracket number b.closing)) := by
  obtain ⟨chain, place, openers, depth⟩ := s
  obtain rfl : openers = o :: rest := open_
  simp only [trackBracket, ofOpening?_closing, ofClosing?_closing, token_ok found, onChain_ok,
    ok_bind]
  rfl

theorem trackBracket_ok (loaded : Loaded s order read stack) {x : Handle}
    (last : ∀ o ∈ s.openers, o.handle ≠ x) {text : String}
    (here : (s.chain.token? x).map (·.text) = some text)
    (tracked : track stack text = some stack') (number : Nat) :
    ∃ s', trackBracket number x text s = .ok s' ∧ s'.place = s.place ∧
      Loaded s' order read stack' := by
  obtain ⟨valid, tokens, opens, depth_eq⟩ := loaded
  obtain ⟨t, found, rfl⟩ := Option.map_eq_some_iff.1 here
  rcases bracket_cases t.text with ⟨b, isOpening⟩ | ⟨b, isClosing⟩ | other
  · simp only [isOpening, track, ofOpening?_opening, Option.ite_none_right_eq_some,
      Option.some.injEq] at tracked
    obtain ⟨room, rfl⟩ := tracked
    have size := opens.length_eq
    rw [isOpening, trackBracket_opening, if_neg (by omega)]
    exact ⟨_, rfl, rfl, valid, tokens, .cons ⟨t, found, isOpening⟩ opens,
      congrArg (· + 1) depth_eq⟩
  · cases openers : s.openers with
    | nil =>
        rw [openers] at opens
        cases opens
        simp [isClosing, track] at tracked
    | cons o rest =>
        rw [openers] at opens last depth_eq
        cases opens with
        | @cons _ top _ stack first others =>
            simp only [isClosing, track, ofOpening?_closing, ofClosing?_closing,
              Option.ite_none_right_eq_some, Option.some.injEq] at tracked
            obtain ⟨rfl, rfl⟩ := tracked
            have live := first.mem valid
            obtain ⟨u, waiting, fits⟩ := first
            have mem : x ∈ order := (valid.sound.mem_iff x).2 (Option.isSome_of_eq_some found)
            obtain ⟨d, ok, -, view, validD⟩ :=
              linkPair_ok valid (last o List.mem_cons_self) live mem
            have same : d.token? = s.chain.token? := congrArg View.token? view
            rw [isClosing, trackBracket_closing_cons number x _ openers waiting, if_pos fits, ok]
            refine ⟨_, rfl, rfl, validD, ?_, ?_, ?_⟩
            · rw [← tokens, ← same]
            · refine others.imp fun p b => ?_
              rintro ⟨v, shown, isOpening⟩
              exact ⟨v, same ▸ shown, isOpening⟩
            · rw [depth_eq, List.length_cons, Nat.add_sub_cancel]
  · rw [track_plain other, Option.some.injEq] at tracked
    subst tracked
    exact ⟨s, trackBracket_plain other number x s, rfl, valid, tokens, opens, depth_eq⟩

/-- What the reader does not refuse, the tracker does not refuse either. -/
theorem track_of_trackBracket (loaded : Loaded s order read stack) {number : Nat} {x : Handle}
    {text : String} {s' : State} (ok : trackBracket number x text s = .ok s') :
    ∃ stack', track stack text = some stack' := by
  obtain ⟨-, -, opens, depth_eq⟩ := loaded
  rcases bracket_cases text with ⟨b, rfl⟩ | ⟨b, rfl⟩ | other
  · rw [trackBracket_opening] at ok
    have size := opens.length_eq
    split at ok
    next => cases ok
    next room => exact ⟨_, track_opening (by omega) b⟩
  · cases openers : s.openers with
    | nil =>
        rw [trackBracket_closing_nil number x b openers] at ok
        cases ok
    | cons o rest =>
        rw [openers] at opens
        cases opens with
        | cons first others =>
            obtain ⟨t, waiting, isOpening⟩ := first
            rw [trackBracket_closing_cons number x b openers waiting, isOpening] at ok
            split at ok
            next fits =>
              rw [opening_injective fits]
              exact ⟨_, track_closing _ _⟩
            next => cases ok
  · exact ⟨_, track_plain other _⟩

theorem Loaded.of_trackBracket (loaded : Loaded s order read stack) {x : Handle}
    (last : ∀ o ∈ s.openers, o.handle ≠ x) {text : String}
    (here : (s.chain.token? x).map (·.text) = some text) {number : Nat} {s' : State}
    (ok : trackBracket number x text s = .ok s') :
    s'.place = s.place ∧ ∃ stack', Loaded s' order read stack' := by
  obtain ⟨stack', tracked⟩ := track_of_trackBracket loaded ok
  obtain ⟨s₁, same, place, loaded'⟩ := trackBracket_ok loaded last here tracked number
  cases same.symm.trans ok
  exact ⟨place, stack', loaded'⟩

/-! ### The end of the text -/

/-- Where no bracket is open the check of the chain passes. -/
theorem Loaded.finish_nil (loaded : Loaded s order read stack) (none_open : s.openers = [])
    (options : Options) : finish options s = .ok s.chain := by
  have checked := validate_of_sound loaded.valid.stored.live_eq loaded.valid.sound
  simp only [finish, none_open, checked, ite_self]

theorem finish_cons {s : State} {o : Opener} {rest : List Opener} (open_ : s.openers = o :: rest)
    {t : Token} (found : s.chain.token? o.handle = some t) (options : Options) :
    finish options s = .error (.refused (.unbalancedBracket o.line t.text)) := by
  simp only [finish, open_, token_ok found, onChain_ok, ok_bind]
  rfl

/-- At the end only an open bracket is a reason to refuse a dump. -/
theorem Loaded.finish_cases (loaded : Loaded s order read stack) :
    (s.openers = [] ∧ ∀ options, finish options s = .ok s.chain) ∨
      ∃ (line : Nat) (b : Bracket), ∀ options,
        finish options s = .error (.refused (.unbalancedBracket line b.opening)) := by
  have opens := loaded.opens
  cases openers : s.openers with
  | nil => exact .inl ⟨rfl, loaded.finish_nil openers⟩
  | cons o rest =>
      rw [openers] at opens
      cases opens with
      | @cons _ b _ _ first _ =>
          obtain ⟨t, found, isOpening⟩ := first
          exact .inr ⟨o.line, b, isOpening ▸ finish_cons openers found⟩

/-! ### One word -/

/-- A token as the reader makes it at a place. -/
def Place.token (place : Place) {text : String} (nonempty : text ≠ "") (varId : UInt32) : Token :=
  { text, nonempty, lexical := .ofText text, varId, file := place.file.getD 0, line := place.line }

/-- A word is one token more. Its bracket, if it is one and brackets are linked, comes after it. -/
theorem readWord_eq (options : Options) {number : Nat} (loaded : Loaded s order read stack)
    (room : read.length < Limits.dumpTokens) {w : List Char} {text : String} {varId : UInt32}
    (word : readToken number w = .ok (text, varId)) (nonempty : text ≠ "") :
    ∃ t x,
      readWord options number s w =
        (if options.linkBrackets then trackBracket number x text t else .ok t) ∧
      Loaded t (order ++ [x]) (read ++ [s.place.token nonempty varId]) stack ∧ x ∉ order ∧
      t.chain.token? x = some (s.place.token nonempty varId) ∧
      t.place = s.place ∧ t.openers = s.openers ∧
      t.chain.view.partner = s.chain.view.partner := by
  obtain ⟨chain, place, openers, depth⟩ := s
  have live := loaded.live_eq
  have handles := loaded.handles
  obtain ⟨valid, tokens, opens, depth_eq⟩ := loaded
  have slots : chain.live < Limits.slots := by
    have enough : Limits.dumpTokens ≤ Limits.slots := by decide
    rw [live]
    omega
  obtain ⟨d, x, okD, new, validD, -, partnerD, tokensD⟩ :=
    push_ok valid slots nonempty place.line (place.file.getD 0)
  have found : d.view.token? x = some
      { text, nonempty, lexical := .ofText text, line := place.line
        file := place.file.getD 0 } := by
    rw [tokensD, Function.update_self]
  obtain ⟨e, okE, -, view, validE⟩ := modifyToken_ok validD found fun t => { t with varId }
  have token : e.token? = Function.update chain.token? x (some (place.token nonempty varId)) := by
    have shown : e.token? = (d.view.put x (place.token nonempty varId)).token? :=
      congrArg View.token? view
    rw [shown, View.token?_put, tokensD, Function.update_idem]
    rfl
  -- the new handle is none of the old ones, so their tokens are as they were
  have kept {h : Handle} (mem : h ∈ order) : e.token? h = chain.token? h := by
    rw [token]
    refine Function.update_of_ne ?_ _ _
    rintro rfl
    exact new mem
  have short : ¬ Limits.dumpTokens ≤ chain.live := by
    rw [show chain.live = read.length from live]
    omega
  refine ⟨{ chain := e, place, openers, depth }, x, ?_, ⟨validE, ?_, ?_, depth_eq⟩, new, ?_,
    rfl, rfl, ?_⟩
  · simp only [readWord, if_neg short, word, ok_bind, okD, onChain_ok, okE]
    rfl
  · rw [List.map_append, List.map_append, ← tokens, List.map_singleton, List.map_singleton]
    show order.map e.token? ++ [e.token? x] = _
    rw [token, Function.update_self, ← token]
    exact congrArg (· ++ _) (List.map_congr_left fun h mem => kept mem)
  · refine opens.imp fun o b opened => ?_
    obtain ⟨t, shown, isOpening⟩ := opened
    exact ⟨t, (kept (Opens.mem ⟨t, shown, isOpening⟩ valid)).trans shown, isOpening⟩
  · rw [token, Function.update_self]
  · show e.view.partner = chain.view.partner
    rw [view, ← partnerD]
    rfl

theorem readWord_ok (options : Options) {number : Nat} (loaded : Loaded s order read stack)
    (room : read.length < Limits.dumpTokens) {w : List Char} {text : String} {varId : UInt32}
    (word : readToken number w = .ok (text, varId)) (nonempty : text ≠ "")
    (tracked : (if options.linkBrackets then track stack text else some stack) = some stack') :
    ∃ s' x, readWord options number s w = .ok s' ∧ s'.place = s.place ∧
      Loaded s' (order ++ [x]) (read ++ [s.place.token nonempty varId]) stack' := by
  obtain ⟨t, x, start, loadedT, new, token, place, openers, -⟩ :=
    readWord_eq options loaded room word nonempty
  rw [start]
  split at tracked
  next links =>
    rw [if_pos links]
    have last : ∀ o ∈ t.openers, o.handle ≠ x := openers ▸ loaded.openers_ne new
    have here : (t.chain.token? x).map (·.text) = some text := by
      rw [token]
      rfl
    obtain ⟨s', ok, at_place, loaded'⟩ := trackBracket_ok loadedT last here tracked number
    exact ⟨s', x, ok, at_place.trans place, loaded'⟩
  next plain =>
    cases tracked
    rw [if_neg plain]
    exact ⟨t, x, rfl, place, loadedT⟩

/-- A word that was read had room and a text, and its bracket was no reason to refuse it. -/
theorem Loaded.of_readWord {options : Options} (loaded : Loaded s order read stack) {number : Nat}
    {w : List Char} {s' : State} (ok : readWord options number s w = .ok s') :
    ∃ (text : String) (varId : UInt32) (x : Handle) (stack' : List Bracket) (nonempty : text ≠ ""),
      readToken number w = .ok (text, varId) ∧ read.length < Limits.dumpTokens ∧
      (if options.linkBrackets then track stack text else some stack) = some stack' ∧
      s'.place = s.place ∧
      Loaded s' (order ++ [x]) (read ++ [s.place.token nonempty varId]) stack' := by
  obtain ⟨room, step⟩ := unless_throw_eq_ok_iff.1 ok
  obtain ⟨⟨text, varId⟩, word, step⟩ := exists_of_bind_eq_ok step
  rw [loaded.live_eq, Nat.not_le] at room
  have nonempty : text ≠ "" := by
    rintro rfl
    obtain ⟨_, pushed, -⟩ := exists_of_bind_eq_ok step
    have refuses : s.chain.push "" s.place.line (s.place.file.getD 0) = .error .emptyText := rfl
    rw [refuses] at pushed
    cases pushed
  have tracked : ∃ stack', (if options.linkBrackets then track stack text else some stack) =
      some stack' := by
    obtain ⟨t, x, start, loadedT, -⟩ := readWord_eq options loaded room word nonempty
    rw [start] at ok
    split
    next links =>
      rw [if_pos links] at ok
      exact track_of_trackBracket loadedT ok
    next => exact ⟨stack, rfl⟩
  obtain ⟨stack', tracked⟩ := tracked
  obtain ⟨s₁, x, same, place, loaded'⟩ := readWord_ok options loaded room word nonempty tracked
  cases same.symm.trans ok
  exact ⟨text, varId, x, stack', nonempty, word, room, tracked, place, loaded'⟩

/-! ### A whole run -/

/-- What the reader makes of items from a place on: the tokens, each with its line in the dump, and
the place where it stands after them. -/
inductive Reads (names : Names) : Place → List (Item × Nat) → Place → List (Token × Nat) → Prop
  | done {place : Place} : Reads names place [] place []
  | moved {place next final : Place} {item : Item × Nat} {rest : List (Item × Nat)}
      {read : List (Token × Nat)} : (∀ word, item.1 ≠ .token word) →
      moveTo names place item = .ok next → Reads names next rest final read →
      Reads names place (item :: rest) final read
  | token {place final : Place} {number : Nat} {word : List Char} {text : String} {varId : UInt32}
      {rest : List (Item × Nat)} {read : List (Token × Nat)} (nonempty : text ≠ "") :
      readToken number word = .ok (text, varId) → Reads names place rest final read →
      Reads names place ((.token word, number) :: rest) final
        ((place.token nonempty varId, number) :: read)

theorem Reads.lines {names : Names} {place final : Place} {items : List (Item × Nat)}
    {more : List (Token × Nat)} (reads : Reads names place items final more) :
    more.map Prod.snd = items.filterMap tokenLine? := by
  induction reads with
  | done => rfl
  | @moved _ _ _ item _ _ other _ _ ih =>
      obtain ⟨kind, number⟩ := item
      cases kind with
      | token word => exact absurd rfl (other word)
      | header name => exact ih
      | marker word => exact ih
  | token _ _ _ ih =>
      rw [List.map_cons, ih]
      rfl

theorem readItem_of_move (names : Names) (options : Options) {item : Item × Nat}
    (other : ∀ word, item.1 ≠ .token word) (s : State) :
    readItem names options s item =
      (moveTo names s.place item).map fun place => { s with place } := by
  obtain ⟨kind, number⟩ := item
  cases kind with
  | token word => exact absurd rfl (other word)
  | header name =>
      rw [readItem]
      cases moveTo names s.place (.header name, number) <;> rfl
  | marker word =>
      rw [readItem]
      cases moveTo names s.place (.marker word, number) <;> rfl

theorem Loaded.atPlace (loaded : Loaded s order read stack) (place : Place) :
    Loaded { s with place } order read stack :=
  ⟨loaded.valid, loaded.tokens, loaded.opens, loaded.depth_eq⟩

/-- A run that succeeds has read its items, whether it links brackets or not. -/
theorem Loaded.exists_reads {names : Names} {options : Options} {items : List (Item × Nat)}
    {s' : State} (loaded : Loaded s order read stack) (few : read.length ≤ Limits.dumpTokens)
    (run : items.foldlM (readItem names options) s = .ok s') :
    ∃ order' more stack', Reads names s.place items s'.place more ∧
      Loaded s' order' (read ++ more.map Prod.fst) stack' ∧
      read.length + more.length ≤ Limits.dumpTokens ∧
      (options.linkBrackets = false → stack' = stack) := by
  induction items generalizing s order read stack with
  | nil =>
      cases run
      exact ⟨order, [], stack, .done, by simpa using loaded, few, fun _ => rfl⟩
  | cons item items ih =>
      rw [List.foldlM_cons] at run
      obtain ⟨s₁, first, others⟩ := exists_of_bind_eq_ok run
      by_cases word : ∃ word, item.1 = .token word
      · obtain ⟨kind, number⟩ := item
        obtain ⟨word, rfl⟩ := word
        obtain ⟨text, varId, x, stack₁, nonempty, token, room, tracked, place, loaded₁⟩ :=
          loaded.of_readWord first
        obtain ⟨order', more, stack', reads, loaded', few', same⟩ :=
          ih loaded₁ (by rw [List.length_append]; exact room) others
        refine ⟨order', (s.place.token nonempty varId, number) :: more, stack', ?_, ?_, ?_, ?_⟩
        · exact .token nonempty token (place ▸ reads)
        · rw [List.map_cons, List.append_cons]
          exact loaded'
        · rw [List.length_append, List.length_singleton] at few'
          rw [List.length_cons]
          omega
        · intro off
          rw [off] at tracked
          rw [same off]
          exact (Option.some.inj tracked).symm
      · have other : ∀ word, item.1 ≠ .token word := fun w same => word ⟨w, same⟩
        rw [readItem_of_move names options other] at first
        cases moved : moveTo names s.place item with
        | error e =>
            rw [moved] at first
            cases first
        | ok place =>
            rw [moved] at first
            cases first
            obtain ⟨order', more, stack', reads, loaded', few', same⟩ :=
              ih (loaded.atPlace place) few others
            exact ⟨order', more, stack', .moved other moved reads, loaded', few', same⟩

end

end TokenStream.Dump
