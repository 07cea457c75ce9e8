import TokenStream.Command.Run
import TokenStream.Proofs.Pattern.Reference
/-!
Searches in a valid chain. A search looks at one stretch of the nodes and stops at the first one at
which the pattern matches; a scan goes on behind each of these and meets all of them, in order.
-/
namespace TokenStream

namespace Pattern

/-- What a search for the pattern has to report. -/
def misuseReports (pattern : String) (varId : UInt32) : List Diagnostic :=
  if varId = 0 ∧ "%varid%".toList ∈ words pattern then [varIdZeroReport] else []

theorem guarded_eq {α : Type} (pattern : String) (varId : UInt32) (refused answer : α) :
    guarded pattern varId refused (.ok answer) =
      .ok { answer := if misused pattern varId then refused else answer
            reports := misuseReports pattern varId } := by
  unfold guarded misuseReports
  simp only [← misused_iff]
  split <;> rfl

end Pattern

namespace Chain

open Pattern
open Text (wordTails)

variable {c : Chain} {order A C : List Handle} {tails : List (List Char)} {varId : UInt32}

/-! ### One search -/

/-- The nodes from `start` on that come before `stop`, which need not come at all. -/
def stretch (order : List Handle) (start stop : Option Handle) : List Handle :=
  (order.dropWhile (some · != start)).takeWhile (some · != stop)

theorem takeWhile_ne_none (C : List Handle) : C.takeWhile (some · != none) = C :=
  List.takeWhile_eq_self_iff.2 fun _ _ => rfl

/-- On a valid chain the matcher comes to an answer. -/
theorem exists_matchTails (sound : c.view.Sound (A ++ C)) (varId : UInt32) (untested : Bool)
    (tails : List (List Char)) : ∃ b, c.matchTails varId untested C.head? tails = .ok b := by
  induction tails generalizing A C untested with
  | nil =>
      refine ⟨true, ?_⟩
      unfold matchTails
      cases C <;> rfl
  | cons tail tails ih =>
      cases C with
      | nil =>
          rw [List.head?_nil, matchTails]
          split
          · exact ih sound untested
          · exact ⟨false, rfl⟩
      | cons h C =>
          obtain ⟨n, here, -, next⟩ := exists_node_of_sound sound
          have stay (untested : Bool) := ih sound untested
          have step := ih (A := A ++ [h]) (C := C) (by rwa [List.append_cons] at sound) false
          rw [List.head?_cons, matchTails, node_eq_ok_iff.2 here, ok_bind, next]
          split
          · exact stay true
          · cases test varId n.token tail with
            | accept => exact step
            | reject => exact ⟨false, rfl⟩
            | pass => exact stay false

theorem exists_answers (sound : c.view.Sound order) (varId : UInt32) (tails : List (List Char)) :
    ∃ answer : Handle → Bool, ∀ h ∈ order,
      c.matchTails varId true (some h) tails = .ok (answer h) := by
  have total (h : Handle) : ∃ b, h ∈ order → c.matchTails varId true (some h) tails = .ok b := by
    by_cases mem : h ∈ order
    · obtain ⟨A, C, rfl⟩ := List.append_of_mem mem
      obtain ⟨b, ok⟩ := exists_matchTails sound varId true tails
      exact ⟨b, fun _ => ok⟩
    · exact ⟨false, fun here => absurd here mem⟩
  choose answer answers using total
  exact ⟨answer, answers⟩

theorem findFrom_eq (sound : c.view.Sound (A ++ C)) {hit : Handle → Bool}
    (answers : ∀ h ∈ A ++ C, c.matchTails varId true (some h) tails = .ok (hit h))
    {n : Nat} (fuel : C.length ≤ n) (stop : Option Handle) :
    c.findFrom tails stop varId n C.head? =
      .ok ((C.takeWhile (some · != stop)).find? hit) := by
  induction C generalizing A n with
  | nil => cases n <;> rfl
  | cons h C ih =>
      obtain ⟨n, rfl⟩ : ∃ m, n = m + 1 := Nat.exists_eq_add_one.2 (by simp at fuel; omega)
      have next := next_of_sound sound
      rw [List.head?_cons, findFrom]
      by_cases here : some h = stop
      · subst here
        rw [if_pos rfl, List.takeWhile_cons_of_neg (by simp)]
        rfl
      · rw [if_neg here, answers h (by simp), List.takeWhile_cons_of_pos (by simpa using here),
          List.find?_cons]
        cases hit h with
        | true => rfl
        | false =>
            rw [List.append_cons] at sound answers
            simp only [ok_bind, next]
            exact ih sound answers (Nat.le_of_succ_le_succ fuel)

/-- To refuse a search is to search where no node is a hit. -/
theorem find?_unless (refused : Bool) (p : Handle → Bool) (C : List Handle) :
    (if refused then none else C.find? p) = C.find? fun h => !refused && p h := by
  cases refused with
  | false => rfl
  | true => exact (List.find?_eq_none.2 fun h _ => Bool.false_ne_true).symm

theorem filter_unless (refused : Bool) (p : Handle → Bool) (C : List Handle) :
    (if refused then [] else C.filter p) = C.filter fun h => !refused && p h := by
  cases refused with
  | false => rfl
  | true => exact (List.filter_eq_nil_iff.2 fun h _ => Bool.false_ne_true).symm

theorem findMatch_eq (sound : c.view.Sound (A ++ C)) {pattern : String} {answer : Handle → Bool}
    (answers : ∀ h ∈ A ++ C,
      c.matchTails varId true (some h) (wordTails pattern.toList) = .ok (answer h))
    (stop : Option Handle) :
    c.findMatch C.head? pattern stop varId =
      .ok { answer := (C.takeWhile (some · != stop)).find? fun h =>
              !misused pattern varId && answer h
            reports := misuseReports pattern varId } := by
  have fuel := length_rest_le_stepLimit sound
  rw [findMatch, findFrom_eq sound answers fuel, guarded_eq, find?_unless]

/-- A list either has no hit, or the hits are the first of them and those behind it. -/
theorem hit_cases (hit : Handle → Bool) (C : List Handle) :
    (C.find? hit = none ∧ C.filter hit = []) ∨
      ∃ P h Q, C = P ++ h :: Q ∧ C.find? hit = some h ∧ hit h = true ∧
        C.filter hit = h :: Q.filter hit := by
  cases found : C.find? hit with
  | none => exact .inl ⟨rfl, List.filter_eq_nil_iff.2 (List.find?_eq_none.1 found)⟩
  | some h =>
      obtain ⟨holds, P, Q, rfl, before⟩ := List.find?_eq_some_iff_append.1 found
      have none : P.filter hit = [] :=
        List.filter_eq_nil_iff.2 fun k mem => by simpa using before k mem
      refine .inr ⟨P, h, Q, rfl, rfl, holds, ?_⟩
      rw [List.filter_append, none, List.nil_append, List.filter_cons_of_pos holds]

theorem next_behind {P Q : List Handle} {h : Handle}
    (sound : c.view.Sound (A ++ (P ++ h :: Q))) : c.next h = .ok Q.head? := by
  rw [← List.append_assoc] at sound
  exact next_of_sound sound

theorem findAllFrom_eq (sound : c.view.Sound (A ++ C)) {hit : Handle → Bool}
    (answers : ∀ h ∈ A ++ C, c.matchTails varId true (some h) tails = .ok (hit h))
    {n : Nat} (fuel : C.length ≤ n) (found : Array Handle) :
    c.findAllFrom tails varId n C.head? found = .ok (found ++ (C.filter hit).toArray) := by
  induction n generalizing A C found with
  | zero =>
      obtain rfl := List.eq_nil_of_length_eq_zero (Nat.le_zero.1 fuel)
      simp [findAllFrom]
  | succ n ih =>
      have short := length_rest_le_stepLimit sound
      rw [findAllFrom, findFrom_eq sound answers short none, takeWhile_ne_none, ok_bind]
      rcases hit_cases hit C with ⟨missed, nothing⟩ | ⟨P, h, Q, rfl, first, -, rest⟩
      · rw [missed, nothing, Array.append_empty]
        rfl
      · have next := next_behind sound
        have split : A ++ (P ++ h :: Q) = (A ++ P ++ [h]) ++ Q := by simp
        rw [split] at sound answers
        rw [first, rest]
        simp only [next, ok_bind]
        rw [ih sound answers (by simp at fuel; omega)]
        simp

theorem findAll_eq (sound : c.view.Sound order) {pattern : String} {answer : Handle → Bool}
    (answers : ∀ h ∈ order,
      c.matchTails varId true (some h) (wordTails pattern.toList) = .ok (answer h)) :
    c.findAll pattern varId =
      .ok { answer := order.filter fun h => !misused pattern varId && answer h
            reports := misuseReports pattern varId } := by
  have front : c.front = order.head? := sound.ring.next_none
  have limit := length_le_stepLimit sound
  rw [findAll, front, findAllFrom_eq (A := []) sound answers limit, Except.map, guarded_eq,
    Array.empty_append, List.toList_toArray, filter_unless]

/-! ### A scan, search by search -/

/-- Searches from a start to the end of the chain, each but the first from behind the last find:
what they find and what they report. -/
inductive Scans (c : Chain) (pattern : String) (varId : UInt32) :
    Option Handle → List Handle → List Diagnostic → Prop
  | finish {start reports} :
      c.findMatch start pattern none varId = .ok { answer := none, reports } →
      Scans c pattern varId start [] reports
  | found {start h after hits reports later} :
      c.findMatch start pattern none varId = .ok { answer := some h, reports } →
      c.next h = .ok after → Scans c pattern varId after hits later →
      Scans c pattern varId start (h :: hits) (reports ++ later)

theorem Scans.unique {pattern : String} {start : Option Handle} {hits hits' : List Handle}
    {reports reports' : List Diagnostic} (scans : c.Scans pattern varId start hits reports)
    (scans' : c.Scans pattern varId start hits' reports') : hits = hits' ∧ reports = reports' := by
  induction scans generalizing hits' reports' with
  | finish missed =>
      cases scans' with
      | finish missed' =>
          rw [missed] at missed'
          cases missed'
          exact ⟨rfl, rfl⟩
      | found first =>
          rw [missed] at first
          cases first
  | found first next rest ih =>
      cases scans' with
      | finish missed =>
          rw [first] at missed
          cases missed
      | found first' next' rest' =>
          rw [first] at first'
          cases first'
          rw [next] at next'
          cases next'
          obtain ⟨rfl, rfl⟩ := ih rest'
          exact ⟨rfl, rfl⟩

/-- The searches come to an end, and to all hits by then. Where there is a hit, they have nothing to
report. -/
theorem scans_hits (sound : c.view.Sound (A ++ C)) {pattern : String} {answer : Handle → Bool}
    (answers : ∀ h ∈ A ++ C,
      c.matchTails varId true (some h) (wordTails pattern.toList) = .ok (answer h)) :
    c.Scans pattern varId C.head? (C.filter fun h => !misused pattern varId && answer h)
      (misuseReports pattern varId) := by
  -- the part that is left shrinks by more than the find
  induction length : C.length using Nat.strongRecOn generalizing A C with
  | ind n ih =>
      have search := findMatch_eq sound answers none
      rw [takeWhile_ne_none] at search
      rcases hit_cases (fun h => !misused pattern varId && answer h) C with
        ⟨missed, nothing⟩ | ⟨P, h, Q, rfl, first, holds, rest⟩
      · rw [missed] at search
        rw [nothing]
        exact .finish search
      · have next := next_behind sound
        have split : A ++ (P ++ h :: Q) = (A ++ P ++ [h]) ++ Q := by simp
        rw [split] at sound answers
        have later := ih Q.length (by simp at length; omega) sound answers rfl
        have quiet : misuseReports pattern varId = [] := by
          rw [Bool.and_eq_true, Bool.not_eq_true', ← Bool.not_eq_true, misused_iff] at holds
          exact if_neg holds.1
        rw [first] at search
        have scans := Scans.found search next later
        rwa [quiet, List.nil_append, ← quiet, ← rest] at scans

/-- The record says where the token of the node is, and its text. -/
def Records (c : Chain) (h : Handle) (record : Command.Hit) : Prop :=
  ∃ t, c.token? h = some t ∧ record.file = t.file ∧ record.line = t.line ∧ record.text = t.text

theorem mapM_hits (live : ∀ h ∈ C, c.contains h = true) :
    ∃ records, C.mapM (fun h => return Command.Hit.ofToken (← c.token h)) = .ok records ∧
      List.Forall₂ c.Records C records := by
  induction C with
  | nil => exact ⟨[], rfl, .nil⟩
  | cons h C ih =>
      have here := live h List.mem_cons_self
      rw [contains_eq_isSome_token?] at here
      obtain ⟨t, found⟩ := Option.isSome_iff_exists.1 here
      obtain ⟨records, rest, all⟩ := ih fun k mem => live k (List.mem_cons_of_mem h mem)
      refine ⟨.ofToken t :: records, ?_, .cons ⟨t, found, rfl, rfl, rfl⟩ all⟩
      rw [List.mapM_cons, token_ok found, rest]
      rfl

/-- What the matcher says of the nodes of a valid chain decides every search and every scan in it.
A search stops at the first node of its stretch at which the pattern matches. The searches of a scan
come to an end, and have found all such nodes by then, in order and once each, and a scan records
their tokens. A misused pattern matches nowhere, which is reported once; nothing else is
reported. -/
theorem search_exact (sound : c.view.Sound order) (pattern : String) (varId : UInt32) :
    ∃ hit : Handle → Bool,
      (∀ h ∈ order, c.matchesAt (some h) pattern varId =
        .ok { answer := hit h, reports := misuseReports pattern varId }) ∧
      (∀ start stop, (∀ h, start = some h → c.contains h = true) →
        c.findMatch start pattern stop varId =
          .ok { answer := (stretch order start stop).find? hit
                reports := misuseReports pattern varId }) ∧
      (∀ hits reports, c.Scans pattern varId c.front hits reports ↔
        hits = order.filter hit ∧ reports = misuseReports pattern varId) ∧
      c.findAll pattern varId =
        .ok { answer := order.filter hit, reports := misuseReports pattern varId } ∧
      (∃ records, Command.scan c pattern varId =
          .ok { answer := records, reports := misuseReports pattern varId } ∧
        List.Forall₂ c.Records (order.filter hit) records) ∧
      (varId = 0 → "%varid%".toList ∈ words pattern → ∀ h, hit h = false) := by
  obtain ⟨answer, answers⟩ := exists_answers sound varId (wordTails pattern.toList)
  have front : c.front = order.head? := sound.ring.next_none
  refine ⟨fun h => !misused pattern varId && answer h, ?_, ?_, ?_, findAll_eq sound answers, ?_, ?_⟩
  · intro h mem
    rw [matchesAt, matchElements, answers h mem, guarded_eq]
    cases misused pattern varId <;> rfl
  · intro start stop live
    obtain ⟨A, C, rfl, rfl, part, -⟩ := exists_part sound live
    rw [stretch, part]
    exact findMatch_eq sound answers stop
  · intro hits reports
    have scans := scans_hits (A := []) sound answers
    rw [front]
    constructor
    · exact fun other => other.unique scans
    · rintro ⟨rfl, rfl⟩
      exact scans
  · have live : ∀ h ∈ order.filter fun h => !misused pattern varId && answer h,
        c.contains h = true := fun h mem => contains_of_sound sound (List.mem_of_mem_filter mem)
    obtain ⟨records, recorded, all⟩ := mapM_hits live
    refine ⟨records, ?_, all⟩
    rw [Command.scan, findAll_eq sound answers, ok_bind, recorded]
    rfl
  · intro zero asked h
    rw [misused_iff.2 ⟨zero, asked⟩]
    rfl

-- Two finds of `%any% %any%` share a token. Without an identity `%varid%` is found nowhere.
theorem declaration_scanned :
    ∃ order, ∃ hit : Handle → Bool, declaration.view.Sound order ∧
      (∀ h ∈ order, declaration.matchesAt (some h) "%any% %any%" 0 =
        .ok { answer := hit h, reports := [] }) ∧
      order.filter hit = [⟨0, 0⟩, ⟨1, 0⟩] ∧
      declaration.Scans "%any% %varid%" 0 declaration.front [] [varIdZeroReport] := by
  obtain ⟨order, sound⟩ := sound_of_validate (c := declaration) (by decide) (by decide)
  obtain ⟨hit, here, -, scans, -⟩ := search_exact sound "%any% %any%" 0
  obtain ⟨hit', -, -, scans', -, -, nowhere⟩ := search_exact sound "%any% %varid%" 0
  have ran : declaration.Scans "%any% %any%" 0 declaration.front [⟨0, 0⟩, ⟨1, 0⟩]
      ([] ++ ([] ++ [])) := .found rfl rfl (.found rfl rfl (.finish rfl))
  have asked : "%varid%".toList ∈ words "%any% %varid%" := by decide
  refine ⟨order, hit, sound, here, ((scans _ _).1 ran).1.symm, (scans' _ _).2 ⟨?_, ?_⟩⟩
  · exact (List.filter_eq_nil_iff.2 fun h _ => by simp [nowhere rfl asked h]).symm
  · exact (if_pos ⟨rfl, asked⟩).symm

end Chain

end TokenStream
