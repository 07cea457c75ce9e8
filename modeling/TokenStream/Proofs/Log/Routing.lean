import Mathlib.Data.List.Forall2
import TokenStream.Log.Target
/-!
What a tree of targets comes to. Its leaves, from left to right, each with the levels on the way to
it, say all about it: a record is taken once at each leaf whose levels all let it through. The lines
of a log file follow from the records that its leaves take.
-/
namespace TokenStream.Log

/-- A sink at one place of a tree, and the levels that a record meets on its way there, the level of
the sink itself among them. -/
structure Leaf where
  sink : Sink
  levels : List Level
deriving DecidableEq, Repr

namespace Leaf

/-- The level is as grave as each of those on the way, or graver. -/
def Admits (l : Leaf) (level : Level) : Prop :=
  ∀ least ∈ l.levels, level.rank ≤ least.rank

instance (l : Leaf) (level : Level) : Decidable (l.Admits level) :=
  inferInstanceAs (Decidable (∀ least ∈ l.levels, level.rank ≤ least.rank))

/-- The same leaf of a tree that stands behind one more level. -/
def behind (least : Level) (l : Leaf) : Leaf :=
  { l with levels := least :: l.levels }

theorem admits_behind (least : Level) (l : Leaf) (level : Level) :
    (l.behind least).Admits level ↔ level.rank ≤ least.rank ∧ l.Admits level :=
  List.forall_mem_cons

end Leaf

/-- A memory has no level of its own. -/
def Sink.leaf : Sink → Leaf
  | .memory slot => { sink := .memory slot, levels := [] }
  | .console least structured => { sink := .console least structured, levels := [least] }
  | .file path least structured => { sink := .file path least structured, levels := [least] }

namespace Target

mutual

def leaves : Target → List Leaf
  | .sink s => [s.leaf]
  | .group least members => (leavesAll members).map (.behind least)

def leavesAll : List Target → List Leaf
  | [] => []
  | t :: rest => leaves t ++ leavesAll rest

end

end Target

def Service.leaves (s : Service) : List Leaf :=
  s.target.leaves.map (.behind s.least)

/-! ### One record -/

/-- The leaves that let a record through, from left to right. -/
def taken (r : Record) (leaves : List Leaf) : Deliveries :=
  (leaves.filter (·.Admits r.level)).map fun l => (l.sink, r)

theorem taken_append (r : Record) (ls ls' : List Leaf) :
    taken r (ls ++ ls') = taken r ls ++ taken r ls' := by
  rw [taken, List.filter_append, List.map_append]
  rfl

theorem passes_iff {level least : Level} : level.passes least = true ↔ level.rank ≤ least.rank :=
  decide_eq_true_iff

/-- One more level in front of all leaves lets through what they let through, or nothing. -/
theorem taken_behind (r : Record) (least : Level) (ls : List Leaf) :
    taken r (ls.map (.behind least)) = if r.level.passes least then taken r ls else [] := by
  have admits : (fun l : Leaf => decide (l.Admits r.level)) ∘ Leaf.behind least =
      fun l => r.level.passes least && decide (l.Admits r.level) := by
    funext l
    rw [Function.comp_apply, Bool.eq_iff_iff, Bool.and_eq_true, decide_eq_true_iff,
      decide_eq_true_iff, passes_iff, Leaf.admits_behind]
  rw [taken, List.filter_map, List.map_map, admits]
  cases r.level.passes least with
  | false => simp
  | true =>
      simp only [Bool.true_and]
      rfl

theorem taken_leaf (r : Record) (s : Sink) :
    taken r [s.leaf] = if s.takes r.level then [(s, r)] else [] := by
  cases s with
  | memory slot => rfl
  | console least structured =>
      exact taken_behind r least [{ sink := .console least structured, levels := [] }]
  | file path least structured =>
      exact taken_behind r least [{ sink := .file path least structured, levels := [] }]

namespace Target

mutual

theorem deliver_eq (r : Record) : (t : Target) → t.deliver r = taken r t.leaves
  | .sink s => (taken_leaf r s).symm
  | .group least members => by
      rw [deliver, leaves, taken_behind, deliverAll_eq r members]

theorem deliverAll_eq (r : Record) : (ts : List Target) → deliverAll r ts = taken r (leavesAll ts)
  | [] => rfl
  | t :: rest => by
      rw [deliverAll, leavesAll, taken_append, deliver_eq r t, deliverAll_eq r rest]

end

end Target

theorem recordsAt_taken (r : Record) (ls : List Leaf) (sink : Sink) :
    (taken r ls).recordsAt sink =
      (ls.filter fun l => l.sink = sink ∧ l.Admits r.level).map fun _ => r := by
  rw [taken, Deliveries.recordsAt, List.filter_map, List.map_map, List.filter_filter]
  simp only [Function.comp_def, Bool.decide_and]

/-! ### A place in a tree -/

namespace Target

/-- A tree with a place left open in it. -/
inductive Gap
  | here
  | inside (least : Level) (left : List Target) (gap : Gap) (right : List Target)

namespace Gap

def fill (t : Target) : Gap → Target
  | .here => t
  | .inside least left gap right => .group least (left ++ gap.fill t :: right)

/-- The levels on the way to the open place. -/
def levels : Gap → List Level
  | .here => []
  | .inside least _ gap _ => least :: gap.levels

end Gap

theorem deliverAll_append (r : Record) (ts us : List Target) :
    deliverAll r (ts ++ us) = deliverAll r ts ++ deliverAll r us := by
  induction ts with
  | nil => rfl
  | cons t ts ih => rw [List.cons_append, deliverAll, deliverAll, ih, List.append_assoc]

/-- What stands in a place is reached by the records that the levels on the way let through, and
changes nothing about what is taken to the left and to the right of it. -/
theorem Gap.deliver_fill (gap : Gap) :
    ∃ before after : Record → Deliveries, ∀ t r, (gap.fill t).deliver r =
      before r ++ (if ∀ least ∈ gap.levels, r.level.rank ≤ least.rank then t.deliver r else []) ++
        after r := by
  induction gap with
  | here =>
      refine ⟨fun _ => [], fun _ => [], fun t r => ?_⟩
      rw [levels, if_pos (List.forall_mem_nil _), List.nil_append, List.append_nil]
      rfl
  | inside least left gap right ih =>
      obtain ⟨before, after, shown⟩ := ih
      refine ⟨fun r => if r.level.passes least then deliverAll r left ++ before r else [],
        fun r => if r.level.passes least then after r ++ deliverAll r right else [], fun t r => ?_⟩
      rw [fill, deliver, deliverAll_append, deliverAll, shown, levels]
      simp only [List.forall_mem_cons, ← passes_iff]
      cases r.level.passes least with
      | false => simp
      | true => simp only [if_true, true_and, List.append_assoc]

end Target

/-! ### Lines -/

/-- The words for the levels in log lines. -/
def levelWords : List (Level × String) :=
  [(.error, "ERROR"), (.warning, "WARN"), (.info, "INFO"), (.debug, "DEBUG")]

/-- What a line shows of a record. A structured one is an object, a plain one leaves the time and
the named values out. -/
inductive Shows (r : Record) : Bool → String → Prop
  | plain {word : String} : (r.level, word) ∈ levelWords → r.location = none →
      Shows r false ("[" ++ word ++ "] " ++ r.code.text ++ " - " ++ r.message)
  | placed {word : String} {l : Location} : (r.level, word) ∈ levelWords → r.location = some l →
      Shows r false ("[" ++ word ++ "] " ++ r.code.text ++ " - " ++ r.message ++ " at " ++ l.file ++
        ":" ++ toString l.line)
  | structured {word : String} {members : List (String × Json)} : (r.level, word) ∈ levelWords →
      members.lookup "timestamp" = some (.text r.time.text) →
      members.lookup "level" = some (.text word) →
      members.lookup "code" = some (.text r.code.text) →
      members.lookup "message" = some (.text r.message) →
      (members.lookup "location" = r.location.map fun l =>
        .object [("file", .text l.file), ("line", .nat l.line.toNat)]) →
      (members.lookup "context" = if r.context = [] then none
        else some (.object (r.context.map fun entry => (entry.1, .text entry.2)))) →
      Shows r true (Json.object members).compact

theorem word_mem (level : Level) : (level, level.name) ∈ levelWords := by
  cases level <;> decide

theorem shows_format (r : Record) : Shows r false r.format := by
  cases place : r.location with
  | none =>
      have text : r.format = "[" ++ r.level.name ++ "] " ++ r.code.text ++ " - " ++ r.message := by
        simp [Event.format, place, toString]
      exact text ▸ .plain (word_mem r.level) place
  | some l =>
      have text : r.format = "[" ++ r.level.name ++ "] " ++ r.code.text ++ " - " ++ r.message ++
          " at " ++ l.file ++ ":" ++ toString l.line := by
        simp [Event.format, Location.render, place, toString, String.append_assoc]
      exact text ▸ .placed (word_mem r.level) place

theorem lookup_contextMembers (r : Record) (key : String) :
    r.contextMembers.lookup key =
      if key = "context" ∧ r.context ≠ [] then
        some (.object (r.context.map fun entry => (entry.1, .text entry.2)))
      else none := by
  rw [Record.contextMembers]
  by_cases empty : r.context = []
  · simp [empty]
  · by_cases same : key = "context" <;> simp [empty, same]

theorem lookup_errorMembers (r : Record) {key : String} (other : key ≠ "error_metadata") :
    r.errorMembers.lookup key = none := by
  rw [Record.errorMembers]
  split <;> simp [other]

theorem lookup_locationMembers (r : Record) (key : String) :
    r.locationMembers.lookup key =
      if key = "location" then r.location.map fun l =>
        .object [("file", .text l.file), ("line", .nat l.line.toNat)]
      else none := by
  rw [Record.locationMembers]
  by_cases same : key = "location" <;> cases r.location <;> simp [same]

theorem shows_json (r : Record) : Shows r true r.json.compact := by
  refine .structured (word_mem r.level) ?_ ?_ ?_ ?_ ?_ ?_
  all_goals simp [Record.members, List.lookup_append, List.lookup_cons, lookup_contextMembers,
    lookup_errorMembers, lookup_locationMembers]

theorem shows_line (r : Record) (structured : Bool) : Shows r structured (r.line structured) := by
  cases structured with
  | false => exact shows_format r
  | true => exact shows_json r

/-! ### Log files -/

/-- Whether the lines of a file are structured, if the sink writes to this file. -/
def Sink.fileForm? (path : String) : Sink → Option Bool
  | .file other _ structured => if other = path then some structured else none
  | _ => none

/-- What the lines of a file are to show, by the leaves that write to it: a record for each of them
that lets it through, with the form of the line. -/
def Leaf.fileEntries (path : String) (ls : List Leaf) (r : Record) : List (Record × Bool) :=
  (ls.filter (·.Admits r.level)).filterMap fun l =>
    (l.sink.fileForm? path).map fun form => (r, form)

theorem write?_file (r : Record) (path : String) (s : Sink) :
    (s.write? r).filter (·.1 = .file path) =
      (s.fileForm? path).map fun form => (.file path, r.line form) := by
  cases s with
  | memory slot => rfl
  | console least structured => rfl
  | file other least structured =>
      by_cases same : other = path
      · simp [Sink.write?, Sink.fileForm?, same]
      · simp [Sink.write?, Sink.fileForm?, same]

/-- The lines of a file, by what they are to show. -/
theorem linesAt_taken (r : Record) (path : String) (ls : List Leaf) :
    (taken r ls).writes.linesAt (.file path) =
      (Leaf.fileEntries path ls r).map fun entry => entry.1.line entry.2 := by
  rw [taken, Deliveries.writes, Writes.linesAt, Leaf.fileEntries, List.filterMap_map,
    List.filter_filterMap, List.map_filterMap, List.map_filterMap]
  congr 1
  funext l
  show ((l.sink.write? r).filter (·.1 = .file path)).map (·.2) = _
  rw [write?_file, Option.map_map, Option.map_map]
  rfl

/-! ### Whole runs -/

theorem Service.deliver_eq (s : Service) (r : Record) : s.deliver r = taken r s.leaves := by
  rw [deliver, leaves, taken_behind, Target.deliver_eq]
  rfl

/-- The level of a service is that of a group around its target. -/
theorem Service.deliver_eq_group (s : Service) (r : Record) :
    s.deliver r = (Target.group s.least [s.target]).deliver r := by
  rw [Target.deliver, Target.deliverAll, Target.deliverAll, List.append_nil]
  rfl

theorem Service.recordsAt_deliverAll (s : Service) (rs : List Record) (sink : Sink) :
    (s.deliverAll rs).recordsAt sink = rs.flatMap fun r =>
      (s.leaves.filter fun l => l.sink = sink ∧ l.Admits r.level).map fun _ => r := by
  induction rs with
  | nil => rfl
  | cons r rs ih =>
      rw [List.flatMap_cons, ← ih, ← recordsAt_taken, ← deliver_eq, deliverAll, List.flatMap_cons,
        Deliveries.recordsAt, List.filter_append, List.map_append]
      rfl

/-- A sink that the tree has once takes the records that its leaf lets through. -/
theorem Service.recordsAt_single (s : Service) (rs : List Record) {l : Leaf}
    (single : s.leaves.filter (·.sink = l.sink) = [l]) :
    (s.deliverAll rs).recordsAt l.sink = rs.filter (l.Admits ·.level) := by
  have here (r : Record) : (s.leaves.filter fun k => k.sink = l.sink ∧ k.Admits r.level) =
      [l].filter (·.Admits r.level) := by
    rw [← single, List.filter_filter]
    simp only [Bool.decide_and, Bool.and_comm]
  rw [recordsAt_deliverAll]
  simp only [here]
  clear single here
  induction rs with
  | nil => rfl
  | cons r rs ih =>
      rw [List.flatMap_cons, ih, List.filter_cons, List.filter_cons]
      by_cases admits : l.Admits r.level
      · simp [admits]
      · simp [admits]

theorem Service.linesAt_deliverAll (s : Service) (rs : List Record) (path : String) :
    (s.deliverAll rs).writes.linesAt (.file path) =
      (rs.flatMap (Leaf.fileEntries path s.leaves)).map fun entry => entry.1.line entry.2 := by
  induction rs with
  | nil => rfl
  | cons r rs ih =>
      rw [List.flatMap_cons, List.map_append, ← ih, ← linesAt_taken, ← deliver_eq, deliverAll,
        List.flatMap_cons, Deliveries.writes, List.filterMap_append, Writes.linesAt,
        List.filter_append, List.map_append]
      rfl

theorem forall₂_shows (entries : List (Record × Bool)) :
    List.Forall₂ (fun entry line => Shows entry.1 entry.2 line) entries
      (entries.map fun entry => entry.1.line entry.2) := by
  rw [List.forall₂_map_right_iff]
  exact List.forall₂_same.2 fun entry _ => shows_line entry.1 entry.2

/-- Every sink takes the records in order, each once for every leaf of that sink whose levels let it
through; a sink with a single leaf takes exactly the records that this leaf lets through. What
stands at one place of the tree has no effect on what is taken in the rest of it. A log file has one
line for each record at each leaf that writes to it, in this order. -/
theorem Service.deliverAll_exact (s : Service) (rs : List Record) :
    (∀ sink, (s.deliverAll rs).recordsAt sink = rs.flatMap fun r =>
      (s.leaves.filter fun l => l.sink = sink ∧ l.Admits r.level).map fun _ => r) ∧
    (∀ l, s.leaves.filter (·.sink = l.sink) = [l] →
      (s.deliverAll rs).recordsAt l.sink = rs.filter (l.Admits ·.level)) ∧
    (∀ gap : Target.Gap, ∃ before after : Record → Deliveries, ∀ t r,
      ({ s with target := gap.fill t } : Service).deliver r =
        before r ++
          (if ∀ least ∈ s.least :: gap.levels, r.level.rank ≤ least.rank then t.deliver r
            else []) ++
          after r) ∧
    ∀ path, List.Forall₂ (fun entry line => Shows entry.1 entry.2 line)
      (rs.flatMap (Leaf.fileEntries path s.leaves))
      ((s.deliverAll rs).writes.linesAt (.file path)) := by
  refine ⟨s.recordsAt_deliverAll rs, fun l => s.recordsAt_single rs, ?_, ?_⟩
  · intro gap
    obtain ⟨before, after, shown⟩ := (Target.Gap.inside s.least [] gap []).deliver_fill
    refine ⟨before, after, fun t r => ?_⟩
    rw [deliver_eq_group]
    exact shown t r
  · intro path
    rw [linesAt_deliverAll]
    exact forall₂_shows _

-- Two ways lead to the memory; the one behind the group of warnings is closed to the information.
theorem memory_reached_twice :
    let time : Instant := { text := "2026-01-02T03:04:05+00:00" }
    let s : Service :=
      { target := .group .debug [.sink (.memory 0), .group .warning
          [.sink (.memory 0), .sink (.file "errors.log" .error false)]]
        least := .info }
    let failure := (Event.error .internalError "failure").happened time
    let notice := (Event.info "notice").happened time
    let detail := (Event.debug "detail").happened time
    (s.deliverAll [notice, failure, detail]).recordsAt (.memory 0) = [notice, failure, failure] ∧
      (s.deliverAll [notice, failure, detail]).recordsAt (.file "errors.log" .error false) =
        [failure] := by
  intro time s failure notice detail
  obtain ⟨taken, single, -⟩ := s.deliverAll_exact [notice, failure, detail]
  exact ⟨taken (.memory 0),
    single ⟨.file "errors.log" .error false, [.info, .debug, .warning, .error]⟩ rfl⟩

end TokenStream.Log
