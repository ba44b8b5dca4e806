import Mathlib.Data.Rat.Defs
import Mathlib.Algebra.Order.Ring.Rat
import Mathlib.Tactic.Ring
import SkyAccel.Lib.Dict
import SkyAccel.Lib.Run

/-!
# Last-mile statistics

`aggregator/edge.go` with `HandleLastWatchEvent` of `main.go`. Every watch event starts
a goroutine that reads all node reports under the lock (`read`), adds them up, and
installs the sums under the lock again (`install`).
Times are exact rationals, so the order in which maps are listed plays no part
(`aggregate_perm`).

The sums are those of the current reports once all goroutines are done, if no
goroutine installs what it read before another one that is already installed
(`edgeAgg_settled`).
-/

namespace SkyAccel.Control

structure LastCongestion where
  count : Int
  sumRT : ℚ
  avgRT : ℚ
  deriving DecidableEq

/-- The entries of the map are listed in the order in which a loop meets them. -/
structure LastTelemetry where
  lastsCongestion : List (String × LastCongestion)
  ip : String
  deriving DecidableEq

/-- `map[string]*LastCongestion`, read by key. -/
abbrev AggMap := String → Option LastCongestion

structure GlobalStats where
  nodeLast : Dict String LastTelemetry
  edgeAgg : AggMap

def newGlobalStats : GlobalStats := ⟨∅, fun _ => none⟩

namespace GlobalStats
variable (g : GlobalStats)

def addOrUpdateNode (node : LastTelemetry) : GlobalStats :=
  if node.ip = "" then g else { g with nodeLast := g.nodeLast.insert node.ip node }

def delNode (nodeIP : String) : GlobalStats :=
  { g with nodeLast := g.nodeLast.erase nodeIP }

end GlobalStats

/-! ## Adding up the reports -/

/-- The entries of all reports, under the keys of the aggregate. -/
def entries (nodeList : List LastTelemetry) : List (String × LastCongestion) :=
  nodeList.flatMap fun node =>
    node.lastsCongestion.map fun entry => (entry.1 ++ "-" ++ node.ip, entry.2)

/-- One turn of the loop that adds up. -/
def tally (newAgg : AggMap) (entry : String × LastCongestion) : AggMap :=
  let s := (newAgg entry.1).getD ⟨0, 0, 0⟩
  Function.update newAgg entry.1 (some { s with
    count := s.count + entry.2.count
    sumRT := s.sumRT + entry.2.avgRT * entry.2.count })

def average (s : LastCongestion) : LastCongestion :=
  if 0 < s.count then { s with avgRT := s.sumRT / s.count } else s

/-- What `rebuildAggregate` makes of the entries that its loops meet. -/
def aggregate (es : List (String × LastCongestion)) : AggMap :=
  let newAgg := es.foldl tally fun _ => none
  fun key => (newAgg key).map average

/-- The aggregate of the reports stored. -/
def GlobalStats.aggregated (g : GlobalStats) : AggMap := aggregate (entries g.nodeLast.values)

theorem tally_comm (agg : AggMap) (a b : String × LastCongestion) :
    tally (tally agg a) b = tally (tally agg b) a := by
  by_cases same : a.1 = b.1
  · simp only [tally, same, Function.update_self, Function.update_idem, Option.getD_some]
    congr 3
    · ring
    · ring
  · simp only [tally, Function.update_of_ne same, Function.update_of_ne (Ne.symm same)]
    exact Function.update_comm same _ _ _

/-- The order in which the entries are met plays no part. -/
theorem aggregate_perm {es es' : List (String × LastCongestion)} (h : es.Perm es') :
    aggregate es = aggregate es' := by
  have folds : es.foldl tally (fun _ => none) = es'.foldl tally fun _ => none := by
    apply h.foldl_eq'
    intro a _ b _ agg
    exact tally_comm agg a b
  rw [aggregate, aggregate, folds]

/-! ## Events and goroutines -/

/-- The event types of the watch; `unknown` is the empty string. -/
inductive EventType
  | create
  | update
  | delete
  | unknown
  deriving DecidableEq

/-- A goroutine that has read the reports. The number counts the reads so far. -/
structure Rebuild where
  number : Nat
  read : List (String × LastCongestion)
  deriving DecidableEq

/-- The statistics with the goroutines that rebuild the aggregate: those that have not
read yet, and those that have not installed yet. `reads` counts the reads and
`newest` is the largest number among the reads installed. -/
structure Rebuilding where
  stats : GlobalStats
  spawned : Nat
  running : List Rebuild
  reads : Nat
  newest : Nat

/-- The state in which `main` starts to watch: the reports found in the store are loaded
and added up. -/
def loaded (lasts : List LastTelemetry) : Rebuilding :=
  let stats := lasts.foldl GlobalStats.addOrUpdateNode newGlobalStats
  ⟨{ stats with edgeAgg := stats.aggregated }, 0, [], 0, 0⟩

section
variable (unmarshal : String → Option LastTelemetry)

/-- The key is only logged. An empty value leaves the zero telemetry. -/
def handleLastWatchEvent (s : Rebuilding) (eventType : EventType) (val : String) : Rebuilding :=
  match if val = "" then some ⟨[], ""⟩ else unmarshal val with
  | none => s
  | some lastStats =>
    match eventType with
    | .create | .update =>
      { s with stats := s.stats.addOrUpdateNode lastStats, spawned := s.spawned + 1 }
    | .delete => { s with stats := s.stats.delNode lastStats.ip, spawned := s.spawned + 1 }
    | .unknown => s

inductive RebuildEvent
  | watch (eventType : EventType) (val : String)
  | read (order : List (String × LastCongestion))
  | install (i : Nat)

/-- One step: a watch event is handled, a goroutine reads the reports in some order, or
one installs what it added up. -/
def Rebuilding.next (s : Rebuilding) : RebuildEvent → Option Rebuilding
  | .watch eventType val => some (handleLastWatchEvent unmarshal s eventType val)
  | .read order =>
    if 0 < s.spawned ∧ order.Perm (entries s.stats.nodeLast.values) then
      some { s with
        spawned := s.spawned - 1
        running := s.running ++ [⟨s.reads + 1, order⟩]
        reads := s.reads + 1 }
    else none
  | .install i =>
    match s.running[i]? with
    | none => none
    | some r =>
      some { s with
        stats := { s.stats with edgeAgg := aggregate r.read }
        running := s.running.eraseIdx i
        newest := max s.newest r.number }

/-- No goroutine installs when one that read later has installed already. -/
def InOrder (s : Rebuilding) : RebuildEvent → Prop
  | .install i => ∀ r ∈ s.running[i]?, s.newest ≤ r.number
  | _ => True

instance (s : Rebuilding) (e : RebuildEvent) : Decidable (InOrder s e) := by
  unfold InOrder
  split
  · exact inferInstance
  · exact inferInstance

/-- The numbers count the reads, and once every goroutine has read, the last read is of
the current reports and is running or installed. -/
structure Current (s : Rebuilding) : Prop where
  numbers : ∀ r ∈ s.running, r.number ≤ s.reads
  newest : s.newest ≤ s.reads
  same : s.spawned = 0 → ∀ r ∈ s.running, r.number = s.reads →
    aggregate r.read = s.stats.aggregated
  there : s.spawned = 0 → (∃ r ∈ s.running, r.number = s.reads) ∨
    s.newest = s.reads ∧ s.stats.edgeAgg = s.stats.aggregated

theorem current_loaded (lasts : List LastTelemetry) : Current (loaded lasts) where
  numbers := fun _ none => absurd none List.not_mem_nil
  newest := le_refl _
  same := fun _ _ none => absurd none List.not_mem_nil
  there := fun _ => .inr ⟨rfl, rfl⟩

variable {unmarshal}

theorem current_watch {s : Rebuilding} (h : Current s) (eventType : EventType) (val : String) :
    Current (handleLastWatchEvent unmarshal s eventType val) := by
  have pending : ∀ stats, Current { s with stats := stats, spawned := s.spawned + 1 } :=
    fun stats => ⟨h.numbers, h.newest, fun none => absurd none (Nat.succ_ne_zero _),
      fun none => absurd none (Nat.succ_ne_zero _)⟩
  unfold handleLastWatchEvent
  split
  · exact h
  · cases eventType with
    | create => exact pending _
    | update => exact pending _
    | delete => exact pending _
    | unknown => exact h

theorem current_read {s s' : Rebuilding} (h : Current s) {order : List (String × LastCongestion)}
    (move : s.next unmarshal (.read order) = some s') : Current s' := by
  simp only [Rebuilding.next] at move
  split at move
  · rename_i enabled
    obtain rfl := Option.some.inj move
    constructor
    case numbers =>
      intro r mem
      obtain old | rfl := by simpa using mem
      · exact (h.numbers r old).trans (Nat.le_succ _)
      · exact le_refl _
    case newest => exact h.newest.trans (Nat.le_succ _)
    case same =>
      intro _ r mem last
      obtain old | rfl := by simpa using mem
      · have := h.numbers r old
        simp only at last
        omega
      · exact aggregate_perm enabled.2
    case there => exact fun _ => .inl ⟨⟨s.reads + 1, order⟩, by simp, rfl⟩
  · cases move

theorem current_install {s s' : Rebuilding} (h : Current s) {i : Nat}
    (order : InOrder s (.install i)) (move : s.next unmarshal (.install i) = some s') :
    Current s' := by
  simp only [Rebuilding.next] at move
  split at move
  · cases move
  · rename_i r found
    obtain rfl := Option.some.inj move
    have mem := List.mem_of_getElem? found
    have later : s.newest ≤ r.number := order r found
    have fewer : ∀ r' ∈ s.running.eraseIdx i, r' ∈ s.running :=
      fun r' mem' => List.mem_of_mem_eraseIdx mem'
    constructor
    case numbers => exact fun r' mem' => h.numbers r' (fewer r' mem')
    case newest => exact max_le h.newest (h.numbers r mem)
    case same => exact fun none r' mem' => h.same none r' (fewer r' mem')
    case there =>
      intro none
      by_cases last : r.number = s.reads
      · exact .inr ⟨by simp only [last, max_eq_right h.newest], h.same none r mem last⟩
      · -- an earlier read is installed, so the last one is still running
        left
        obtain ⟨r', mem', number⟩ | ⟨all, -⟩ := h.there none
        · refine ⟨r', ?_, number⟩
          obtain ⟨j, found'⟩ := List.mem_iff_getElem?.mp mem'
          apply List.mem_eraseIdx_iff_getElem?.mpr
          refine ⟨j, ?_, found'⟩
          rintro rfl
          rw [found] at found'
          obtain rfl := Option.some.inj found'
          exact last number
        · have := h.numbers r mem
          omega

theorem current_next {s s' : Rebuilding} {e : RebuildEvent} (h : Current s) (order : InOrder s e)
    (move : s.next unmarshal e = some s') : Current s' := by
  cases e with
  | watch eventType val =>
    obtain rfl := Option.some.inj move
    exact current_watch h eventType val
  | read entries => exact current_read h move
  | install i => exact current_install h order move

end

/-- If no goroutine installs after one that read later, the aggregate is that of the
current reports whenever all goroutines are done. -/
theorem edgeAgg_settled (unmarshal : String → Option LastTelemetry) (lasts : List LastTelemetry)
    {s : Rebuilding} (run : Run (Moves (Rebuilding.next unmarshal)) InOrder (loaded lasts) s)
    (all : s.spawned = 0) (done : s.running = []) : s.stats.edgeAgg = s.stats.aggregated := by
  have current : Current s :=
    run.invariant (fun _ _ _ h order move => current_next h order move) (current_loaded lasts)
  obtain ⟨r, mem, -⟩ | ⟨-, same⟩ := current.there all
  · rw [done] at mem
    cases mem
  · exact same

/-! ## Two reports of one node -/

def firstReport : String :=
  "\x7b\"ip\":\"n\",\"lasts_congestion\":\x7b\"u\":\x7b\"count\":1,\"avg_rt\":10\x7d\x7d\x7d"

def secondReport : String :=
  "\x7b\"ip\":\"n\",\"lasts_congestion\":\x7b\"u\":\x7b\"count\":1,\"avg_rt\":30\x7d\x7d\x7d"

/-- `json.Unmarshal` of the two reports. -/
def unmarshalReports (val : String) : Option LastTelemetry :=
  if val = firstReport then some ⟨[("u", ⟨1, 0, 10⟩)], "n"⟩
  else if val = secondReport then some ⟨[("u", ⟨1, 0, 30⟩)], "n"⟩
  else none

/-- Each report starts a goroutine, each goroutine reads before the next event, and the
one at position `i` installs first. -/
def bothReports (i : Nat) : List RebuildEvent :=
  [.watch .create firstReport, .read [("u-n", ⟨1, 0, 10⟩)],
    .watch .update secondReport, .read [("u-n", ⟨1, 0, 30⟩)], .install i, .install 0]

/-- The goroutine of the first report installs last. -/
theorem edgeAgg_stale : ∃ s,
    Run (Moves (Rebuilding.next unmarshalReports)) (fun _ _ => True) (loaded []) s ∧
      s.spawned = 0 ∧ s.running = [] ∧ s.stats.edgeAgg ≠ s.stats.aggregated := by
  have ran : ∃ s, Run (Moves (Rebuilding.next unmarshalReports)) (fun _ _ => True) (loaded []) s ∧
      s.spawned = 0 ∧ s.running = [] ∧ s.stats.edgeAgg "u-n" = some ⟨1, 10, 10⟩ ∧
      s.stats.aggregated "u-n" = some ⟨1, 30, 30⟩ := by
    apply Run.exists_of_checked (bothReports 1)
    decide +kernel
  obtain ⟨s, run, all, done, old, new⟩ := ran
  refine ⟨s, run, all, done, fun same => ?_⟩
  rw [same, new] at old
  exact absurd old (by decide +kernel)

theorem edgeAgg_settled_two : ∃ s,
    Run (Moves (Rebuilding.next unmarshalReports)) InOrder (loaded []) s ∧
      s.stats.edgeAgg "u-n" = some ⟨1, 30, 30⟩ ∧ s.stats.edgeAgg = s.stats.aggregated := by
  have ran : ∃ s, Run (Moves (Rebuilding.next unmarshalReports)) InOrder (loaded []) s ∧
      s.spawned = 0 ∧ s.running = [] ∧ s.stats.edgeAgg "u-n" = some ⟨1, 30, 30⟩ := by
    apply Run.exists_of_checked (bothReports 0)
    decide +kernel
  obtain ⟨s, run, all, done, new⟩ := ran
  exact ⟨s, run, new, edgeAgg_settled unmarshalReports [] run all done⟩

end SkyAccel.Control
