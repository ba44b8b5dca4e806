import SkyAccel.Routing.CarouselPaths

/-!
# The shape of the carousel solver's result

The best paths are all the paths of an earlier state (`best_seen`), so what holds of the
paths in every state holds of the result. The counters of `destFlowCount` are right in every
state, and no destination has more paths than it was asked for (`Counted`). A run that ends
without an error has a result (`result_shape`).
-/

namespace SkyAccel.Routing

open Strings (join)

/-! ## Best paths -/

/-- The end of a turn keeps the best paths, which score no less than all paths, or all paths
are the best from now on. -/
theorem updateBest_cases (s : Multi) :
    (s.updateBest.bestPaths = s.bestPaths ∧ s.updateBest.bestScore = s.bestScore ∧
      (s.allPaths ≠ [] → objective s.allPaths (unbanAllEdges s.graph) ≤ s.bestScore)) ∨
    (s.allPaths ≠ [] ∧ s.bestScore < objective s.allPaths (unbanAllEdges s.graph) ∧
      s.updateBest.bestPaths = s.allPaths ∧
      s.updateBest.bestScore = objective s.allPaths (unbanAllEdges s.graph)) := by
  unfold Multi.updateBest
  simp only
  split
  · rename_i better
    exact .inr ⟨better.1, better.2, rfl, rfl⟩
  · rename_i worse
    exact .inl ⟨rfl, rfl, fun some => not_lt.mp fun better => worse ⟨some, better⟩⟩

/-- A step that changes the best paths makes them those of the state it leads to. -/
theorem best_next {job : Job} {s s' : Multi} {r : Draws} (move : s.next job r = some s') :
    s'.bestPaths = s.bestPaths ∨ s'.bestPaths = s'.allPaths := by
  cases step_of_next move with
  | skip | again | find | fail | remove | iterate | drop | finish => exact .inl rfl
  | first => exact .inr rfl
  | stay =>
    obtain same | new := (alike_updateBest s).bestPaths
    · exact .inl same
    · exact .inr (new.trans (alike_updateBest s).allPaths.symm)
  | @explore _ pi =>
    have last := alike_updateBest
      { s.addPath pi with pathAccumulator := s.pathAccumulator.addPath pi }
    obtain same | new := last.bestPaths
    · exact .inl same
    · exact .inr (new.trans last.allPaths.symm)

/-- What holds of the paths in every state holds of the best paths. -/
theorem best_seen {job : Job} {ok : Multi → Draws → Prop} {Q : List PathWithInfo → Prop}
    (none : Q []) (all : ∀ s, Run (Moves (Multi.next job)) ok (.init job) s → Q s.allPaths)
    {s : Multi} (run : Run (Moves (Multi.next job)) ok (.init job) s) : Q s.bestPaths := by
  induction run with
  | start => exact none
  | next before meets move ih =>
    obtain same | new := best_next move
    · rw [same]
      exact ih
    · rw [new]
      exact all _ (before.next meets move)

/-! ## Counters -/

/-- The number of paths to a destination. -/
def served (paths : List PathWithInfo) (dest : String) : Nat := paths.countP (·.dest = dest)

theorem served_snoc (paths : List PathWithInfo) (pi : PathWithInfo) (dest : String) :
    served (paths ++ [pi]) dest = served paths dest + if dest = pi.dest then 1 else 0 := by
  simp [served, List.countP_append, List.countP_singleton, eq_comm]

theorem served_cons (paths : List PathWithInfo) (pi : PathWithInfo) (dest : String) :
    served (pi :: paths) dest = served paths dest + if dest = pi.dest then 1 else 0 := by
  simp [served, List.countP_cons, eq_comm]

/-- The number of paths to a destination that the search loops may still add. -/
def allowance (job : Job) (s : Multi) (dest : String) : Nat :=
  match s.phase with
  | .searching (first :: ends) i _ =>
    (if dest = first then job.d.flowsPerDest - i else 0) + job.d.flowsPerDest * ends.count dest
  | _ => 0

theorem allowance_turn {job : Job} {s : Multi} {ends : List String}
    (phase : s.phase = .searching ends 0 0) (dest : String) :
    allowance job s dest = job.d.flowsPerDest * ends.count dest := by
  cases ends with
  | nil => simp only [allowance, phase, List.count_nil, Nat.mul_zero]
  | cons first ends =>
    simp only [allowance, phase, List.count_cons, Nat.mul_add, Nat.sub_zero, beq_iff_eq]
    rw [Nat.add_comm]
    congr 1
    by_cases here : dest = first
    · rw [if_pos here, if_pos here.symm, Nat.mul_one]
    · rw [if_neg here, if_neg (Ne.symm here), Nat.mul_zero]

structure Counted (job : Job) (s : Multi) : Prop where
  count : ∀ dest, s.destFlowCount dest = served s.allPaths dest
  budget : ∀ dest, served s.allPaths dest + allowance job s dest ≤
    job.d.flowsPerDest * job.validEnds.count dest

section
variable {job : Job} {s s' : Multi}

theorem counted_init (job : Job) : Counted job (.init job) := by
  constructor
  case count => exact fun _ => rfl
  case budget =>
    intro dest
    have all : allowance job (.init job) dest = job.d.flowsPerDest * job.validEnds.count dest :=
      allowance_turn rfl dest
    rw [all]
    exact (Nat.zero_add _).le

theorem count_addPath (h : ∀ dest, s.destFlowCount dest = served s.allPaths dest)
    (pi : PathWithInfo) (dest : String) :
    (s.addPath pi).destFlowCount dest = served (s.addPath pi).allPaths dest := by
  simp only [Multi.addPath, served_snoc]
  by_cases here : dest = pi.dest
  · subst here
    simp [h]
  · simp [here, h]

theorem count_removeOldest (h : ∀ dest, s.destFlowCount dest = served s.allPaths dest)
    {pi : PathWithInfo} {rest : List PathWithInfo} (paths : s.allPaths = pi :: rest)
    (dest : String) : (s.removeOldest pi rest).destFlowCount dest = served rest dest := by
  have before := h dest
  rw [paths, served_cons] at before
  simp only [Multi.removeOldest]
  by_cases here : dest = pi.dest
  · subst here
    simp [before]
  · rw [Function.update_of_ne here, before, if_neg here, Nat.add_zero]

/-- Outside the search loops nothing is left of the allowance, and fewer paths fit too. -/
theorem Counted.budget_le (h : Counted job s) {paths : List PathWithInfo}
    (fewer : ∀ dest, served paths dest ≤ served s.allPaths dest) (dest : String) :
    served paths dest ≤ job.d.flowsPerDest * job.validEnds.count dest :=
  (fewer dest).trans (le_trans (Nat.le_add_right _ _) (h.budget dest))

theorem served_rest {paths rest : List PathWithInfo} {pi : PathWithInfo}
    (same : paths = pi :: rest) (dest : String) : served rest dest ≤ served paths dest := by
  rw [same, served_cons]
  exact Nat.le_add_right _ _

/-- The loop over the shuffled destinations passes those that have all their paths. -/
theorem Counted.budget_explore (h : Counted job s) {i : Nat} (phase : s.phase = .exploring i)
    {pi : PathWithInfo} (finds : Finds job s pi) (dest : String) :
    served (s.allPaths ++ [pi]) dest ≤ job.d.flowsPerDest * job.validEnds.count dest := by
  rw [served_snoc]
  by_cases here : dest = pi.dest
  · have target := finds.target
    simp only [targets, phase, List.mem_filter, decide_eq_true_eq, h.count] at target
    obtain ⟨asked, room⟩ := target
    have once : 1 ≤ job.validEnds.count dest := by
      rw [here]
      exact List.count_pos_iff.mpr asked
    have full : job.d.flowsPerDest ≤ job.d.flowsPerDest * job.validEnds.count dest :=
      Nat.le_mul_of_pos_right _ once
    rw [if_pos here, here] at *
    omega
  · rw [if_neg here]
    exact h.budget_le (fun _ => le_refl _) dest

theorem updateBest_destFlowCount (s : Multi) : s.updateBest.destFlowCount = s.destFlowCount := by
  unfold Multi.updateBest
  simp only
  split
  · rfl
  · rfl

theorem counted_next {r : Draws} (h : Counted job s) (move : s.next job r = some s') :
    Counted job s' := by
  cases step_of_next move with
  | @skip first ends i attempts phase =>
    refine ⟨h.count, fun dest => ?_⟩
    have before := h.budget dest
    simp only [allowance, phase] at before
    rw [allowance_turn rfl]
    change served s.allPaths dest + _ ≤ _
    omega
  | again phase =>
    refine ⟨h.count, fun dest => ?_⟩
    have before := h.budget dest
    simp only [allowance, phase] at before
    exact before
  | @find pi ends i attempts phase room _ =>
    refine ⟨count_addPath h.count pi, fun dest => ?_⟩
    have before := h.budget dest
    simp only [allowance, phase] at before
    change served (s.allPaths ++ [pi]) dest + ((if dest = pi.dest then
      job.d.flowsPerDest - (i + 1) else 0) + job.d.flowsPerDest * ends.count dest) ≤ _
    rw [served_snoc]
    by_cases here : dest = pi.dest
    · simp only [if_pos here] at before ⊢
      omega
    · simp only [if_neg here] at before ⊢
      omega
  | fail | first | iterate | finish => exact ⟨h.count, h.budget_le fun _ => le_refl _⟩
  | remove _ paths | drop _ _ paths =>
    exact ⟨count_removeOldest h.count paths, h.budget_le (served_rest paths)⟩
  | stay =>
    have same := (alike_updateBest s).allPaths
    constructor
    case count =>
      simp only [updateBest_destFlowCount, same]
      exact h.count
    case budget =>
      simp only [same]
      exact h.budget_le fun _ => le_refl _
  | @explore _ pi phase finds =>
    have same := (alike_updateBest
      { s.addPath pi with pathAccumulator := s.pathAccumulator.addPath pi }).allPaths
    constructor
    case count =>
      simp only [updateBest_destFlowCount, same]
      exact count_addPath h.count pi
    case budget =>
      simp only [same]
      exact h.budget_explore phase finds

theorem counted_run {ok : Multi → Draws → Prop}
    (run : Run (Moves (Multi.next job)) ok (.init job) s) : Counted job s :=
  run.invariant (fun _ _ _ h _ move => counted_next h move) (counted_init job)

/-! ## The result -/

/-- The search is still going on, or has found nothing. -/
def Phase.early : Phase → Prop
  | .searching _ _ _ | .failed _ => True
  | _ => False

theorem updateBest_ne_nil (some : s.bestPaths ≠ []) : s.updateBest.bestPaths ≠ [] := by
  obtain ⟨same, -, -⟩ | ⟨some', -, new, -⟩ := updateBest_cases s
  · rw [same]
    exact some
  · rw [new]
    exact some'

theorem best_ne_nil {ok : Multi → Draws → Prop}
    (run : Run (Moves (Multi.next job)) ok (.init job) s) : s.phase.early ∨ s.bestPaths ≠ [] := by
  apply run.invariant (P := fun s => s.phase.early ∨ s.bestPaths ≠ [])
  · intro s r s' h _ move
    cases step_of_next move with
    | skip | again | find | fail => exact .inl trivial
    | first _ some => exact .inr some
    | remove phase | iterate phase | drop _ phase | finish phase =>
      rw [phase] at h
      exact .inr (h.resolve_left id)
    | stay phase =>
      rw [phase] at h
      exact .inr (updateBest_ne_nil (h.resolve_left id))
    | @explore _ pi phase =>
      rw [phase] at h
      have some : (s.addPath pi).bestPaths ≠ [] := h.resolve_left id
      exact .inr (updateBest_ne_nil some)
  · exact .inl trivial

theorem Trail.head {d : FlowOptimizationSolver} {g : ResidualGraph} {thetaL latency : ℚ}
    {start : String} {taken : List (String × EdgeInfo)} {path : List String}
    (h : Trail d g thetaL start taken path latency) : path.head? = some start := by
  induction h with
  | start => rfl
  | step _ _ _ _ ih => rw [List.head?_append, ih, Option.some_or]

theorem prepare_ends {edges : List Edge} {start : String} {ends : List String} {fuel : Nat}
    (h : prepare edges start ends fuel = some (.ok job)) :
    job.start = start ∧ job.validEnds = ends.filter (isNode edges) := by
  obtain ⟨d, -, -, thetaLMap, -, rfl⟩ := prepare_ok h
  exact ⟨rfl, rfl⟩

/-- A path as the searches find them: from the start to its destination, one of those asked
for, without a node twice and of at most `maxHops` nodes. -/
structure Shaped (job : Job) (pi : PathWithInfo) : Prop where
  first : pi.path.head? = some job.start
  last : pi.path.getLast? = some pi.dest
  asked : pi.dest ∈ job.validEnds
  simple : pi.path.Nodup
  size : pi.path.length ≤ maxHops

theorem shaped_run {ok : Multi → Draws → Prop}
    (run : Run (Moves (Multi.next job)) ok (.init job) s) : ∀ pi ∈ s.bestPaths, Shaped job pi := by
  apply (paths_run (P := Shaped job) _ run).2
  intro s r pi before _ finds
  obtain ⟨taken, feasible⟩ := finds.feasible
  constructor
  case first => exact feasible.trail.head
  case last => exact feasible.last
  case asked => exact targets_valid before pi.dest finds.target
  case simple => exact finds.simple
  case size => exact feasible.size

theorem best_distinct {ok : Multi → Draws → Prop}
    (run : Run (Moves (Multi.next job)) ok (.init job) s) :
    (s.bestPaths.map PathWithInfo.path).Nodup := by
  have distinct : (s.bestPaths.map fun pi => join pi.path "->").Nodup :=
    best_seen (Q := fun paths => (paths.map fun pi => join pi.path "->").Nodup) List.nodup_nil
      (fun _ before => (booked_run before).distinct) run
  apply List.Nodup.of_map (join · "->")
  rw [List.map_map]
  exact distinct

theorem best_served {ok : Multi → Draws → Prop}
    (run : Run (Moves (Multi.next job)) ok (.init job) s) (dest : String) :
    served s.bestPaths dest ≤ job.d.flowsPerDest * job.validEnds.count dest :=
  best_seen (Q := fun paths => served paths dest ≤
    job.d.flowsPerDest * job.validEnds.count dest) (Nat.zero_le _)
    (fun _ before => (counted_run before).budget_le (fun _ => le_refl _) dest) run

/-- A path of the result ends at the destination that it was found for. -/
theorem countP_result {ok : Multi → Draws → Prop}
    (run : Run (Moves (Multi.next job)) ok (.init job) s) (dest : String) :
    s.result.countP (fun p => p.hops.getLast? = some dest) = served s.bestPaths dest := by
  rw [Multi.result, List.countP_map, served]
  apply List.countP_congr
  intro pi best
  simp [(shaped_run run pi best).last]

/-- A run that ends without an error returns paths from the start to destinations that were
asked for and are in the graph. No path repeats a node or has more than 30, no two are the
same, and no destination has more than `flowsPerDest` for each time it was asked for. -/
theorem result_shape (edges : List Edge) (start : String) (ends : List String) (fuel : Nat)
    (job : Job) (prepared : prepare edges start ends fuel = some (.ok job)) (s : Multi)
    (run : Run (Moves (Multi.next job)) (fun _ _ => True) (.init job) s) (done : s.phase = .done) :
    s.result ≠ [] ∧
    (∀ p ∈ s.result, p.hops.head? = some start ∧
      (∃ dest ∈ ends, isNode edges dest = true ∧ p.hops.getLast? = some dest) ∧
      p.hops.Nodup ∧ p.hops.length ≤ 30) ∧
    (s.result.map PathInfo.hops).Nodup ∧
    ∀ dest, s.result.countP (fun p => p.hops.getLast? = some dest) ≤
      job.d.flowsPerDest * ends.count dest := by
  obtain ⟨from_start, valid⟩ := prepare_ends prepared
  refine ⟨?_, ?_, ?_, ?_⟩
  · have some := best_ne_nil run
    rw [done] at some
    exact fun none => some.resolve_left id (List.map_eq_nil_iff.mp none)
  · intro p mem
    obtain ⟨pi, best, rfl⟩ := List.mem_map.mp mem
    have h := shaped_run run pi best
    have asked := h.asked
    rw [valid, List.mem_filter] at asked
    exact ⟨from_start ▸ h.first, ⟨pi.dest, asked.1, asked.2, h.last⟩, h.simple, h.size⟩
  · rw [Multi.result, List.map_map]
    exact best_distinct run
  · intro dest
    rw [countP_result run]
    apply (best_served run dest).trans (Nat.mul_le_mul_left _ _)
    rw [valid]
    exact List.Sublist.count_le dest List.filter_sublist

/-- Two paths to each of two destinations, with a hop that is taken backwards. -/
theorem result_shape_done : ∃ (job : Job) (s : Multi),
    prepare bothWays "s" ["d", "a"] 30 = some (.ok job) ∧ s.phase = .done ∧
    s.result.map PathInfo.hops =
      [["s", "a", "b", "d"], ["s", "b", "a", "d"], ["s", "a"], ["s", "b", "a"]] ∧
    s.result ≠ [] ∧
    (∀ p ∈ s.result, p.hops.head? = some "s" ∧
      (∃ dest ∈ ["d", "a"], isNode bothWays dest = true ∧ p.hops.getLast? = some dest) ∧
      p.hops.Nodup ∧ p.hops.length ≤ 30) ∧
    (s.result.map PathInfo.hops).Nodup ∧
    ∀ dest, s.result.countP (fun p => p.hops.getLast? = some dest) ≤
      job.d.flowsPerDest * ["d", "a"].count dest := by
  have reached : ∃ x ∈ trial bothWays "s" ["d", "a"] 30 (fun _ _ => True)
      (inOrder :: List.replicate 16 (turning 2)), x.2.phase = .done ∧
      x.2.result.map PathInfo.hops =
        [["s", "a", "b", "d"], ["s", "b", "a", "d"], ["s", "a"], ["s", "b", "a"]] := by
    decide +kernel
  obtain ⟨job, s, prepared, run, done, paths⟩ := exists_of_trial _ _ (P := fun _ s =>
    s.phase = .done ∧ s.result.map PathInfo.hops =
      [["s", "a", "b", "d"], ["s", "b", "a", "d"], ["s", "a"], ["s", "b", "a"]]) reached
  exact ⟨job, s, prepared, done, paths, result_shape _ _ _ _ job prepared s run done⟩

end

end SkyAccel.Routing
