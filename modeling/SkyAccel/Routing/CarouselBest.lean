import SkyAccel.Routing.CarouselResult

/-!
# The best paths of the carousel solver

The score of a list of paths is its objective on a fresh residual graph with just these
paths allocated (`freshScore`). By the books of the flows it is the objective that a run
computes on its own graph, so the best score is that of the best paths and at least that of
every solution that the run has come to (`best_score`).
-/

namespace SkyAccel.Routing

/-! ## Scores -/

/-- The fresh residual graph with the paths allocated. -/
def FlowOptimizationSolver.allocated (d : FlowOptimizationSolver) (paths : List PathWithInfo) :
    ResidualGraph :=
  paths.foldl (fun g pi => allocateFlow g pi.path 1) d.buildResidualGraphWithCapacity

def FlowOptimizationSolver.freshScore (d : FlowOptimizationSolver) (paths : List PathWithInfo) :
    ℚ :=
  objective paths (d.allocated paths)

/-- The entry of a graph in which these paths and no others are allocated. -/
def ledger (paths : List PathWithInfo) (ef : EdgeFlow) : EdgeFlow :=
  { ef with
    flow := through paths ef.hop
    banned := false
    residual := ef.effCap - through paths ef.hop }

theorem Booked.unban_eq {s : Multi} (h : Booked s) :
    unbanAllEdges s.graph = s.graph.map (ledger s.allPaths) := by
  apply List.map_congr_left
  intro ef mem
  rw [ledger, ← h.flow ef mem, ← h.residual ef mem]

theorem map_ledger_fixed {g g' : ResidualGraph}
    (same : g.map EdgeFlow.fixed = g'.map EdgeFlow.fixed) (paths : List PathWithInfo) :
    g.map (ledger paths) = g'.map (ledger paths) := by
  have through_fixed (g : ResidualGraph) :
      g.map (ledger paths) = (g.map EdgeFlow.fixed).map (ledger paths) := by
    rw [List.map_map]
    rfl
  rw [through_fixed, same, ← through_fixed]

theorem allocated_eq (d : FlowOptimizationSolver) {paths : List PathWithInfo}
    (simple : ∀ pi ∈ paths, pi.path.Nodup) :
    d.allocated paths = d.buildResidualGraphWithCapacity.map (ledger paths) := by
  induction paths using List.reverseRecOn with
  | nil =>
    have fresh : ∀ ef ∈ d.buildResidualGraphWithCapacity, ef = ledger [] ef := by
      intro ef mem
      obtain ⟨e, _, rfl⟩ := mem_buildResidualGraphWithCapacity mem
      simp [ledger, through, FlowOptimizationSolver.newEdgeFlow]
    exact (List.map_id' _).symm.trans (List.map_congr_left fresh)
  | append_singleton paths pi ih =>
    have before := ih fun pi' mem => simple pi' (List.mem_append_left _ mem)
    have last : pi.path.Nodup := simple pi (List.mem_append_right _ List.mem_cons_self)
    rw [FlowOptimizationSolver.allocated, List.foldl_append, List.foldl_cons, List.foldl_nil,
      ← FlowOptimizationSolver.allocated, before, allocateFlow_eq last, List.map_map]
    apply List.map_congr_left
    intro ef _
    have hop : (ledger paths ef).hop = ef.hop := rfl
    simp only [Function.comp_apply, hop]
    split
    · rename_i inside
      simp only [ledger, EdgeFlow.updateResidual, through_snoc, if_pos inside]
      push_cast
      rfl
    · rename_i outside
      simp only [ledger, through_snoc, if_neg outside, Nat.add_zero]

/-- The objective does not look at bans. -/
theorem objective_unban (lst : List PathWithInfo) (g : ResidualGraph) :
    objective lst (unbanAllEdges g) = objective lst g := by
  have same : congestion (unbanAllEdges g) = congestion g := by
    funext hop
    unfold congestion unbanAllEdges
    rw [List.find?_map]
    have joins : (fun ef : EdgeFlow => ef.joins hop.1 hop.2) ∘
        (fun ef : EdgeFlow => ({ ef with banned := false } : EdgeFlow)) =
          fun ef : EdgeFlow => ef.joins hop.1 hop.2 := rfl
    rw [joins]
    cases g.find? fun ef => ef.joins hop.1 hop.2 with
    | none => rfl
    | some ef => rfl
  unfold objective
  rw [same]

section
variable {job : Job} {ok : Multi → Draws → Prop} {s s' : Multi}

/-- The objective on the graph of a run is the score of the paths. -/
theorem objective_run (run : Run (Moves (Multi.next job)) ok (.init job) s) :
    objective s.allPaths s.graph = job.d.freshScore s.allPaths := by
  have booked := booked_run run
  rw [FlowOptimizationSolver.freshScore, allocated_eq job.d booked.simple,
    ← map_ledger_fixed (fixed_run run), ← booked.unban_eq, objective_unban]

theorem updateBest_graph (s : Multi) : s.updateBest.graph = unbanAllEdges s.graph := by
  unfold Multi.updateBest
  simp only
  split
  · rfl
  · rfl

/-- A turn of the last loop keeps the best paths, which score no less than the paths at its
end, or these are better and the best from now on. -/
theorem best_turn (run : Run (Moves (Multi.next job)) ok (.init job) s') {i : Nat}
    {t : Multi} (turn : s' = { t.updateBest with phase := .iterating i }) :
    (s'.bestPaths = t.bestPaths ∧ s'.bestScore = t.bestScore ∧
      (s'.allPaths ≠ [] → job.d.freshScore s'.allPaths ≤ t.bestScore)) ∨
    (s'.allPaths ≠ [] ∧ t.bestScore < job.d.freshScore s'.allPaths ∧
      s'.bestPaths = s'.allPaths ∧ s'.bestScore = job.d.freshScore s'.allPaths) := by
  have same : s'.allPaths = t.allPaths := by
    rw [turn]
    exact (alike_updateBest t).allPaths
  have score : objective t.allPaths (unbanAllEdges t.graph) = job.d.freshScore t.allPaths := by
    have here := objective_run run
    rw [same, turn, updateBest_graph] at here
    exact here
  have cases := updateBest_cases t
  rw [score] at cases
  rw [same, turn]
  exact cases

/-- After the search the best paths have the best score. They are the paths of the first
solution, and at the end of a turn no better paths have been left behind. -/
structure Scored (job : Job) (s : Multi) : Prop where
  best : s.phase.early ∨ s.bestScore = job.d.freshScore s.bestPaths
  first : s.phase = .removing 0 → s.bestPaths = s.allPaths
  turn : ∀ i, s.phase = .iterating (i + 1) → s.allPaths ≠ [] →
    job.d.freshScore s.allPaths ≤ s.bestScore

theorem Scored.elsewhere (best : s.phase.early ∨ s.bestScore = job.d.freshScore s.bestPaths)
    (removing : s.phase ≠ .removing 0) (iterating : ∀ i, s.phase ≠ .iterating (i + 1)) :
    Scored job s :=
  ⟨best, fun phase => absurd phase removing, fun i phase => absurd phase (iterating i)⟩

theorem scored_turn (run : Run (Moves (Multi.next job)) ok (.init job) s') {i : Nat} {t : Multi}
    (turn : s' = { t.updateBest with phase := .iterating i })
    (best : t.bestScore = job.d.freshScore t.bestPaths) : Scored job s' := by
  have phase : s'.phase = .iterating i := by rw [turn]
  obtain ⟨paths, score, worse⟩ | ⟨_, _, paths, score⟩ := best_turn run turn
  · refine ⟨.inr (by rw [paths, score, best]), fun removing => ?_, fun _ _ some => ?_⟩
    · rw [phase] at removing
      cases removing
    · rw [score]
      exact worse some
  · refine ⟨.inr (by rw [paths, score]), fun removing => ?_, fun _ _ _ => score.ge⟩
    rw [phase] at removing
    cases removing

theorem scored_run (run : Run (Moves (Multi.next job)) ok (.init job) s) : Scored job s := by
  induction run with
  | start => exact .elsewhere (.inl trivial) Phase.noConfusion fun _ => Phase.noConfusion
  | @next s s' r before meets move ih =>
    have after := before.next meets move
    have best := ih.best
    cases step_of_next move with
    | skip | again | find | fail =>
      exact .elsewhere (.inl trivial) Phase.noConfusion fun _ => Phase.noConfusion
    | first =>
      exact ⟨.inr (objective_run before), fun _ => rfl, fun _ phase => Phase.noConfusion phase⟩
    | remove phase =>
      rw [phase] at best
      refine .elsewhere (.inr (best.resolve_left id)) ?_ fun _ => Phase.noConfusion
      exact fun same => Nat.succ_ne_zero _ (Phase.removing.inj same)
    | iterate phase =>
      rw [phase] at best
      refine .elsewhere (.inr (best.resolve_left id)) Phase.noConfusion fun i same => ?_
      exact Nat.succ_ne_zero _ (Phase.iterating.inj same).symm
    | drop _ phase | finish phase =>
      rw [phase] at best
      exact .elsewhere (.inr (best.resolve_left id)) Phase.noConfusion fun _ => Phase.noConfusion
    | stay phase =>
      rw [phase] at best
      exact scored_turn after rfl (best.resolve_left id)
    | @explore _ pi phase =>
      rw [phase] at best
      apply scored_turn (t := { s.addPath pi with
        pathAccumulator := s.pathAccumulator.addPath pi }) after rfl
      exact best.resolve_left id

/-- After the search the best score never falls. -/
theorem score_next (run : Run (Moves (Multi.next job)) ok (.init job) s') {r : Draws}
    (late : ¬ s.phase.early) (move : s.next job r = some s') :
    ¬ s'.phase.early ∧ s.bestScore ≤ s'.bestScore := by
  have rises {i : Nat} {t : Multi} (turn : s' = { t.updateBest with phase := .iterating i }) :
      t.bestScore ≤ s'.bestScore := by
    obtain ⟨_, score, _⟩ | ⟨_, better, _, score⟩ := best_turn run turn
    · exact score.ge
    · rw [score]
      exact better.le
  cases step_of_next move with
  | skip phase | again phase | find phase | fail _ phase | first phase =>
    rw [phase] at late
    exact absurd trivial late
  | remove | iterate | drop | finish => exact ⟨id, le_refl _⟩
  | stay => exact ⟨id, rises rfl⟩
  | @explore _ pi =>
    exact ⟨id, rises (t := { s.addPath pi with
      pathAccumulator := s.pathAccumulator.addPath pi }) rfl⟩

theorem score_run (before : Run (Moves (Multi.next job)) ok (.init job) s)
    (late : ¬ s.phase.early) (run : Run (Moves (Multi.next job)) ok s s') :
    ¬ s'.phase.early ∧ s.bestScore ≤ s'.bestScore := by
  induction run with
  | start => exact ⟨late, le_refl _⟩
  | next between meets move ih =>
    obtain ⟨late', rises⟩ := score_next ((before.trans between).next meets move) ih.1 move
    exact ⟨late', ih.2.trans rises⟩

end

/-- The best score is the score of the paths returned. No solution that the run has come to
scores higher: neither the first one nor the paths at the end of a turn of the last loop. -/
theorem best_score (job : Job) (s : Multi)
    (run : Run (Moves (Multi.next job)) (fun _ _ => True) (.init job) s) (done : s.phase = .done) :
    job.d.freshScore s.bestPaths = s.bestScore ∧
    ∀ s₀, Run (Moves (Multi.next job)) (fun _ _ => True) (.init job) s₀ →
      Run (Moves (Multi.next job)) (fun _ _ => True) s₀ s →
      (s₀.phase = .removing 0 ∨ ∃ i, s₀.phase = .iterating (i + 1)) → s₀.allPaths ≠ [] →
      job.d.freshScore s₀.allPaths ≤ job.d.freshScore s.bestPaths := by
  have best := (scored_run run).best
  rw [done] at best
  have score := best.resolve_left id
  refine ⟨score.symm, ?_⟩
  intro s₀ before after solution some
  have scored := scored_run before
  obtain first | ⟨i, turn⟩ := solution
  · have late : ¬ s₀.phase.early := by
      rw [first]
      exact id
    have rises := (score_run before late after).2
    rw [scored.best.resolve_left late, scored.first first, score] at rises
    exact rises
  · have late : ¬ s₀.phase.early := by
      rw [turn]
      exact id
    rw [← score]
    exact (scored.turn i turn some).trans (score_run before late after).2

/-- A long way to `a` over two hops, and a short one to `b`. -/
def unevenWays : List Edge :=
  [⟨"s", "c", 0, 0, 500⟩, ⟨"c", "a", 0, 0, 500⟩, ⟨"s", "b", 0, 0, 1⟩]

/-- The first solution has both ways. The second way alone scores higher. -/
theorem best_score_done : ∃ (job : Job) (s₀ s : Multi),
    prepare unevenWays "s" ["a", "b"] 30 = some (.ok job) ∧
    s₀.phase = .removing 0 ∧ s₀.allPaths.map PathWithInfo.path = [["s", "c", "a"], ["s", "b"]] ∧
    s.phase = .done ∧ s.bestPaths.map PathWithInfo.path = [["s", "b"]] ∧
    job.d.freshScore s.bestPaths = s.bestScore ∧
    job.d.freshScore s₀.allPaths ≤ job.d.freshScore s.bestPaths := by
  have reached : ∃ x ∈ trial unevenWays "s" ["a", "b"] 30 (fun _ _ => True)
      (List.replicate 43 (turning 0)),
      (x.2.phase = .removing 0 ∧
        x.2.allPaths.map PathWithInfo.path = [["s", "c", "a"], ["s", "b"]]) ∧
      ∃ s ∈ (List.replicate 11 (turning 0)).foldlM (checked (Multi.next x.1) fun _ _ => True) x.2,
        s.phase = .done ∧ s.bestPaths.map PathWithInfo.path = [["s", "b"]] := by
    decide +kernel
  obtain ⟨job, s₀, prepared, before, ⟨first, paths⟩, s, moves, done, best⟩ :=
    exists_of_trial _ _ (P := fun job s₀ =>
      (s₀.phase = .removing 0 ∧
        s₀.allPaths.map PathWithInfo.path = [["s", "c", "a"], ["s", "b"]]) ∧
      ∃ s ∈ (List.replicate 11 (turning 0)).foldlM (checked (Multi.next job) fun _ _ => True) s₀,
        s.phase = .done ∧ s.bestPaths.map PathWithInfo.path = [["s", "b"]]) reached
  have after := Run.of_checked moves
  obtain ⟨score, highest⟩ := best_score job s (before.trans after) done
  have some : s₀.allPaths ≠ [] := by
    intro none
    rw [none] at paths
    cases paths
  exact ⟨job, s₀, s, prepared, first, paths, done, best, score,
    highest s₀ before after (.inl first) some⟩

end SkyAccel.Routing
