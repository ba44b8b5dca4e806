import SkyAccel.Routing.CarouselBest
import SkyAccel.Routing.CarouselExact

/-!
# The destinations that the carousel solver keeps

A solution that leaves a destination out may be the better one, since the latencies that the
objective subtracts have no bound. Every destination keeps a path if no such solution scores
higher than the best. The last loop works on the paths that the removal before it has left, so
for every order that is drawn it is enough that ten for each path removed outweighs the latency
and the congestion of the first solution and all that a solution may gain by its edges
(`destinations_kept`).
-/

namespace SkyAccel.Routing

open Strings (join)

/-! ## Destinations -/

/-- Every destination of a path of the first list has one in the second. -/
def Covers (paths paths' : List PathWithInfo) : Prop :=
  ∀ pi ∈ paths, ∃ pi' ∈ paths', pi'.dest = pi.dest

theorem Covers.refl (paths : List PathWithInfo) : Covers paths paths :=
  fun pi mem => ⟨pi, mem, rfl⟩

theorem Covers.trans {a b c : List PathWithInfo} (h : Covers a b) (h' : Covers b c) :
    Covers a c := by
  intro pi mem
  obtain ⟨pi', mem', same⟩ := h pi mem
  obtain ⟨pi'', mem'', same'⟩ := h' pi' mem'
  exact ⟨pi'', mem'', same'.trans same⟩

/-- If the turn may end with paths that leave out a destination of the best ones, then these
paths do not score higher. -/
def CountsMost (job : Job) (s : Multi) : Prop :=
  ∀ i, s.phase = .exploring i → ∀ paths,
    (paths = s.allPaths ∨ ∃ pi, Finds job s pi ∧ paths = s.allPaths ++ [pi]) →
      paths ≠ [] → ¬ Covers s.bestPaths paths → job.d.freshScore paths ≤ s.bestScore

instance (paths paths' : List PathWithInfo) : Decidable (Covers paths paths') :=
  inferInstanceAs (Decidable (∀ pi ∈ paths, ∃ pi' ∈ paths', pi'.dest = pi.dest))

/-- The paths that the turn may end with. -/
def outcomes (job : Job) (s : Multi) : List (List PathWithInfo) :=
  s.allPaths :: (targets job s).flatMap fun dest =>
    ((job.d.feasibles s.graph job.start dest).filter fun x =>
      join x.nodes "->" ∉ s.usedPaths).map fun x =>
        s.allPaths ++ [⟨x.nodes, join x.nodes "|", dest, x.latency⟩]

theorem countsMost_of_outcomes {job : Job} {s : Multi}
    (h : ∀ paths ∈ outcomes job s, paths ≠ [] → ¬ Covers s.bestPaths paths →
      job.d.freshScore paths ≤ s.bestScore) : CountsMost job s := by
  intro i _ paths outcome
  apply h
  obtain rfl | ⟨⟨path, pathStr, dest, latency⟩, ⟨target, named, unused, taken, feasible⟩, rfl⟩ :=
    outcome
  · exact List.mem_cons_self
  · obtain ⟨x, listed, -, nodes, price⟩ := feasible_iff.mp feasible
    simp only at target named unused nodes price
    subst nodes price named
    apply List.mem_cons_of_mem
    refine List.mem_flatMap.mpr ⟨dest, target, List.mem_map.mpr ⟨x, ?_, rfl⟩⟩
    simpa using ⟨listed, unused⟩

section
variable {job : Job} {ok : Multi → Draws → Prop} {s s' : Multi}

/-- A turn of the last loop ends with paths that score higher than the best ones. -/
structure Improves (job : Job) (s s' : Multi) : Prop where
  turn : ∃ i, s.phase = .exploring i
  ended : ∃ j, s'.phase = .iterating j
  some : s'.allPaths ≠ []
  outcome : s'.allPaths = s.allPaths ∨ ∃ pi, Finds job s pi ∧ s'.allPaths = s.allPaths ++ [pi]
  higher : s.bestScore < job.d.freshScore s'.allPaths
  best : s'.bestPaths = s'.allPaths

/-- After the search the best paths are replaced by better ones only. -/
theorem improves_next (run : Run (Moves (Multi.next job)) ok (.init job) s') {r : Draws}
    (late : ¬ s.phase.early) (move : s.next job r = some s') :
    s'.bestPaths = s.bestPaths ∨ Improves job s s' := by
  have turned {i j : Nat} {t : Multi} (phase : s.phase = .exploring i)
      (turn : s' = { t.updateBest with phase := .iterating j }) (best : t.bestPaths = s.bestPaths)
      (score : t.bestScore = s.bestScore)
      (outcome : t.allPaths = s.allPaths ∨ ∃ pi, Finds job s pi ∧ t.allPaths = s.allPaths ++ [pi]) :
      s'.bestPaths = s.bestPaths ∨ Improves job s s' := by
    obtain ⟨paths, -, -⟩ | ⟨some, higher, paths, -⟩ := best_turn run turn
    · exact .inl (paths.trans best)
    · have same : s'.allPaths = t.allPaths := by
        rw [turn]
        exact (alike_updateBest t).allPaths
      rw [← same] at outcome
      rw [score] at higher
      exact .inr ⟨⟨i, phase⟩, ⟨j, by rw [turn]⟩, some, outcome, higher, paths⟩
  cases step_of_next move with
  | skip phase | again phase | find phase | fail _ phase | first phase =>
    rw [phase] at late
    exact absurd trivial late
  | remove | iterate | drop | finish => exact .inl rfl
  | stay phase => exact turned phase rfl rfl rfl (.inl rfl)
  | @explore _ pi phase finds =>
    exact turned (t := { s.addPath pi with
      pathAccumulator := s.pathAccumulator.addPath pi }) phase rfl rfl rfl (.inr ⟨pi, finds, rfl⟩)

theorem covers_next (run : Run (Moves (Multi.next job)) ok (.init job) s') {r : Draws}
    (late : ¬ s.phase.early) (most : CountsMost job s) (move : s.next job r = some s') :
    Covers s.bestPaths s'.bestPaths := by
  obtain same | better := improves_next run late move
  · rw [same]
    exact .refl _
  · obtain ⟨i, phase⟩ := better.turn
    rw [better.best]
    by_contra left
    have lower := most i phase _ better.outcome better.some left
    exact absurd better.higher (not_lt.mpr lower)

end

/-! ## Counts and latencies -/

/-- The first solution with `n` paths loses so many before the last loop. -/
def Job.removals (job : Job) (n : Nat) : Nat := (job.d.beta * n).floor.toNat

def totalLatency (paths : List PathWithInfo) : ℚ := (paths.map PathWithInfo.latency).sum

/-- What the objective subtracts for congestion if these paths and no others are allocated. -/
def FlowOptimizationSolver.totalCongestion (d : FlowOptimizationSolver)
    (paths : List PathWithInfo) : ℚ :=
  ((paths.flatMap fun pi => hops pi.path).map (congestion (d.allocated paths))).sum

/-- The edges in both directions, as the objective names them. -/
def FlowOptimizationSolver.hopKeys (d : FlowOptimizationSolver) : List String :=
  (d.edges.flatMap fun e => [e.sourceIp ++ "->" ++ e.destinationIp,
    e.destinationIp ++ "->" ++ e.sourceIp]).dedup

/-- Ten for each path that is removed from these outweighs their latency, their congestion and
one for each edge in each direction. -/
def Ample (job : Job) (paths : List PathWithInfo) : Prop :=
  totalLatency paths / 10 + job.d.totalCongestion paths + job.d.hopKeys.length ≤
    10 * job.removals paths.length

instance (job : Job) (paths : List PathWithInfo) : Decidable (Ample job paths) :=
  inferInstanceAs (Decidable (_ ≤ _))

/-- The keys of the hops of the paths, as the objective counts them. -/
def usedKeys (paths : List PathWithInfo) : List String :=
  (paths.flatMap fun pi => hops pi.path).map fun hop => hop.1 ++ "->" ++ hop.2

/-- The score is made of the counts, the latencies, the congestion and at most one for each
edge in use. -/
theorem freshScore_eq (d : FlowOptimizationSolver) (paths : List PathWithInfo) :
    ∃ diversity : ℚ, d.freshScore paths =
        10 * paths.length + diversity - totalLatency paths / 10 - d.totalCongestion paths ∧
      0 ≤ diversity ∧ diversity ≤ (usedKeys paths).dedup.length := by
  unfold FlowOptimizationSolver.freshScore FlowOptimizationSolver.totalCongestion totalLatency
    objective
  split
  · rename_i none
    exact ⟨0, by simp [none], le_refl _, Nat.cast_nonneg _⟩
  · refine ⟨((usedKeys paths).dedup.map fun key => 1 / ((usedKeys paths).count key : ℚ)).sum,
      ?_, ?_, ?_⟩
    · simp only [usedKeys]
      ring
    · apply List.sum_nonneg
      intro x mem
      obtain ⟨key, -, rfl⟩ := List.mem_map.mp mem
      positivity
    · have most : ∀ x ∈ (usedKeys paths).dedup.map fun key =>
          1 / ((usedKeys paths).count key : ℚ), x ≤ 1 := by
        intro x mem
        obtain ⟨key, there, rfl⟩ := List.mem_map.mp mem
        have one : 1 ≤ (usedKeys paths).count key :=
          List.count_pos_iff.mpr (List.mem_dedup.mp there)
        exact div_le_one_of_le₀ (by exact_mod_cast one) (Nat.cast_nonneg _)
      simpa using List.sum_le_card_nsmul _ 1 most

section
variable {job : Job} {ok : Multi → Draws → Prop} {s s' : Multi}

theorem totalCongestion_nonneg {paths : List PathWithInfo}
    (simple : ∀ pi ∈ paths, pi.path.Nodup) : 0 ≤ job.d.totalCongestion paths := by
  apply List.sum_nonneg
  intro x mem
  obtain ⟨hop, -, rfl⟩ := List.mem_map.mp mem
  unfold congestion
  cases found : (job.d.allocated paths).find? fun ef => ef.joins hop.1 hop.2 with
  | none => exact le_refl _
  | some ef =>
    have there := List.mem_of_find?_eq_some found
    rw [allocated_eq job.d simple] at there
    obtain ⟨first, -, rfl⟩ := List.mem_map.mp there
    have flow : (0 : ℚ) ≤ through paths first.hop := Nat.cast_nonneg _
    by_cases room : 0 < first.effCap
    · simp only [ledger, room, if_true, sub_nonneg]
      exact div_le_one_of_le₀ (by linarith) room.le
    · simp only [ledger, room, if_false, le_refl]

/-- Every hop of a path is an edge in one of its directions. -/
theorem hop_key (run : Run (Moves (Multi.next job)) ok (.init job) s) :
    ∀ pi ∈ s.allPaths, ∀ hop ∈ hops pi.path, hop.1 ++ "->" ++ hop.2 ∈ job.d.hopKeys := by
  apply (paths_run (P := fun pi => ∀ hop ∈ hops pi.path,
    hop.1 ++ "->" ++ hop.2 ∈ job.d.hopKeys) _ run).1
  intro s r pi before _ finds hop mem
  obtain ⟨taken, feasible⟩ := finds.feasible
  rw [feasible.trail.hops_eq] at mem
  obtain ⟨x, used, rfl⟩ := List.mem_map.mp mem
  have offer := feasible.trail.offered x used
  rw [FlowOptimizationSolver.hopKeys, List.mem_dedup]
  cases direction : x.2.isRev with
  | false =>
    obtain ⟨e, edge, source, dest⟩ := arc_of_offer before offer direction
    refine List.mem_flatMap.mpr ⟨e, edge, ?_⟩
    simp [source, dest]
  | true =>
    obtain ahead | back := List.mem_append.mp offer
    · obtain ⟨ef, -, same⟩ := List.mem_map.mp ahead
      rw [← same] at direction
      cases direction
    · obtain ⟨v, revEf, entry, -, same⟩ := job.d.exists_of_mem_backwardEdges back
      obtain ⟨e, edge, fixed⟩ := edge_of_entry before (List.mem_of_find?_eq_some entry)
      have joins := List.find?_some (p := fun ef : EdgeFlow => ef.joins v x.1) entry
      have hop : (job.d.newEdgeFlow e).hop = (v, x.1) :=
        (EdgeFlow.fields_eq fixed).1.symm.trans (EdgeFlow.joins_iff.mp joins)
      obtain ⟨source, dest⟩ := Prod.mk.inj hop
      refine List.mem_flatMap.mpr ⟨e, edge, ?_⟩
      rw [same, ← source, ← dest]
      simp [FlowOptimizationSolver.newEdgeFlow]

theorem usedKeys_length (run : Run (Moves (Multi.next job)) ok (.init job) s) :
    (usedKeys s.allPaths).dedup.length ≤ job.d.hopKeys.length := by
  apply List.Subperm.length_le
  apply (List.nodup_dedup _).subperm
  intro key mem
  obtain ⟨hop, used, rfl⟩ := List.mem_map.mp (List.mem_dedup.mp mem)
  obtain ⟨pi, held, on⟩ := List.mem_flatMap.mp used
  exact hop_key run pi held hop on

theorem Trail.latency_nonneg {d : FlowOptimizationSolver} {g : ResidualGraph} {thetaL latency : ℚ}
    {start : String} {taken : List (String × EdgeInfo)} {path : List String}
    (nonneg : ∀ u, ∀ ei ∈ d.offers g u, 0 ≤ ei.cost)
    (h : Trail d g thetaL start taken path latency) : 0 ≤ latency := by
  induction h with
  | start => exact le_refl _
  | step _ offer _ _ ih => exact add_nonneg ih (nonneg _ _ offer)

theorem totalLatency_nonneg (latencies : ∀ e ∈ job.d.edges, 0 ≤ e.latency)
    (run : Run (Moves (Multi.next job)) ok (.init job) s) : 0 ≤ totalLatency s.allPaths := by
  have each := (paths_run (P := fun pi => 0 ≤ pi.latency) ?_ run).1
  · apply List.sum_nonneg
    intro x mem
    obtain ⟨pi, held, rfl⟩ := List.mem_map.mp mem
    exact each pi held
  · intro s r pi _ _ finds
    obtain ⟨taken, feasible⟩ := finds.feasible
    exact feasible.trail.latency_nonneg (offers_nonneg latencies s.graph)

/-- No solution scores more than ten for each path and one for each edge. -/
theorem freshScore_le (latencies : ∀ e ∈ job.d.edges, 0 ≤ e.latency)
    (run : Run (Moves (Multi.next job)) ok (.init job) s) :
    job.d.freshScore s.allPaths ≤ 10 * s.allPaths.length + job.d.hopKeys.length := by
  obtain ⟨diversity, score, -, most⟩ := freshScore_eq job.d s.allPaths
  have latency := totalLatency_nonneg latencies run
  have congestion : 0 ≤ job.d.totalCongestion s.allPaths :=
    totalCongestion_nonneg (booked_run run).simple
  have keys : ((usedKeys s.allPaths).dedup.length : ℚ) ≤ job.d.hopKeys.length :=
    Nat.cast_le.mpr (usedKeys_length run)
  rw [score]
  linarith

/-! ## The paths of the last loop -/

/-- The removal has taken `i` paths, and the last loop works on what it has left. -/
def Trimmed (job : Job) (s : Multi) : Prop :=
  match s.phase with
  | .removing i => s.allPaths.length + i = s.initialSize
  | .iterating _ => s.allPaths.length ≤ s.initialSize - job.removals s.initialSize
  | .exploring _ => s.allPaths.length < s.initialSize - job.removals s.initialSize
  | _ => True

theorem updateBest_sizes (s : Multi) :
    s.updateBest.allPaths = s.allPaths ∧ s.updateBest.initialSize = s.initialSize := by
  unfold Multi.updateBest
  simp only
  split
  · exact ⟨rfl, rfl⟩
  · exact ⟨rfl, rfl⟩

theorem trimmed_next {r : Draws} (h : Trimmed job s) (move : s.next job r = some s') :
    Trimmed job s' := by
  cases step_of_next move with
  | skip | again | find | fail | finish => exact trivial
  | first => exact Nat.add_zero _
  | remove phase paths =>
    simp only [Trimmed, phase, paths, List.length_cons] at h
    simp only [Trimmed, Multi.removeOldest]
    omega
  | iterate phase enough =>
    simp only [Trimmed, phase] at h
    simp only [Trimmed, Job.removals]
    by_cases none : s.allPaths = []
    · simp [none]
    · have := enough none
      omega
  | drop r phase paths =>
    simp only [Trimmed, phase, paths, List.length_cons] at h
    simp only [Trimmed, Multi.dropOldest, Multi.removeOldest]
    omega
  | stay phase =>
    simp only [Trimmed, phase] at h
    simp only [Trimmed, updateBest_sizes]
    omega
  | explore phase =>
    simp only [Trimmed, phase] at h
    simp only [Trimmed, updateBest_sizes, Multi.addPath, List.length_append, List.length_singleton]
    omega

theorem trimmed_run (run : Run (Moves (Multi.next job)) ok (.init job) s) : Trimmed job s :=
  run.invariant (fun _ _ _ h _ move => trimmed_next h move) trivial

theorem Trimmed.turn (h : Trimmed job s) {i : Nat} (phase : s.phase = .iterating i)
    (some : s.allPaths ≠ []) :
    s.allPaths.length + job.removals s.initialSize ≤ s.initialSize := by
  simp only [Trimmed, phase] at h
  have := List.length_pos_iff.mpr some
  omega

/-- After the first solution its size is not changed. -/
theorem initialSize_next {r : Draws} (late : ¬ s.phase.early) (move : s.next job r = some s') :
    s'.initialSize = s.initialSize := by
  cases step_of_next move with
  | skip phase | again phase | find phase | fail _ phase | first phase =>
    have early : s.phase.early := by
      rw [phase]
      exact trivial
    exact absurd early late
  | remove | iterate | drop | finish => rfl
  | stay => exact (updateBest_sizes _).2
  | explore => exact (updateBest_sizes _).2

/-- Where the first solution is ample, it stays the best. -/
theorem best_stays {s₀ : Multi} (latencies : ∀ e ∈ job.d.edges, 0 ≤ e.latency)
    (before : Run (Moves (Multi.next job)) ok (.init job) s₀) (first : s₀.phase = .removing 0)
    (ample : Ample job s₀.allPaths) (after : Run (Moves (Multi.next job)) ok s₀ s) :
    s.bestPaths = s₀.allPaths := by
  have scored := scored_run before
  have late : ¬ s₀.phase.early := by
    rw [first]
    exact id
  have size : s₀.initialSize = s₀.allPaths.length := by
    have trimmed := trimmed_run before
    simp only [Trimmed, first] at trimmed
    exact trimmed.symm
  have score : 10 * (s₀.allPaths.length : ℚ) - totalLatency s₀.allPaths / 10 -
      job.d.totalCongestion s₀.allPaths ≤ s₀.bestScore := by
    rw [scored.best.resolve_left late, scored.first first]
    obtain ⟨diversity, same, nonneg, -⟩ := freshScore_eq job.d s₀.allPaths
    rw [same]
    linarith
  have kept : s.bestPaths = s₀.allPaths ∧ s.initialSize = s₀.initialSize := by
    induction after with
    | start => exact ⟨scored.first first, rfl⟩
    | @next s s' r between meets move ih =>
      have reached := before.trans between
      have run := reached.next meets move
      obtain ⟨late', rises⟩ := score_run before late between
      have sizes := (initialSize_next late' move).trans ih.2
      refine ⟨?_, sizes⟩
      obtain same | better := improves_next run late' move
      · exact same.trans ih.1
      · -- at the end of a turn the loop has no more paths than the removal has left
        obtain ⟨j, phase⟩ := better.ended
        have left := (trimmed_run run).turn phase better.some
        rw [sizes, size] at left
        have fewer : (s'.allPaths.length : ℚ) + job.removals s₀.allPaths.length ≤
            s₀.allPaths.length := by exact_mod_cast left
        have highest := freshScore_le latencies run
        have higher := better.higher
        unfold Ample at ample
        linarith
  exact kept.1

end

/-- Every destination of the first solution has a path in the result. -/
def Kept (s₀ s : Multi) : Prop :=
  ∀ pi ∈ s₀.allPaths, ∃ p ∈ s.result, p.hops.getLast? = some pi.dest

theorem kept_of_covers {job : Job} {ok : Multi → Draws → Prop} {s₀ s : Multi}
    (run : Run (Moves (Multi.next job)) ok (.init job) s)
    (covers : Covers s₀.allPaths s.bestPaths) : Kept s₀ s := by
  intro pi mem
  obtain ⟨pi', best, same⟩ := covers pi mem
  refine ⟨_, List.mem_map_of_mem best, ?_⟩
  rw [← same]
  exact (shaped_run run pi' best).last

/-- **Every destination that the search has found a path to has one in the result**, in every
run in which no paths that leave out a destination score higher than the best. If the first
solution is ample, this is so in every run. -/
theorem destinations_kept (job : Job) (s₀ : Multi)
    (before : Run (Moves (Multi.next job)) (fun _ _ => True) (.init job) s₀)
    (first : s₀.phase = .removing 0) :
    (∀ s, Run (Moves (Multi.next job)) (fun s _ => CountsMost job s) s₀ s → Kept s₀ s) ∧
    ((∀ e ∈ job.d.edges, 0 ≤ e.latency) → Ample job s₀.allPaths →
      ∀ s, Run (Moves (Multi.next job)) (fun _ _ => True) s₀ s → Kept s₀ s) := by
  have late : ¬ s₀.phase.early := by
    rw [first]
    exact id
  refine ⟨fun s after => ?_, fun latencies ample s after => ?_⟩
  · have free : Run (Moves (Multi.next job)) (fun _ _ => True) s₀ s :=
      after.mono fun _ _ _ => trivial
    apply kept_of_covers (before.trans free)
    clear free
    induction after with
    | start =>
      rw [(scored_run before).first first]
      exact .refl _
    | @next s' e s'' between most move ih =>
      have free : Run (Moves (Multi.next job)) (fun _ _ => True) s₀ s' :=
        between.mono fun _ _ _ => trivial
      have reached := (before.trans free).next trivial move
      exact ih.trans (covers_next reached (score_run before late free).1 most move)
  · apply kept_of_covers (before.trans after)
    rw [best_stays latencies before first ample after]
    exact .refl _

/-- The search finds a way to `a`, which takes 1000, and one to `b`, which takes 1. The second
alone scores higher than both. -/
theorem destination_dropped : ∃ (job : Job) (s₀ s : Multi),
    prepare [⟨"s", "a", 0, 0, 1000⟩, ⟨"s", "b", 0, 0, 1⟩] "s" ["a", "b"] 30 = some (.ok job) ∧
    Run (Moves (Multi.next job)) (fun _ _ => True) (.init job) s₀ ∧ s₀.phase = .removing 0 ∧
    Run (Moves (Multi.next job)) (fun _ _ => True) s₀ s ∧ s.phase = .done ∧
    (∃ pi ∈ s₀.allPaths, pi.dest = "a") ∧ ∀ p ∈ s.result, p.hops.getLast? ≠ some "a" := by
  have reached : ∃ x ∈ trial [⟨"s", "a", 0, 0, 1000⟩, ⟨"s", "b", 0, 0, 1⟩] "s" ["a", "b"] 30
      (fun _ _ => True) (List.replicate 43 (turning 0)),
      (x.2.phase = .removing 0 ∧ ∃ pi ∈ x.2.allPaths, pi.dest = "a") ∧
      ∃ s ∈ (List.replicate 11 (turning 0)).foldlM
        (checked (Multi.next x.1) fun _ _ => True) x.2,
        s.phase = .done ∧ ∀ p ∈ s.result, p.hops.getLast? ≠ some "a" := by
    decide +kernel
  obtain ⟨job, s₀, prepared, before, ⟨first, found⟩, s, moves, done, lost⟩ :=
    exists_of_trial _ _ (P := fun job s₀ =>
      (s₀.phase = .removing 0 ∧ ∃ pi ∈ s₀.allPaths, pi.dest = "a") ∧
      ∃ s ∈ (List.replicate 11 (turning 0)).foldlM
        (checked (Multi.next job) fun _ _ => True) s₀,
        s.phase = .done ∧ ∀ p ∈ s.result, p.hops.getLast? ≠ some "a") reached
  exact ⟨job, s₀, s, prepared, before, first, Run.of_checked moves, done, found, lost⟩

/-- Two ways of the same length. -/
def evenWays : List Edge := [⟨"s", "a", 0, 0, 1⟩, ⟨"s", "b", 0, 0, 1⟩]

/-- Each of the two paths is removed and found again in turn, and both are returned. This is
so whatever is drawn after the first solution. -/
theorem destinations_kept_two : ∃ (job : Job) (s₀ s : Multi),
    prepare evenWays "s" ["a", "b"] 30 = some (.ok job) ∧ s₀.phase = .removing 0 ∧
    s₀.allPaths.map PathWithInfo.path = [["s", "a"], ["s", "b"]] ∧
    s.phase = .done ∧ s.allPaths.map PathWithInfo.path = [["s", "b"]] ∧ Kept s₀ s ∧
    ∀ s', Run (Moves (Multi.next job)) (fun _ _ => True) s₀ s' → Kept s₀ s' := by
  have reached : ∃ x ∈ trial evenWays "s" ["a", "b"] 30 (fun _ _ => True)
      (List.replicate 43 inOrder),
      (x.2.phase = .removing 0 ∧ x.2.allPaths.map PathWithInfo.path = [["s", "a"], ["s", "b"]] ∧
        (∀ e ∈ x.1.d.edges, 0 ≤ e.latency) ∧ Ample x.1 x.2.allPaths) ∧
      ∃ s ∈ (List.replicate 11 inOrder).foldlM (checked (Multi.next x.1) fun s _ =>
        ∀ paths ∈ outcomes x.1 s, paths ≠ [] → ¬ Covers s.bestPaths paths →
          x.1.d.freshScore paths ≤ s.bestScore) x.2,
        s.phase = .done ∧ s.allPaths.map PathWithInfo.path = [["s", "b"]] := by
    decide +kernel
  obtain ⟨job, s₀, prepared, before, ⟨first, paths, latencies, ample⟩, s, moves, done, left⟩ :=
    exists_of_trial _ _ (P := fun job s₀ =>
      (s₀.phase = .removing 0 ∧ s₀.allPaths.map PathWithInfo.path = [["s", "a"], ["s", "b"]] ∧
        (∀ e ∈ job.d.edges, 0 ≤ e.latency) ∧ Ample job s₀.allPaths) ∧
      ∃ s ∈ (List.replicate 11 inOrder).foldlM (checked (Multi.next job) fun s _ =>
        ∀ paths ∈ outcomes job s, paths ≠ [] → ¬ Covers s.bestPaths paths →
          job.d.freshScore paths ≤ s.bestScore) s₀,
        s.phase = .done ∧ s.allPaths.map PathWithInfo.path = [["s", "b"]]) reached
  obtain ⟨most, always⟩ := destinations_kept job s₀ before first
  exact ⟨job, s₀, s, prepared, first, paths, done, left,
    most s ((Run.of_checked moves).mono fun _ _ => countsMost_of_outcomes),
    always latencies ample⟩

end SkyAccel.Routing
