import SkyAccel.Routing.CarouselRun

/-!
# The books of the flows

`Booked`: the flow of an edge is the number of paths that run over it, its residual is what
the flow leaves of its effective capacity, and the used path strings are those of the
paths. `flow_bookkeeping` has this in every state of every run.

An edge is charged one unit when its residual is positive, or when a search came over the
opposite edge. Flows stay within the effective capacities if the searches of a run find
room for a whole unit on the hops they may take (`flow_le_effCap`).
-/

namespace SkyAccel.Routing

open Strings (join)

/-- The pair of nodes under which an entry stands. -/
def EdgeFlow.hop (ef : EdgeFlow) : String × String := (ef.source, ef.dest)

theorem EdgeFlow.joins_iff {ef : EdgeFlow} {u v : String} :
    ef.joins u v = true ↔ ef.hop = (u, v) := by
  simp [EdgeFlow.joins, EdgeFlow.hop]

/-! ## Changing the entries of a path -/

theorem hops_nodup {path : List String} (h : path.Nodup) : (hops path).Nodup := by
  have second : ((hops path).map Prod.snd).Nodup := by
    have tail : (hops path).map Prod.snd = path.tail :=
      List.map_snd_zip (by rw [List.length_tail]; omega)
    rw [tail]
    exact h.sublist (List.tail_sublist path)
  exact second.of_map

/-- The loops over the hops of a path that repeats no node change each entry once. -/
theorem foldl_modify {f : EdgeFlow → EdgeFlow} (keeps : ∀ ef, (f ef).hop = ef.hop)
    {hs : List (String × String)} (nodup : hs.Nodup) (g : ResidualGraph) :
    hs.foldl (ResidualGraph.modify · f) g =
      g.map fun ef => if ef.hop ∈ hs then f ef else ef := by
  induction hs generalizing g with
  | nil => simp
  | cons hop hs ih =>
    obtain ⟨new, rest⟩ := List.nodup_cons.mp nodup
    rw [List.foldl_cons, ih rest, ResidualGraph.modify, List.map_map]
    apply List.map_congr_left
    intro ef _
    simp only [Function.comp_apply, EdgeFlow.joins_iff, List.mem_cons]
    by_cases here : ef.hop = hop
    · subst here
      simp only [keeps, if_true, new, if_false, true_or]
    · simp only [here, if_false, false_or]

theorem allocateFlow_eq {path : List String} (simple : path.Nodup) (g : ResidualGraph) (flow : ℚ) :
    allocateFlow g path flow = g.map fun ef =>
      if ef.hop ∈ hops path then { ef with flow := ef.flow + flow }.updateResidual else ef := by
  unfold allocateFlow
  rw [foldl_modify _ (hops_nodup simple)]
  exact fun _ => rfl

theorem releaseFlow_eq {path : List String} (simple : path.Nodup) (g : ResidualGraph) (flow : ℚ) :
    releaseFlow g path flow = g.map fun ef =>
      if ef.hop ∈ hops path then
        { ef with flow := if ef.flow - flow < 0 then 0 else ef.flow - flow }.updateResidual
      else ef := by
  unfold releaseFlow
  rw [foldl_modify _ (hops_nodup simple)]
  exact fun _ => rfl

/-- Entries whose flow is changed as these loops do keep their residual right. -/
theorem residual_map {g : ResidualGraph} (h : ∀ ef ∈ g, ef.residual = ef.effCap - ef.flow)
    (hs : List (String × String)) (f : EdgeFlow → ℚ) :
    ∀ ef ∈ g.map (fun ef => if ef.hop ∈ hs then { ef with flow := f ef }.updateResidual else ef),
      ef.residual = ef.effCap - ef.flow := by
  intro ef' mem
  obtain ⟨ef, there, rfl⟩ := List.mem_map.mp mem
  split
  · rfl
  · exact h ef there

/-- `releaseFlow` without its clamp at 0. -/
def releaseUnclamped (g : ResidualGraph) (path : List String) (flow : ℚ) : ResidualGraph :=
  (hops path).foldl
    (ResidualGraph.modify · fun ef => { ef with flow := ef.flow - flow }.updateResidual) g

/-! ## The books -/

/-- The number of paths over a hop. -/
def through (paths : List PathWithInfo) (hop : String × String) : Nat :=
  paths.countP fun pi => hop ∈ hops pi.path

structure Booked (s : Multi) : Prop where
  flow : ∀ ef ∈ s.graph, ef.flow = through s.allPaths ef.hop
  residual : ∀ ef ∈ s.graph, ef.residual = ef.effCap - ef.flow
  used : ∀ str, str ∈ s.usedPaths ↔ ∃ pi ∈ s.allPaths, join pi.path "->" = str
  distinct : (s.allPaths.map fun pi => join pi.path "->").Nodup
  simple : ∀ pi ∈ s.allPaths, pi.path.Nodup

section
variable {s s' : Multi}

/-- An entry of one of two graphs that differ in bans has a counterpart in the other. -/
theorem Alike.entry (h : Alike s s') {ef' : EdgeFlow} (mem : ef' ∈ s'.graph) :
    ∃ ef ∈ s.graph, ef' = { ef with banned := ef'.banned } := by
  have unbanned : { ef' with banned := false } ∈ unbanAllEdges s.graph := by
    rw [← h.graph]
    exact List.mem_map_of_mem mem
  obtain ⟨ef, there, same⟩ := List.mem_map.mp unbanned
  refine ⟨ef, there, ?_⟩
  have := congrArg (fun x : EdgeFlow => { x with banned := ef'.banned }) same
  exact this.symm

theorem Booked.alike (h : Booked s) (alike : Alike s s') : Booked s' := by
  constructor
  case flow =>
    intro ef' mem
    obtain ⟨ef, there, same⟩ := alike.entry mem
    rw [same, alike.allPaths]
    exact h.flow ef there
  case residual =>
    intro ef' mem
    obtain ⟨ef, there, same⟩ := alike.entry mem
    rw [same]
    exact h.residual ef there
  case used =>
    rw [alike.usedPaths, alike.allPaths]
    exact h.used
  case distinct =>
    rw [alike.allPaths]
    exact h.distinct
  case simple =>
    rw [alike.allPaths]
    exact h.simple

theorem through_snoc (paths : List PathWithInfo) (pi : PathWithInfo) (hop : String × String) :
    through (paths ++ [pi]) hop = through paths hop + if hop ∈ hops pi.path then 1 else 0 := by
  simp [through, List.countP_append, List.countP_singleton]

theorem through_cons (paths : List PathWithInfo) (pi : PathWithInfo) (hop : String × String) :
    through (pi :: paths) hop = through paths hop + if hop ∈ hops pi.path then 1 else 0 := by
  simp [through, List.countP_cons]

theorem Booked.addPath (h : Booked s) {pi : PathWithInfo} (simple : pi.path.Nodup)
    (unused : join pi.path "->" ∉ s.usedPaths) : Booked (s.addPath pi) := by
  have graph := allocateFlow_eq simple s.graph 1
  constructor
  case flow =>
    intro ef' mem
    simp only [Multi.addPath, graph, List.mem_map] at mem ⊢
    obtain ⟨ef, there, rfl⟩ := mem
    have flow := h.flow ef there
    split
    · rename_i inside
      have here : ef.hop ∈ hops pi.path := inside
      simp only [EdgeFlow.updateResidual, flow, EdgeFlow.hop] at here ⊢
      rw [through_snoc, if_pos here]
      push_cast
      rfl
    · rename_i outside
      rw [flow, through_snoc, if_neg outside, Nat.add_zero]
  case residual =>
    simp only [Multi.addPath, graph]
    exact residual_map h.residual _ _
  case used =>
    intro str
    simp only [Multi.addPath, List.mem_cons, List.mem_append, List.not_mem_nil, or_false, h.used]
    constructor
    · rintro (new | ⟨old, mem, same⟩)
      · exact ⟨pi, .inr rfl, new.symm⟩
      · exact ⟨old, .inl mem, same⟩
    · rintro ⟨other, mem | rfl, same⟩
      · exact .inr ⟨other, mem, same⟩
      · exact .inl same.symm
  case distinct =>
    simp only [Multi.addPath, List.map_append, List.map_singleton]
    apply h.distinct.append (List.nodup_singleton _)
    simp only [List.disjoint_singleton, List.mem_map]
    exact fun there => unused ((h.used _).mpr there)
  case simple =>
    intro other mem
    obtain old | rfl := by simpa [Multi.addPath] using mem
    · exact h.simple other old
    · exact simple

/-- A path in use has flow on all its edges, so releasing it never meets the clamp. -/
theorem Booked.release (h : Booked s) {pi : PathWithInfo} (mem : pi ∈ s.allPaths) :
    releaseFlow s.graph pi.path 1 = s.graph.map (fun ef =>
        if ef.hop ∈ hops pi.path then { ef with flow := ef.flow - 1 }.updateResidual else ef) ∧
      releaseFlow s.graph pi.path 1 = releaseUnclamped s.graph pi.path 1 := by
  have simple := h.simple pi mem
  have exact' : releaseFlow s.graph pi.path 1 = s.graph.map (fun ef =>
      if ef.hop ∈ hops pi.path then { ef with flow := ef.flow - 1 }.updateResidual else ef) := by
    rw [releaseFlow_eq simple]
    apply List.map_congr_left
    intro ef there
    split
    · rename_i inside
      have some : 1 ≤ through s.allPaths ef.hop :=
        List.countP_pos_iff.mpr ⟨pi, mem, by simpa using inside⟩
      have flow : (1 : ℚ) ≤ ef.flow := by
        rw [h.flow ef there]
        exact_mod_cast some
      rw [if_neg (by linarith)]
    · rfl
  have unclamped : releaseUnclamped s.graph pi.path 1 = s.graph.map (fun ef =>
      if ef.hop ∈ hops pi.path then { ef with flow := ef.flow - 1 }.updateResidual else ef) := by
    unfold releaseUnclamped
    rw [foldl_modify _ (hops_nodup simple)]
    exact fun _ => rfl
  exact ⟨exact', exact'.trans unclamped.symm⟩

theorem Booked.removeOldest (h : Booked s) {pi : PathWithInfo} {rest : List PathWithInfo}
    (paths : s.allPaths = pi :: rest) : Booked (s.removeOldest pi rest) := by
  have mem : pi ∈ s.allPaths := by
    rw [paths]
    exact List.mem_cons_self
  have graph := (h.release mem).1
  have distinct := h.distinct
  rw [paths, List.map_cons, List.nodup_cons] at distinct
  constructor
  case flow =>
    intro ef' there'
    simp only [Multi.removeOldest, graph, List.mem_map] at there' ⊢
    obtain ⟨ef, there, rfl⟩ := there'
    have flow := h.flow ef there
    rw [paths, through_cons] at flow
    split
    · rename_i inside
      have here : ef.hop ∈ hops pi.path := inside
      rw [if_pos here] at flow
      simp only [EdgeFlow.updateResidual, flow, EdgeFlow.hop]
      push_cast
      ring
    · rename_i outside
      rw [if_neg outside, Nat.add_zero] at flow
      exact flow
  case residual =>
    simp only [Multi.removeOldest, graph]
    exact residual_map h.residual _ _
  case used =>
    intro str
    simp only [Multi.removeOldest, List.mem_filter, h.used, paths, List.mem_cons,
      decide_eq_true_eq]
    constructor
    · rintro ⟨⟨other, rfl | mem, same⟩, kept⟩
      · exact absurd same.symm kept
      · exact ⟨other, mem, same⟩
    · rintro ⟨other, mem, rfl⟩
      refine ⟨⟨other, .inr mem, rfl⟩, fun same => distinct.1 ?_⟩
      rw [← same]
      exact List.mem_map_of_mem mem
  case distinct => exact distinct.2
  case simple =>
    intro other mem'
    apply h.simple other
    rw [paths]
    exact List.mem_cons_of_mem _ mem'

end

/-! ## Runs -/

theorem mem_buildResidualGraphWithCapacity {d : FlowOptimizationSolver} {ef : EdgeFlow}
    (mem : ef ∈ d.buildResidualGraphWithCapacity) : ∃ e ∈ d.edges, ef = d.newEdgeFlow e := by
  have entries : ∀ ef ∈ d.buildResidualGraphWithCapacity, ∃ e ∈ d.edges, ef = d.newEdgeFlow e := by
    unfold FlowOptimizationSolver.buildResidualGraphWithCapacity
    refine List.foldlRecOn
      (motive := fun g : ResidualGraph => ∀ ef ∈ g, ∃ e ∈ d.edges, ef = d.newEdgeFlow e) _ _ ?_ ?_
    · exact fun _ none => absurd none List.not_mem_nil
    · intro g before e edge ef mem
      obtain old | new := List.mem_append.mp mem
      · exact before ef (List.mem_filter.mp old).1
      · exact ⟨e, edge, List.mem_singleton.mp new⟩
  exact entries ef mem

theorem booked_init (job : Job) : Booked (.init job) := by
  constructor
  case flow =>
    intro ef mem
    obtain ⟨e, _, rfl⟩ := mem_buildResidualGraphWithCapacity mem
    rfl
  case residual =>
    intro ef mem
    obtain ⟨e, _, rfl⟩ := mem_buildResidualGraphWithCapacity mem
    exact (sub_zero _).symm
  case used =>
    intro str
    simp [Multi.init]
  case distinct => exact List.nodup_nil
  case simple => exact fun _ none => absurd none List.not_mem_nil

theorem Finds.simple {job : Job} {s : Multi} {pi : PathWithInfo} (h : Finds job s pi) :
    pi.path.Nodup := by
  obtain ⟨taken, feasible⟩ := h.feasible
  exact feasible.trail.nodup

theorem booked_next {job : Job} {s s' : Multi} {r : Draws} (h : Booked s)
    (move : s.next job r = some s') : Booked s' := by
  apply next_elim move h
  · exact fun s s' alike booked => booked.alike alike
  · exact fun pi finds => h.addPath finds.simple finds.unused
  · exact fun pi rest paths => h.removeOldest paths

theorem booked_run {job : Job} {ok : Multi → Draws → Prop} {s : Multi}
    (run : Run (Moves (Multi.next job)) ok (.init job) s) : Booked s :=
  run.invariant (fun _ _ _ h _ move => booked_next h move) (booked_init job)

/-- In every state of every run, each edge carries as many units of flow as there are paths
over it, its residual is the rest of its effective capacity, the used strings are those of
the paths, and releasing a path does not meet the clamp. -/
theorem flow_bookkeeping (job : Job) (s : Multi)
    (run : Run (Moves (Multi.next job)) (fun _ _ => True) (.init job) s) :
    (∀ ef ∈ s.graph, ef.flow = through s.allPaths (ef.source, ef.dest) ∧
      ef.residual = ef.effCap - ef.flow) ∧
    (∀ str, str ∈ s.usedPaths ↔ ∃ pi ∈ s.allPaths, join pi.path "->" = str) ∧
    ∀ pi ∈ s.allPaths, releaseFlow s.graph pi.path 1 = releaseUnclamped s.graph pi.path 1 := by
  have booked := booked_run run
  refine ⟨?_, booked.used, ?_⟩
  · exact fun ef mem => ⟨booked.flow ef mem, booked.residual ef mem⟩
  · exact fun pi mem => (booked.release mem).2

theorem flow_bookkeeping_two : ∃ (job : Job) (s : Multi),
    prepare [⟨"s", "d", 0, 0, 10⟩, ⟨"s", "a", 0, 0, 6⟩, ⟨"a", "d", 0, 0, 6⟩] "s" ["d"] 30 =
      some (.ok job) ∧ s.allPaths.length = 2 ∧
    (∀ ef ∈ s.graph, ef.flow = through s.allPaths (ef.source, ef.dest) ∧
      ef.residual = ef.effCap - ef.flow) ∧
    (∀ str, str ∈ s.usedPaths ↔ ∃ pi ∈ s.allPaths, join pi.path "->" = str) ∧
    ∀ pi ∈ s.allPaths, releaseFlow s.graph pi.path 1 = releaseUnclamped s.graph pi.path 1 := by
  have reached : ∃ x ∈ trial [⟨"s", "d", 0, 0, 10⟩, ⟨"s", "a", 0, 0, 6⟩, ⟨"a", "d", 0, 0, 6⟩]
      "s" ["d"] 30 (fun _ _ => True) [inOrder, inOrder], x.2.allPaths.length = 2 := by
    decide +kernel
  obtain ⟨job, s, prepared, run, two⟩ :=
    exists_of_trial _ _ (P := fun _ s => s.allPaths.length = 2) reached
  exact ⟨job, s, prepared, two, flow_bookkeeping job s run⟩

/-! ## What stays of an entry -/

/-- An entry without the fields that change. -/
def EdgeFlow.fixed (ef : EdgeFlow) : EdgeFlow :=
  { ef with flow := 0, banned := false, residual := 0 }

theorem EdgeFlow.fields_eq {a b : EdgeFlow} (h : a.fixed = b.fixed) :
    a.hop = b.hop ∧ a.cap = b.cap ∧ a.thetaA = b.thetaA ∧ a.effCap = b.effCap := by
  simp only [EdgeFlow.fixed, EdgeFlow.mk.injEq, true_and, and_true] at h
  obtain ⟨source, dest, cap, thetaA, effCap⟩ := h
  exact ⟨Prod.ext source dest, cap, thetaA, effCap⟩

theorem foldl_modify_fixed {f : EdgeFlow → EdgeFlow} (keeps : ∀ ef, (f ef).fixed = ef.fixed)
    (hs : List (String × String)) (g : ResidualGraph) :
    (hs.foldl (ResidualGraph.modify · f) g).map EdgeFlow.fixed = g.map EdgeFlow.fixed := by
  induction hs generalizing g with
  | nil => rfl
  | cons hop hs ih =>
    rw [List.foldl_cons, ih, ResidualGraph.modify, List.map_map]
    apply List.map_congr_left
    intro ef _
    simp only [Function.comp_apply]
    split
    · exact keeps ef
    · rfl

theorem allocateFlow_fixed (g : ResidualGraph) (path : List String) (flow : ℚ) :
    (allocateFlow g path flow).map EdgeFlow.fixed = g.map EdgeFlow.fixed := by
  unfold allocateFlow
  rw [foldl_modify_fixed]
  exact fun _ => rfl

theorem releaseFlow_fixed (g : ResidualGraph) (path : List String) (flow : ℚ) :
    (releaseFlow g path flow).map EdgeFlow.fixed = g.map EdgeFlow.fixed := by
  unfold releaseFlow
  rw [foldl_modify_fixed]
  exact fun _ => rfl

theorem unbanAllEdges_fixed (g : ResidualGraph) :
    (unbanAllEdges g).map EdgeFlow.fixed = g.map EdgeFlow.fixed := by
  rw [unbanAllEdges, List.map_map]
  rfl

theorem fixed_run {job : Job} {ok : Multi → Draws → Prop} {s : Multi}
    (run : Run (Moves (Multi.next job)) ok (.init job) s) :
    s.graph.map EdgeFlow.fixed = job.d.buildResidualGraphWithCapacity.map EdgeFlow.fixed := by
  apply run.invariant (P := fun s => s.graph.map EdgeFlow.fixed =
    job.d.buildResidualGraphWithCapacity.map EdgeFlow.fixed) _ rfl
  intro s r s' h _ move
  apply next_elim (P := fun s => s.graph.map EdgeFlow.fixed =
    job.d.buildResidualGraphWithCapacity.map EdgeFlow.fixed) move h
  · intro s s' alike h
    rw [← unbanAllEdges_fixed, alike.graph, unbanAllEdges_fixed]
    exact h
  · exact fun pi _ => (allocateFlow_fixed s.graph pi.path 1).trans h
  · exact fun pi rest _ => (releaseFlow_fixed s.graph pi.path 1).trans h

theorem first_of_entry {job : Job} {ok : Multi → Draws → Prop} {s : Multi}
    (run : Run (Moves (Multi.next job)) ok (.init job) s) {ef : EdgeFlow} (mem : ef ∈ s.graph) :
    ∃ first ∈ job.d.buildResidualGraphWithCapacity, first.fixed = ef.fixed := by
  apply List.mem_map.mp
  rw [← fixed_run run]
  exact List.mem_map_of_mem mem

/-- Every entry, in every state, is that of an edge. -/
theorem edge_of_entry {job : Job} {ok : Multi → Draws → Prop} {s : Multi}
    (run : Run (Moves (Multi.next job)) ok (.init job) s) {ef : EdgeFlow} (mem : ef ∈ s.graph) :
    ∃ e ∈ job.d.edges, ef.fixed = (job.d.newEdgeFlow e).fixed := by
  obtain ⟨first, built, same⟩ := first_of_entry run mem
  obtain ⟨e, edge, rfl⟩ := mem_buildResidualGraphWithCapacity built
  exact ⟨e, edge, same.symm⟩

/-! ## Capacity -/

/-- The entries that a hop is charged to have room for one more path. -/
def Roomy (g : ResidualGraph) (u : String) (ei : EdgeInfo) : Prop :=
  ∀ ef ∈ g, ef.hop = (u, ei.dst) → 1 ≤ ef.residual

instance (g : ResidualGraph) (u : String) (ei : EdgeInfo) : Decidable (Roomy g u ei) :=
  inferInstanceAs (Decidable (∀ ef ∈ g, ef.hop = (u, ei.dst) → 1 ≤ ef.residual))

theorem computeThetaA_nonneg (d : FlowOptimizationSolver) (cpuLoad : ℚ) :
    0 ≤ d.computeThetaA cpuLoad := by
  have most (x : ℚ) : (if 1 < x then 1 else x) ≤ 1 := by
    split
    · exact le_refl _
    · rename_i small
      exact not_lt.mp small
  exact sub_nonneg.mpr (most _)

/-- A request that `prepare` accepts: a solver for the edges, and the bounds it computes for
the destinations that are nodes. -/
theorem prepare_ok {edges : List Edge} {start : String} {ends : List String} {fuel : Nat}
    {job : Job} (h : prepare edges start ends fuel = some (.ok job)) :
    ∃ d : FlowOptimizationSolver, d.edges = edges ∧ 0 ≤ d.capacity ∧
      ∃ thetaLMap ∈ d.computeThetaLForDestinations start (ends.filter (isNode edges)) fuel,
        job = ⟨{ d with thetaLMap := thetaLMap }, start, ends.filter (isNode edges)⟩ := by
  simp only [prepare] at h
  split at h
  · cases h
  · split at h
    · cases h
    · split at h
      · cases h
      · obtain ⟨thetaLMap, computed, same⟩ := Option.map_eq_some_iff.mp h
        exact ⟨_, rfl, Nat.cast_nonneg _, thetaLMap, computed, (Except.ok.inj same).symm⟩

theorem prepare_eq {edges : List Edge} {start : String} {ends : List String} {fuel : Nat}
    {job : Job} (h : prepare edges start ends fuel = some (.ok job)) :
    job.d.edges = edges ∧ 0 ≤ job.d.capacity := by
  obtain ⟨d, same, capacity, thetaLMap, -, rfl⟩ := prepare_ok h
  exact ⟨same, capacity⟩

/-- The paths held and the best paths fit the effective capacities of the first graph. -/
def Fitting (job : Job) (s : Multi) : Prop :=
  ∀ ef ∈ job.d.buildResidualGraphWithCapacity,
    (through s.allPaths ef.hop : ℚ) ≤ ef.effCap ∧ (through s.bestPaths ef.hop : ℚ) ≤ ef.effCap

theorem fitting_next {job : Job} {ok : Multi → Draws → Prop} {s s' : Multi} {r : Draws}
    (run : Run (Moves (Multi.next job)) ok (.init job) s) (room : Searches job Roomy s)
    (h : Fitting job s) (move : s.next job r = some s') : Fitting job s' := by
  apply next_elim move h
  · intro s s' alike h ef mem
    rw [alike.allPaths]
    obtain same | same := alike.bestPaths
    · rw [same]
      exact h ef mem
    · rw [same]
      exact ⟨(h ef mem).1, (h ef mem).1⟩
  · intro pi finds ef built
    refine ⟨?_, (h ef built).2⟩
    simp only [Multi.addPath, through_snoc]
    split
    · rename_i inside
      obtain ⟨taken, feasible, roomy⟩ := room.taken finds
      rw [feasible.trail.hops_eq] at inside
      obtain ⟨x, mem, same⟩ := List.mem_map.mp inside
      -- the entry as it stands now
      have there : ef.fixed ∈ s.graph.map EdgeFlow.fixed := by
        rw [fixed_run run]
        exact List.mem_map_of_mem built
      obtain ⟨now, held, alike⟩ := List.mem_map.mp there
      obtain ⟨hop, _, _, cap⟩ := EdgeFlow.fields_eq alike
      have left := roomy x mem now held (hop.trans same.symm)
      have booked := booked_run run
      rw [booked.residual now held, booked.flow now held, hop, cap] at left
      push_cast
      linarith
    · rw [Nat.add_zero]
      exact (h ef built).1
  · intro pi rest paths ef built
    refine ⟨?_, (h ef built).2⟩
    have before := (h ef built).1
    rw [paths, through_cons] at before
    have fewer : (through rest ef.hop : ℚ) ≤
        (through rest ef.hop + if ef.hop ∈ hops pi.path then 1 else 0 : Nat) := by
      exact_mod_cast Nat.le_add_right _ _
    exact fewer.trans before

/-- In every run whose searches find room for a whole unit on the hops they may take, no edge
carries more than its effective capacity, and neither the paths held nor the best paths
oversubscribe one. -/
theorem flow_le_effCap (edges : List Edge) (start : String) (ends : List String) (fuel : Nat)
    (job : Job) (prepared : prepare edges start ends fuel = some (.ok job)) (s : Multi)
    (run : Run (Moves (Multi.next job)) (fun s _ => Searches job Roomy s) (.init job) s) :
    ∀ ef ∈ s.graph, ef.flow ≤ ef.effCap ∧ ef.effCap = ef.thetaA * ef.cap ∧
      (through s.allPaths (ef.source, ef.dest) : ℚ) ≤ ef.effCap ∧
      (through s.bestPaths (ef.source, ef.dest) : ℚ) ≤ ef.effCap := by
  have fitting : Fitting job s := by
    induction run with
    | start =>
      intro ef built
      obtain ⟨e, _, rfl⟩ := mem_buildResidualGraphWithCapacity built
      have nonneg : 0 ≤ (job.d.newEdgeFlow e).effCap :=
        mul_nonneg (computeThetaA_nonneg _ _) (prepare_eq prepared).2
      exact ⟨nonneg, nonneg⟩
    | next before room move ih => exact fitting_next before room ih move
  intro ef mem
  obtain ⟨first, built, alike⟩ := first_of_entry run mem
  obtain ⟨hop, _, _, cap⟩ := EdgeFlow.fields_eq alike
  obtain ⟨all, best⟩ := fitting first built
  rw [hop, cap] at all best
  refine ⟨?_, ?_, all, best⟩
  · rw [(booked_run run).flow ef mem]
    exact all
  · obtain ⟨e, _, same⟩ := edge_of_entry run mem
    obtain ⟨_, cap, thetaA, effCap⟩ := EdgeFlow.fields_eq same
    rw [effCap, thetaA, cap]
    rfl

/-- The load of the only way to `d` leaves 18/29 of a unit, and the first search takes it. -/
theorem flow_oversubscribed : ∃ (job : Job) (s : Multi),
    prepare [⟨"s", "d", 0, 80, 1⟩, ⟨"x", "y", 0, 90, 1⟩] "s" ["d"] 30 = some (.ok job) ∧
    Run (Moves (Multi.next job)) (fun _ _ => True) (.init job) s ∧
    ∃ ef ∈ s.graph, ef.flow = 1 ∧ ef.effCap = 18 / 29 := by
  apply exists_of_trial (fun _ _ => True) [inOrder]
    (P := fun _ s => ∃ ef ∈ s.graph, ef.flow = 1 ∧ ef.effCap = 18 / 29)
  decide +kernel

/-- Two ways to `d`. The load leaves room for one and a half units on the first. -/
def loadedWays : List Edge :=
  [⟨"s", "a", 0, 65, 10⟩, ⟨"a", "d", 0, 0, 10⟩, ⟨"s", "b", 0, 0, 11⟩, ⟨"b", "d", 0, 0, 11⟩,
    ⟨"x", "y", 0, 90, 1⟩]

/-- Both ways are found, and each is removed and found again. -/
theorem flow_le_effCap_done : ∃ (job : Job) (s : Multi),
    prepare loadedWays "s" ["d"] 30 = some (.ok job) ∧
    (s.phase = .done ∧ s.bestPaths.map PathWithInfo.path = [["s", "a", "d"], ["s", "b", "d"]] ∧
      ∃ ef ∈ s.graph, ef.hop = ("s", "a") ∧ ef.effCap = 3 / 2) ∧
    ∀ ef ∈ s.graph, ef.flow ≤ ef.effCap ∧ ef.effCap = ef.thetaA * ef.cap ∧
      (through s.allPaths (ef.source, ef.dest) : ℚ) ≤ ef.effCap ∧
      (through s.bestPaths (ef.source, ef.dest) : ℚ) ≤ ef.effCap := by
  have reached : ∃ x ∈ trial loadedWays "s" ["d"] 30 (fun job => Searches job Roomy)
      (inOrder :: List.replicate 14 (turning 2)),
      x.2.phase = .done ∧ x.2.bestPaths.map PathWithInfo.path = [["s", "a", "d"], ["s", "b", "d"]] ∧
        ∃ ef ∈ x.2.graph, ef.hop = ("s", "a") ∧ ef.effCap = 3 / 2 := by
    decide +kernel
  obtain ⟨job, s, prepared, run, ends⟩ := exists_of_trial _ _ (P := fun _ s => s.phase = .done ∧
    s.bestPaths.map PathWithInfo.path = [["s", "a", "d"], ["s", "b", "d"]] ∧
      ∃ ef ∈ s.graph, ef.hop = ("s", "a") ∧ ef.effCap = 3 / 2) reached
  exact ⟨job, s, prepared, ends, flow_le_effCap _ _ _ _ job prepared s run⟩

end SkyAccel.Routing
