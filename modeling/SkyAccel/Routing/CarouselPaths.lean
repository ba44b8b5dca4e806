import SkyAccel.Routing.CarouselFlow

/-!
# The paths that the carousel solver returns

A search also takes edges that carry flow backwards, at no price, and edges that are banned
at 100 more than their latency. The nodes it comes through are returned as a route and the
price as its round-trip time. The routes follow the edges if the backward hops that a run may
take are edges too (`result_routable`), and the times are those of the routes if its hops
are priced as the edges (`result_latency`).
-/

namespace SkyAccel.Routing

section
variable {d : FlowOptimizationSolver} {g : ResidualGraph} {thetaL latency : ℚ} {s : String}
  {taken : List (String × EdgeInfo)} {path : List String}

theorem Trail.isChain {R : String → String → Prop} (h : Trail d g thetaL s taken path latency)
    (good : ∀ x ∈ taken, R x.1 x.2.dst) : path.IsChain R := by
  induction h with
  | start => exact .singleton _
  | @step taken path latency u ei _ _ _ _ ih =>
    have before := ih fun x mem => good x (List.mem_append_left _ mem)
    apply before.append (.singleton _)
    intro last ends first starts
    obtain rfl : u = last := by simpa using ends
    obtain rfl : ei.dst = first := by simpa using starts
    exact good (u, ei) (List.mem_append_right _ List.mem_cons_self)

theorem Trail.latency_eq_cost {w : String → String → ℚ}
    (h : Trail d g thetaL s taken path latency) (priced : ∀ x ∈ taken, x.2.cost = w x.1 x.2.dst) :
    latency = Walk.cost w path := by
  induction h with
  | start => rfl
  | @step taken path latency u ei _ _ _ _ ih =>
    have before := ih fun x mem => priced x (List.mem_append_left _ mem)
    have hop := priced (u, ei) (List.mem_append_right _ List.mem_cons_self)
    rw [Walk.cost_snoc w _ u _ (List.getLast?_concat ..), ← before, ← hop]

end

/-! ## Every path of a run -/

/-- What holds of every path that the searches of a run find holds of the paths it holds and
of the best paths. -/
theorem paths_run {job : Job} {ok : Multi → Draws → Prop} {P : PathWithInfo → Prop}
    (found : ∀ s r pi, Run (Moves (Multi.next job)) ok (.init job) s → ok s r →
      Finds job s pi → P pi) {s : Multi}
    (run : Run (Moves (Multi.next job)) ok (.init job) s) :
    (∀ pi ∈ s.allPaths, P pi) ∧ ∀ pi ∈ s.bestPaths, P pi := by
  induction run with
  | start =>
    exact ⟨fun _ none => absurd none List.not_mem_nil, fun _ none => absurd none List.not_mem_nil⟩
  | @next s s' r before meets move ih =>
    apply next_elim (P := fun s => (∀ pi ∈ s.allPaths, P pi) ∧ ∀ pi ∈ s.bestPaths, P pi) move ih
    · intro s s' alike h
      rw [alike.allPaths]
      obtain same | same := alike.bestPaths
      · rw [same]
        exact h
      · rw [same]
        exact ⟨h.1, h.1⟩
    · intro pi finds
      refine ⟨?_, ih.2⟩
      intro other mem
      obtain old | new := List.mem_append.mp mem
      · exact ih.1 other old
      · rw [List.mem_singleton.mp new]
        exact found s r pi before meets finds
    · intro pi rest paths
      refine ⟨?_, ih.2⟩
      intro other mem
      apply ih.1
      rw [paths]
      exact List.mem_cons_of_mem _ mem

/-! ## Routes -/

/-- If the hop goes backwards over an edge, there is an edge in its own direction. -/
def Reversible (edges : List Edge) (_ : ResidualGraph) (u : String) (ei : EdgeInfo) : Prop :=
  ei.isRev = true → Arc edges u ei.dst

instance (edges : List Edge) (u v : String) : Decidable (Arc edges u v) :=
  inferInstanceAs (Decidable (∃ e ∈ edges, e.sourceIp = u ∧ e.destinationIp = v))

instance (edges : List Edge) (g : ResidualGraph) (u : String) (ei : EdgeInfo) :
    Decidable (Reversible edges g u ei) :=
  inferInstanceAs (Decidable (ei.isRev = true → Arc edges u ei.dst))

/-- A forward hop that is offered is an edge. -/
theorem arc_of_offer {job : Job} {ok : Multi → Draws → Prop} {s : Multi}
    (run : Run (Moves (Multi.next job)) ok (.init job) s) {u : String} {ei : EdgeInfo}
    (offer : ei ∈ job.d.offers s.graph u) (forward : ei.isRev = false) :
    Arc job.d.edges u ei.dst := by
  obtain ahead | back := List.mem_append.mp offer
  · obtain ⟨ef, mem, rfl⟩ := List.mem_map.mp ahead
    obtain ⟨held, leaves⟩ := List.mem_filter.mp mem
    obtain ⟨e, edge, same⟩ := edge_of_entry run held
    obtain ⟨source, dest⟩ := Prod.mk.inj (EdgeFlow.fields_eq same).1
    have from_u : ef.source = u := by
      simp only [Bool.and_eq_true, beq_iff_eq] at leaves
      exact leaves.1
    exact ⟨e, edge, source.symm.trans from_u, dest.symm⟩
  · obtain ⟨v, revEf, -, -, rfl⟩ := job.d.exists_of_mem_backwardEdges back
    cases forward

/-- In every run whose searches may go backwards only where there is an edge in that
direction too, the paths returned follow the edges. -/
theorem result_routable (edges : List Edge) (start : String) (ends : List String) (fuel : Nat)
    (job : Job) (prepared : prepare edges start ends fuel = some (.ok job)) (s : Multi)
    (run : Run (Moves (Multi.next job)) (fun s _ => Searches job (Reversible edges) s)
      (.init job) s) : ∀ p ∈ s.result, p.hops.IsChain (Arc edges) := by
  have routable := (paths_run (P := fun pi => pi.path.IsChain (Arc edges)) ?_ run).2
  · intro p mem
    obtain ⟨pi, best, rfl⟩ := List.mem_map.mp mem
    exact routable pi best
  · intro s r pi before meets finds
    obtain ⟨taken, feasible, reversible⟩ := meets.taken finds
    apply feasible.trail.isChain
    intro x mem
    cases direction : x.2.isRev with
    | true => exact reversible x mem direction
    | false =>
      have offer := feasible.trail.offered x mem
      rw [← (prepare_eq prepared).1]
      exact arc_of_offer before offer direction

/-- Flow from `a` to `b` is taken back by a second path, which is returned with the hop from
`b` to `a`, where no edge is. -/
theorem result_backwards : ∃ (job : Job) (s : Multi),
    OnePerPair [⟨"s", "a", 0, 0, 10⟩, ⟨"a", "b", 0, 0, 10⟩, ⟨"b", "d", 0, 0, 10⟩,
      ⟨"s", "b", 0, 0, 22⟩, ⟨"a", "d", 0, 0, 22⟩] ∧
    prepare [⟨"s", "a", 0, 0, 10⟩, ⟨"a", "b", 0, 0, 10⟩, ⟨"b", "d", 0, 0, 10⟩,
      ⟨"s", "b", 0, 0, 22⟩, ⟨"a", "d", 0, 0, 22⟩] "s" ["d"] 30 = some (.ok job) ∧
    Run (Moves (Multi.next job)) (fun _ _ => True) (.init job) s ∧
    s.phase = .done ∧ ⟨["s", "b", "a", "d"], 44, 44⟩ ∈ s.result ∧
    ¬ ["s", "b", "a", "d"].IsChain (Arc [⟨"s", "a", 0, 0, 10⟩, ⟨"a", "b", 0, 0, 10⟩,
      ⟨"b", "d", 0, 0, 10⟩, ⟨"s", "b", 0, 0, 22⟩, ⟨"a", "d", 0, 0, 22⟩]) := by
  have reached : ∃ x ∈ trial [⟨"s", "a", 0, 0, 10⟩, ⟨"a", "b", 0, 0, 10⟩, ⟨"b", "d", 0, 0, 10⟩,
      ⟨"s", "b", 0, 0, 22⟩, ⟨"a", "d", 0, 0, 22⟩] "s" ["d"] 30 (fun _ _ => True)
      ([inOrder, turning 2] ++ List.replicate 9 inOrder),
      x.2.phase = .done ∧ ⟨["s", "b", "a", "d"], 44, 44⟩ ∈ x.2.result := by
    decide +kernel
  obtain ⟨job, s, prepared, run, done, returned⟩ := exists_of_trial _ _
    (P := fun _ s => s.phase = .done ∧ ⟨["s", "b", "a", "d"], 44, 44⟩ ∈ s.result) reached
  refine ⟨job, s, ?_, prepared, run, done, returned, ?_⟩
  · unfold OnePerPair
    decide
  · decide

/-- The same edges and one from `b` to `a`. -/
def bothWays : List Edge :=
  [⟨"s", "a", 0, 0, 10⟩, ⟨"a", "b", 0, 0, 10⟩, ⟨"b", "a", 0, 0, 10⟩, ⟨"b", "d", 0, 0, 10⟩,
    ⟨"s", "b", 0, 0, 22⟩, ⟨"a", "d", 0, 0, 22⟩]

/-- The second path goes from `b` to `a` backwards, at no price, where there is an edge now. -/
theorem result_routable_backwards : ∃ (job : Job) (s : Multi),
    prepare bothWays "s" ["d"] 30 = some (.ok job) ∧ s.phase = .done ∧
    s.result = [⟨["s", "a", "b", "d"], 30, 30⟩, ⟨["s", "b", "a", "d"], 44, 44⟩] ∧
    ∀ p ∈ s.result, p.hops.IsChain (Arc bothWays) := by
  have reached : ∃ x ∈ trial bothWays "s" ["d"] 30
      (fun job => Searches job (Reversible bothWays))
      ([inOrder, turning 2] ++ List.replicate 9 inOrder),
      x.2.phase = .done ∧
        x.2.result = [⟨["s", "a", "b", "d"], 30, 30⟩, ⟨["s", "b", "a", "d"], 44, 44⟩] := by
    decide +kernel
  obtain ⟨job, s, prepared, run, done, result⟩ := exists_of_trial _ _ (P := fun _ s =>
    s.phase = .done ∧
      s.result = [⟨["s", "a", "b", "d"], 30, 30⟩, ⟨["s", "b", "a", "d"], 44, 44⟩]) reached
  exact ⟨job, s, prepared, done, result, result_routable _ _ _ _ job prepared s run⟩

/-! ## Latency -/

/-- The hop is an edge, and costs the latency of the last edge of its pair. -/
def Priced (edges : List Edge) (_ : ResidualGraph) (u : String) (ei : EdgeInfo) : Prop :=
  Arc edges u ei.dst ∧ ei.cost = along edges.reverse Edge.latency u ei.dst

instance (edges : List Edge) (g : ResidualGraph) (u : String) (ei : EdgeInfo) :
    Decidable (Priced edges g u ei) :=
  inferInstanceAs (Decidable (Arc edges u ei.dst ∧
    ei.cost = along edges.reverse Edge.latency u ei.dst))

/-- The bounds that `prepare` stores are those computed. -/
theorem lookup_computeThetaL {d : FlowOptimizationSolver} {start : String} {ends : List String}
    {fuel : Nat} {before after : Dict String ℚ}
    (h : ends.foldlM (fun (thetaLMap : Dict String ℚ) dest =>
      (d.computeThetaL start dest fuel).map fun thetaL => thetaLMap.insert dest thetaL) before =
        some after) {dest : String}
    (known : dest ∈ ends ∨ ∃ bound ∈ d.computeThetaL start dest fuel,
      before.lookup dest = some bound) :
    ∃ bound ∈ d.computeThetaL start dest fuel, after.lookup dest = some bound := by
  induction ends generalizing before with
  | nil =>
    obtain rfl := Option.some.inj h
    exact known.resolve_left List.not_mem_nil
  | cons first ends ih =>
    obtain ⟨next, step, rest⟩ := Option.bind_eq_some_iff.mp h
    obtain ⟨thetaL, computed, rfl⟩ := Option.map_eq_some_iff.mp step
    apply ih rest
    by_cases here : dest = first
    · subst here
      refine .inr ⟨thetaL, computed, ?_⟩
      rw [Dict.lookup_insert, if_pos rfl]
    · rw [Dict.lookup_insert, if_neg here]
      exact known.imp_left fun mem => (List.mem_cons.mp mem).resolve_left here

theorem prepare_thetaL {edges : List Edge} {start : String} {ends : List String} {fuel : Nat}
    {job : Job} (h : prepare edges start ends fuel = some (.ok job)) :
    ∀ dest ∈ job.validEnds, dest ∈ ends ∧ ∃ bound ∈ job.d.computeThetaL start dest fuel,
      job.d.thetaL dest = bound := by
  obtain ⟨d, -, -, thetaLMap, computed, rfl⟩ := prepare_ok h
  intro dest mem
  obtain ⟨bound, here, stored⟩ := lookup_computeThetaL computed (.inl mem)
  refine ⟨(List.mem_filter.mp mem).1, bound, here, ?_⟩
  simp only [FlowOptimizationSolver.thetaL, stored, Option.getD_some]

/-- The destinations that the search loop has not come to. -/
def pending (s : Multi) : List String :=
  match s.phase with
  | .searching ends _ _ => ends
  | _ => []

theorem pending_next {job : Job} {s s' : Multi} {r : Draws} (move : s.next job r = some s') :
    ∀ dest ∈ pending s', dest ∈ pending s := by
  cases step_of_next move with
  | skip phase =>
    simp only [pending, phase]
    exact fun _ mem => List.mem_cons_of_mem _ mem
  | again phase | find phase =>
    simp only [pending, phase]
    exact fun _ mem => mem
  | fail | first | remove | iterate | drop | finish | stay | explore =>
    exact fun _ none => absurd none List.not_mem_nil

theorem targets_valid {job : Job} {ok : Multi → Draws → Prop} {s : Multi}
    (run : Run (Moves (Multi.next job)) ok (.init job) s) :
    ∀ dest ∈ targets job s, dest ∈ job.validEnds := by
  have left : ∀ dest ∈ pending s, dest ∈ job.validEnds := by
    apply run.invariant (P := fun s => ∀ dest ∈ pending s, dest ∈ job.validEnds)
    · exact fun s r s' h _ move dest mem => h dest (pending_next move dest mem)
    · exact fun _ mem => mem
  intro dest mem
  unfold targets at mem
  split at mem
  · rename_i phase
    split at mem
    · apply left
      simp only [pending, phase]
      rw [List.mem_singleton.mp mem]
      exact List.mem_cons_self
    · cases mem
  · exact (List.mem_filter.mp mem).1
  · cases mem

/-- In every run whose searches may take only hops that are priced as the edges, each path
returned has as its times the sum of the latencies along it, which is within the bound
computed for the destination it ends at. -/
theorem result_latency (edges : List Edge) (start : String) (ends : List String) (fuel : Nat)
    (job : Job) (prepared : prepare edges start ends fuel = some (.ok job)) (s : Multi)
    (run : Run (Moves (Multi.next job)) (fun s _ => Searches job (Priced edges) s)
      (.init job) s) : ∀ p ∈ s.result, p.rtt = p.rawRTT ∧ p.hops.IsChain (Arc edges) ∧
        p.rtt = Walk.cost (along edges.reverse Edge.latency) p.hops ∧
        ∃ dest ∈ ends, p.hops.getLast? = some dest ∧
          ∃ bound ∈ job.d.computeThetaL start dest fuel, p.rtt ≤ bound := by
  have priced := (paths_run (P := fun pi => pi.path.IsChain (Arc edges) ∧
    pi.latency = Walk.cost (along edges.reverse Edge.latency) pi.path ∧
    ∃ dest ∈ ends, pi.path.getLast? = some dest ∧
      ∃ bound ∈ job.d.computeThetaL start dest fuel, pi.latency ≤ bound) ?_ run).2
  · intro p mem
    obtain ⟨pi, best, rfl⟩ := List.mem_map.mp mem
    exact ⟨rfl, priced pi best⟩
  · intro s r pi before meets finds
    obtain ⟨taken, feasible, good⟩ := meets.taken finds
    obtain ⟨asked, bound, computed, stored⟩ :=
      prepare_thetaL prepared pi.dest (targets_valid before pi.dest finds.target)
    refine ⟨?_, ?_, pi.dest, asked, feasible.last, ?_⟩
    · exact feasible.trail.isChain fun x mem => (good x mem).1
    · exact feasible.trail.latency_eq_cost fun x mem => (good x mem).2
    · refine ⟨bound, computed, ?_⟩
      rw [← stored]
      exact feasible.bound

/-- The edges of a path are banned when it is found again, and 100 for each is returned with
the 1000 that it takes. -/
theorem result_penalty : ∃ (job : Job) (s : Multi),
    prepare [⟨"s", "a", 0, 0, 500⟩, ⟨"a", "d", 0, 0, 500⟩, ⟨"s", "b", 0, 0, 700⟩,
      ⟨"b", "d", 0, 0, 700⟩] "s" ["d"] 30 = some (.ok job) ∧
    Run (Moves (Multi.next job)) (fun _ _ => True) (.init job) s ∧
    s.phase = .done ∧ ⟨["s", "a", "d"], 1200, 1200⟩ ∈ s.result ∧
    Walk.cost (along [⟨"s", "a", 0, 0, 500⟩, ⟨"a", "d", 0, 0, 500⟩, ⟨"s", "b", 0, 0, 700⟩,
      ⟨"b", "d", 0, 0, 700⟩] Edge.latency) ["s", "a", "d"] = 1000 := by
  have reached : ∃ x ∈ trial [⟨"s", "a", 0, 0, 500⟩, ⟨"a", "d", 0, 0, 500⟩, ⟨"s", "b", 0, 0, 700⟩,
      ⟨"b", "d", 0, 0, 700⟩] "s" ["d"] 30 (fun _ _ => True)
      ([inOrder, turning 2, inOrder, inOrder, inOrder, inOrder, turning 0] ++
        List.replicate 8 inOrder),
      x.2.phase = .done ∧ ⟨["s", "a", "d"], 1200, 1200⟩ ∈ x.2.result := by
    decide +kernel
  obtain ⟨job, s, prepared, run, done, returned⟩ := exists_of_trial _ _
    (P := fun _ s => s.phase = .done ∧ ⟨["s", "a", "d"], 1200, 1200⟩ ∈ s.result) reached
  refine ⟨job, s, prepared, run, done, returned, ?_⟩
  decide +kernel

theorem result_latency_done : ∃ (job : Job) (s : Multi),
    prepare loadedWays "s" ["d"] 30 = some (.ok job) ∧
    (s.phase = .done ∧ s.result.map PathInfo.hops = [["s", "a", "d"], ["s", "b", "d"]]) ∧
    ∀ p ∈ s.result, p.rtt = p.rawRTT ∧ p.hops.IsChain (Arc loadedWays) ∧
      p.rtt = Walk.cost (along loadedWays.reverse Edge.latency) p.hops ∧
      ∃ dest ∈ ["d"], p.hops.getLast? = some dest ∧
        ∃ bound ∈ job.d.computeThetaL "s" dest 30, p.rtt ≤ bound := by
  have reached : ∃ x ∈ trial loadedWays "s" ["d"] 30
      (fun job => Searches job (Priced loadedWays)) (inOrder :: List.replicate 14 (turning 2)),
      x.2.phase = .done ∧ x.2.result.map PathInfo.hops = [["s", "a", "d"], ["s", "b", "d"]] := by
    decide +kernel
  obtain ⟨job, s, prepared, run, ends⟩ := exists_of_trial _ _ (P := fun _ s => s.phase = .done ∧
    s.result.map PathInfo.hops = [["s", "a", "d"], ["s", "b", "d"]]) reached
  exact ⟨job, s, prepared, ends, result_latency _ _ _ _ job prepared s run⟩

end SkyAccel.Routing
