import SkyAccel.Routing.Carousel

/-!
# What the depth-first search finds

`getSortedEdges` offers hops: forward ones over edges with room, and backward ones over
edges with flow. A `Trail` is a way over hops offered that repeats no node and never
exceeds the latency bound. Every path that the search finds is a trail to its target,
with the price of its hops as latency (`findFeasiblePathWithLatency_feasible`). There are
finitely many, which can be listed (`feasible_iff`).
-/

namespace SkyAccel.Routing

open Strings (join)

namespace FlowOptimizationSolver
variable (d : FlowOptimizationSolver)

/-- The hops that the loops of `getSortedEdges` collect. -/
def offers (g : ResidualGraph) (u : String) : List EdgeInfo :=
  d.forwardEdges g u ++ d.backwardEdges g u

theorem mem_getSortedEdges {c : Choices} {n : Nat} {g : ResidualGraph} {u : String}
    {ei : EdgeInfo} : ei ∈ d.getSortedEdges c n g u ↔ ei ∈ d.offers g u := by
  have order := (Sort.exchangeSort_perm EdgeInfo.cost
    (shuffle c n (d.forwardEdges g u) ++ shuffle c (n + 1) (d.backwardEdges g u))).trans
      ((shuffle_perm c n _).append (shuffle_perm c (n + 1) _))
  exact order.mem_iff

/-- A backward hop goes against an entry of the graph whose flow can be taken back. -/
theorem exists_of_mem_backwardEdges {g : ResidualGraph} {u : String} {ei : EdgeInfo}
    (mem : ei ∈ d.backwardEdges g u) :
    ∃ v, ∃ revEf ∈ g.find? (·.joins v u), 0 < revEf.getReverseResidual ∧
      ei = ⟨v, if revEf.banned then 100 else 0, true⟩ := by
  obtain ⟨v, -, some⟩ := List.mem_filterMap.mp mem
  split at some
  · cases some
  · split at some
    · cases some
    · rename_i revEf entry
      split at some
      · rename_i room
        exact ⟨v, revEf, entry, room, (Option.some.inj some).symm⟩
      · cases some

end FlowOptimizationSolver

/-- Hops offered, each with the node it leaves, the nodes they lead through and their
price so far. -/
inductive Trail (d : FlowOptimizationSolver) (g : ResidualGraph) (thetaL : ℚ) (s : String) :
    List (String × EdgeInfo) → List String → ℚ → Prop
  | start : Trail d g thetaL s [] [s] 0
  | step {taken : List (String × EdgeInfo)} {path : List String} {latency : ℚ} {u : String}
      {ei : EdgeInfo} : Trail d g thetaL s taken (path ++ [u]) latency → ei ∈ d.offers g u →
      ei.dst ∉ path ++ [u] → latency + ei.cost ≤ thetaL →
      Trail d g thetaL s (taken ++ [(u, ei)]) (path ++ [u] ++ [ei.dst]) (latency + ei.cost)

/-- A trail to `t` within the bound and of at most `maxHops` nodes. -/
structure Feasible (d : FlowOptimizationSolver) (g : ResidualGraph) (s t : String)
    (taken : List (String × EdgeInfo)) (path : List String) (latency : ℚ) : Prop where
  trail : Trail d g (d.thetaL t) s taken path latency
  last : path.getLast? = some t
  bound : latency ≤ d.thetaL t
  size : path.length ≤ maxHops

section
variable {d : FlowOptimizationSolver} {g : ResidualGraph} {thetaL latency : ℚ} {s t : String}
  {taken : List (String × EdgeInfo)} {path : List String}

theorem Trail.nodup (h : Trail d g thetaL s taken path latency) : path.Nodup := by
  induction h with
  | start => exact List.nodup_singleton _
  | step _ _ new _ ih => exact ih.append (List.nodup_singleton _) (by simpa using new)

theorem hops_snoc (path : List String) (u v : String) :
    hops (path ++ [u] ++ [v]) = hops (path ++ [u]) ++ [(u, v)] := by
  induction path with
  | nil => rfl
  | cons a path ih =>
    cases path with
    | nil => rfl
    | cons b path => exact congrArg ((a, b) :: ·) ih

theorem Trail.hops_eq (h : Trail d g thetaL s taken path latency) :
    hops path = taken.map fun x => (x.1, x.2.dst) := by
  induction h with
  | start => rfl
  | step _ _ _ _ ih => rw [hops_snoc, ih, List.map_append, List.map_singleton]

theorem Trail.offered (h : Trail d g thetaL s taken path latency) :
    ∀ x ∈ taken, x.2 ∈ d.offers g x.1 := by
  induction h with
  | start => exact fun _ none => absurd none List.not_mem_nil
  | step _ offer _ _ ih =>
    intro x mem
    obtain old | rfl := by simpa using mem
    · exact ih x old
    · exact offer

/-! ## The search -/

/-- What the search has found so far, if anything, meets `P`. -/
def FlowOptimizationSolver.Found.Meets (st : FlowOptimizationSolver.Found)
    (P : List String → ℚ → Prop) : Prop :=
  ∀ path ∈ st.bestPath, P path st.bestLatency

open FlowOptimizationSolver (Found)

/-- A hop is skipped, or it is new and within the bound and the search goes on from it. -/
theorem tryHop_cases {optimize : Bool} {visited : List String}
    {deeper : String → ℚ → Found → Bool × Found} {found : Bool × Found} {ei : EdgeInfo} :
    FlowOptimizationSolver.tryHop thetaL optimize latency visited deeper found ei = found ∨
      ei.dst ∉ visited ∧ latency + ei.cost ≤ thetaL ∧
        (FlowOptimizationSolver.tryHop thetaL optimize latency visited deeper found ei).2 =
          (deeper ei.dst (latency + ei.cost) found.2).2 := by
  unfold FlowOptimizationSolver.tryHop
  split
  · exact .inl rfl
  · split
    · exact .inl rfl
    · rename_i new
      split
      · exact .inl rfl
      · split
        · exact .inl rfl
        · rename_i within
          exact .inr ⟨new, not_lt.mp within, rfl⟩

/-- If `P` holds of every trail to the target, the search keeps what it has found so. -/
theorem dfs_meets {P : List String → ℚ → Prop} {c : Choices} {usedPaths : List String}
    {optimize randomize : Bool}
    (good : ∀ taken path latency, Trail d g thetaL s taken path latency →
      path.getLast? = some t → latency ≤ thetaL → path.length ≤ maxHops → P path latency)
    {room : Nat} {u : String} {st : Found} (trail : Trail d g thetaL s taken (path ++ [u]) latency)
    (size : path.length + room = maxHops) (before : st.Meets P) :
    (d.dfs c g t thetaL usedPaths optimize randomize room u latency path st).2.Meets P := by
  induction room generalizing u latency path taken st with
  | zero => exact before
  | succ room ih =>
    have here : u = t → latency ≤ thetaL → P (path ++ [u]) latency := by
      intro arrived bound
      apply good taken _ _ trail _ bound
      · rw [List.length_append, List.length_singleton]
        omega
      · rw [List.getLast?_append, arrived]
        rfl
    have arrival : u = t → latency ≤ thetaL →
        Found.Meets { st with bestPath := some (path ++ [u]), bestLatency := latency } P := by
      rintro arrived bound _ ⟨⟩
      exact here arrived bound
    rw [FlowOptimizationSolver.dfs]
    split
    · rename_i arrived
      split
      · rename_i bound
        split
        · split
          · exact arrival arrived bound
          · exact before
        · exact arrival arrived bound
      · exact before
    · have offered : ∀ ei ∈ (if randomize then shuffle c (st.draws + 2)
          (d.getSortedEdges c st.draws g u) else d.getSortedEdges c st.draws g u),
          ei ∈ d.offers g u := by
        intro ei mem
        split at mem
        · exact d.mem_getSortedEdges.mp ((shuffle_perm c _ _).mem_iff.mp mem)
        · exact d.mem_getSortedEdges.mp mem
      refine List.foldlRecOn (motive := fun found : Bool × Found => found.2.Meets P) _ _ before ?_
      intro found kept ei mem
      obtain skipped | ⟨new, within, same⟩ := tryHop_cases
      · rw [skipped]
        exact kept
      · rw [same]
        apply ih (trail.step (offered ei mem) new within) _ kept
        rw [List.length_append, List.length_singleton]
        omega

theorem dfsPathSearch_trail {c : Choices} {usedPaths : List String} {optimize randomize : Bool}
    (h : d.dfsPathSearch c g s t thetaL usedPaths optimize randomize = some (path, latency)) :
    ∃ taken, Trail d g thetaL s taken path latency ∧ path.getLast? = some t ∧ latency ≤ thetaL ∧
      path.length ≤ maxHops := by
  unfold FlowOptimizationSolver.dfsPathSearch at h
  obtain ⟨best, found, same⟩ := Option.map_eq_some_iff.mp h
  obtain ⟨rfl, rfl⟩ := Prod.mk.inj same
  apply dfs_meets (P := fun path latency => ∃ taken, Trail d g thetaL s taken path latency ∧
    path.getLast? = some t ∧ latency ≤ thetaL ∧ path.length ≤ maxHops) _ .start rfl _ best found
  · exact fun taken path latency trail last bound size => ⟨taken, trail, last, bound, size⟩
  · exact fun path none => absurd none (Option.not_mem_none path)

theorem findFeasiblePathWithLatency_feasible {c : Choices} {usedPaths : List String}
    {attempt : Nat} {pi : PathWithInfo}
    (h : d.findFeasiblePathWithLatency c g s t usedPaths attempt = some pi) :
    pi.dest = t ∧ pi.pathStr = join pi.path "|" ∧
      ∃ taken, Feasible d g s t taken pi.path pi.latency := by
  unfold FlowOptimizationSolver.findFeasiblePathWithLatency at h
  split at h
  · obtain ⟨⟨path, latency⟩, found, rfl⟩ := Option.map_eq_some_iff.mp h
    have search : ∃ optimize randomize,
        d.dfsPathSearch c g s t (d.thetaL t) usedPaths optimize randomize =
          some (path, latency) := by
      split at found
      · exact ⟨true, false, found⟩
      · exact ⟨false, true, found⟩
    obtain ⟨optimize, randomize, result⟩ := search
    obtain ⟨taken, trail, last, bound, size⟩ := dfsPathSearch_trail result
    exact ⟨rfl, rfl, taken, trail, last, bound, size⟩
  · cases h

end

/-! ## All trails -/

/-- A trail as data: the hops taken, the nodes before the last one, the last one and the
price. -/
structure Trek where
  taken : List (String × EdgeInfo)
  path : List String
  last : String
  latency : ℚ

def Trek.nodes (x : Trek) : List String := x.path ++ [x.last]

namespace FlowOptimizationSolver
variable (d : FlowOptimizationSolver) (g : ResidualGraph) (thetaL : ℚ)

/-- The trails that go one hop further. -/
def further (x : Trek) : List Trek :=
  ((d.offers g x.last).filter fun ei => ei.dst ∉ x.nodes ∧ x.latency + ei.cost ≤ thetaL).map
    fun ei => ⟨x.taken ++ [(x.last, ei)], x.nodes, ei.dst, x.latency + ei.cost⟩

/-- The trails that are given, and those that go up to `room - 1` hops further. -/
def trails : Nat → List Trek → List Trek
  | 0, _ => []
  | room + 1, layer => layer ++ trails room (layer.flatMap (d.further g thetaL))

/-- The trails that a search from `s` to `t` may find. -/
def feasibles (s t : String) : List Trek :=
  (d.trails g (d.thetaL t) maxHops [⟨[], [], s, 0⟩]).filter fun x =>
    x.last = t ∧ x.latency ≤ d.thetaL t ∧ x.nodes.length ≤ maxHops

end FlowOptimizationSolver

section
variable {d : FlowOptimizationSolver} {g : ResidualGraph} {thetaL latency : ℚ} {s t : String}
  {taken : List (String × EdgeInfo)} {path : List String}

theorem trail_of_mem {room : Nat} {layer : List Trek} {x : Trek}
    (good : ∀ x ∈ layer, Trail d g thetaL s x.taken x.nodes x.latency)
    (mem : x ∈ d.trails g thetaL room layer) : Trail d g thetaL s x.taken x.nodes x.latency := by
  induction room generalizing layer with
  | zero => cases mem
  | succ room ih =>
    obtain here | deeper := List.mem_append.mp mem
    · exact good x here
    · apply ih _ deeper
      intro y there
      obtain ⟨z, listed, more⟩ := List.mem_flatMap.mp there
      obtain ⟨ei, meets, rfl⟩ := List.mem_map.mp more
      simp only [List.mem_filter, decide_eq_true_eq] at meets
      exact (good z listed).step meets.1 meets.2.1 meets.2.2

theorem mem_trails_further {room : Nat} {layer : List Trek} {x y : Trek}
    (mem : x ∈ d.trails g thetaL room layer) (more : y ∈ d.further g thetaL x) :
    y ∈ d.trails g thetaL (room + 1) layer := by
  induction room generalizing layer with
  | zero => cases mem
  | succ room ih =>
    apply List.mem_append_right
    obtain here | deeper := List.mem_append.mp mem
    · exact List.mem_append_left _ (List.mem_flatMap.mpr ⟨x, here, more⟩)
    · exact ih deeper

theorem trails_subset {room room' : Nat} (le : room ≤ room') (layer : List Trek) :
    d.trails g thetaL room layer ⊆ d.trails g thetaL room' layer := by
  induction room generalizing room' layer with
  | zero => exact List.nil_subset _
  | succ room ih =>
    cases room' with
    | zero => exact absurd le (Nat.not_succ_le_zero _)
    | succ room' =>
      have rest := ih (Nat.le_of_succ_le_succ le) (layer.flatMap (d.further g thetaL))
      exact List.append_subset.mpr ⟨List.subset_append_left _ _,
        fun _ mem => List.mem_append_right _ (rest mem)⟩

theorem Trail.mem_trails (h : Trail d g thetaL s taken path latency) :
    ∃ x ∈ d.trails g thetaL path.length [⟨[], [], s, 0⟩],
      x.taken = taken ∧ x.nodes = path ∧ x.latency = latency := by
  induction h with
  | start => exact ⟨_, List.mem_cons_self, rfl, rfl, rfl⟩
  | @step taken path latency u ei _ offer new within ih =>
    obtain ⟨x, listed, rfl, nodes, rfl⟩ := ih
    obtain ⟨before, last⟩ := List.append_inj' nodes rfl
    obtain rfl : x.last = u := by simpa using last
    refine ⟨⟨x.taken ++ [(x.last, ei)], x.nodes, ei.dst, x.latency + ei.cost⟩, ?_, rfl, ?_, rfl⟩
    · rw [List.length_append, List.length_singleton]
      apply mem_trails_further listed
      refine List.mem_map.mpr ⟨ei, ?_, rfl⟩
      rw [← nodes] at new
      simpa using ⟨offer, new, within⟩
    · rw [← nodes]
      rfl

theorem feasible_iff : Feasible d g s t taken path latency ↔
    ∃ x ∈ d.feasibles g s t, x.taken = taken ∧ x.nodes = path ∧ x.latency = latency := by
  constructor
  · rintro ⟨trail, last, bound, size⟩
    obtain ⟨x, listed, rfl, rfl, rfl⟩ := trail.mem_trails
    obtain rfl : x.last = t := by simpa [Trek.nodes] using last
    refine ⟨x, ?_, rfl, rfl, rfl⟩
    simpa [FlowOptimizationSolver.feasibles, bound, size] using trails_subset size _ listed
  · rintro ⟨x, listed, rfl, rfl, rfl⟩
    simp only [FlowOptimizationSolver.feasibles, List.mem_filter, decide_eq_true_eq] at listed
    obtain ⟨listed, rfl, bound, size⟩ := listed
    have trail := trail_of_mem (s := s) (by simpa [Trek.nodes] using Trail.start) listed
    exact ⟨trail, by simp [Trek.nodes], bound, size⟩

end

end SkyAccel.Routing
