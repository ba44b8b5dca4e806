import SkyAccel.Routing.Yen

/-!
# What the k-shortest solver returns

The run of the outer loop as a relation (`Rounds`), and what the solver answers
once the loop stops: every path returned is a simple path with its exact measures
(`yensAlgorithm_sound`), and as many are returned as asked for or as there are
(`computing_count`).
-/

namespace SkyAccel.Routing

open Walk (IsWalk IsPath cost)

/-- The states at the head of the outer loop in the run of a solver. -/
inductive Rounds (ks : KShortestSolver) (start dest : String) :
    List Path → KShortestSolver.Candidates → Prop
  | first {p : Path} :
      ks.findShortestPath start dest (adjacency ks.edges) (fun _ => false) (fun _ => false)
        ks.searchFuel = some (.ok p) →
      Rounds ks start dest [{ p with hops := removeConsecutiveDuplicates p.hops }]
        ⟨adjacency ks.edges, []⟩
  | next {A A' : List Path} {c c' : KShortestSolver.Candidates} :
      Rounds ks start dest A c → (A.length : Int) < ks.k →
      ks.round dest ks.searchFuel A c = some (some (A', c')) → Rounds ks start dest A' c'

section
variable {ks : KShortestSolver} {A : List Path} {c : KShortestSolver.Candidates} {p : Path}
  {start dest : String} {fuel : Nat}

/-! ## More fuel changes nothing -/

theorem spur_mono {n m : Nat} (hnm : n ≤ m) {pos : List String × Nat}
    {c' : KShortestSolver.Candidates} (h : ks.spur dest n A c pos = some c') :
    ks.spur dest m A c pos = some c' := by
  unfold KShortestSolver.spur at h ⊢
  cases hn : pos.1[pos.2]? with
  | none => simpa only [hn] using h
  | some spurNode =>
    cases hl : c.graphCopy.lookup spurNode with
    | none => simpa only [hn, hl] using h
    | some es =>
      simp only [hn, hl] at h ⊢
      by_cases h₁ : spurNode = dest
      · simpa only [if_pos h₁] using h
      · by_cases h₂ : isInPath dest (pos.1.take (pos.2 + 1)) = true
        · simpa only [if_neg h₁, if_pos h₂] using h
        · simp only [if_neg h₁, if_neg h₂] at h ⊢
          split at h
          · cases h
          · rename_i found
            rw [findShortestPath_mono hnm found]
            exact h
          · rename_i found
            rw [findShortestPath_mono hnm found]
            exact h

theorem round_mono {n m : Nat} (hnm : n ≤ m) {res : Option (List Path × KShortestSolver.Candidates)}
    (h : ks.round dest n A c = some res) : ks.round dest m A c = some res := by
  have fold : ∀ (ps : List (List String × Nat)) (c c' : KShortestSolver.Candidates),
      ps.foldlM (ks.spur dest n A) c = some c' → ps.foldlM (ks.spur dest m A) c = some c' := by
    intro ps
    induction ps with
    | nil => exact fun c c' h => h
    | cons pos ps ih =>
      intro c c' h
      rw [List.foldlM_cons] at h ⊢
      obtain ⟨d, step, rest⟩ := Option.bind_eq_some_iff.mp h
      exact Option.bind_eq_some_iff.mpr ⟨d, spur_mono hnm step, ih d c' rest⟩
  unfold KShortestSolver.round at h ⊢
  cases run : (KShortestSolver.positions A).foldlM (ks.spur dest n A) c with
  | none => rw [run] at h; cases h
  | some c' => rw [fold _ _ _ run]; rwa [run] at h

/-! ## The run of the outer loop -/

theorem searchArc_adjacency (edges : List Edge) :
    SearchArc (adjacency edges) (fun _ => false) = Arc edges := by
  funext u v
  simp only [SearchArc, Arc, outgoing_adjacency, List.mem_filter, beq_iff_eq, and_true, and_assoc]

/-- The first search either fails for want of a walk or gives an exact path. -/
theorem firstSearch_spec (proper : ks.Proper) (hstart : start ≠ "") (dest : String)
    (hf : ks.searchFuel ≤ fuel) :
    (∃ err, ks.findShortestPath start dest (adjacency ks.edges) (fun _ => false) (fun _ => false)
        fuel = some (.error err) ∧ ∀ p, ¬ IsWalk (Arc ks.edges) start dest p) ∨
    (∃ p, ks.findShortestPath start dest (adjacency ks.edges) (fun _ => false) (fun _ => false)
        fuel = some (.ok p) ∧ Exact ks start dest p) := by
  rcases findShortestPath_spec proper.sane (fun _ => false) hstart dest hf with
    ⟨err, eq, none⟩ | ⟨p, eq, path, hc, hr⟩
  · rw [searchArc_adjacency] at none
    exact .inl ⟨err, eq, none⟩
  · rw [searchArc_adjacency] at path
    exact .inr ⟨p, eq, path, hc, hr⟩

theorem Exact.clean (h : Exact ks start dest p) :
    { p with hops := removeConsecutiveDuplicates p.hops } = p := by
  rw [removeConsecutiveDuplicates_of_nodup h.path.nodup]

theorem YenInv.initial (h : Exact ks start dest p) :
    YenInv ks start dest [p] ⟨adjacency ks.edges, []⟩ where
  nonempty := List.cons_ne_nil p []
  found := fun a ha => by rw [List.mem_singleton.mp ha]; exact h
  distinct := List.nodup_singleton _
  graph := fun _ => rfl
  queue := ⟨Heap.ordered_nil _, fun _ hx => (nomatch hx), List.nodup_nil⟩

theorem Rounds.inv (proper : ks.Proper) (hstart : start ≠ "") (run : Rounds ks start dest A c) :
    YenInv ks start dest A c := by
  induction run with
  | first eq =>
    rcases firstSearch_spec proper hstart dest (le_refl _) with ⟨err, h, -⟩ | ⟨q, h, exact'⟩
    · rw [eq] at h; cases h
    · rw [eq] at h
      obtain rfl : _ = q := by simpa using h
      rw [exact'.clean]
      exact YenInv.initial exact'
  | next _ _ step ih =>
    obtain ⟨p, -, -, inv⟩ := round_some proper hstart (le_refl _) ih step
    exact inv

theorem Rounds.length_le (proper : ks.Proper) (hstart : start ≠ "") (hk : 1 ≤ ks.k)
    (run : Rounds ks start dest A c) : (A.length : Int) ≤ ks.k := by
  cases run with
  | first eq => simpa using hk
  | next run less step =>
    obtain ⟨p, rfl, -⟩ := round_some proper hstart (le_refl _) (run.inv proper hstart) step
    rw [List.length_append, List.length_singleton]
    omega

/-- From a state of the run, the loop goes on to a state of the run with enough
paths or with all there are. -/
theorem yenLoop_spec (proper : ks.Proper) (hstart : start ≠ "") (hf : ks.searchFuel ≤ fuel)
    (n : Nat) (run : Rounds ks start dest A c) (hn : ks.k < A.length + n) (hpos : 0 < n) :
    ∃ A' c', ks.yenLoop dest fuel n A c = some A' ∧ Rounds ks start dest A' c' ∧
      (ks.k ≤ A'.length ∨ AllFound ks start dest A') := by
  induction n generalizing A c with
  | zero => omega
  | succ n ih =>
    rw [KShortestSolver.yenLoop]
    by_cases less : (A.length : Int) < ks.k
    · rw [if_pos less]
      rcases round_spec proper hstart (le_refl _) (run.inv proper hstart) with
        ⟨h, all⟩ | ⟨p, c', h, -, -⟩
      · rw [round_mono hf h]
        exact ⟨A, c, rfl, run, .inr all⟩
      · rw [round_mono hf h]
        refine ih (run.next less h) ?_ ?_
        · rw [List.length_append, List.length_singleton]
          push_cast at hn ⊢
          omega
        · push_cast at hn
          omega
    · rw [if_neg less]
      exact ⟨A, c, rfl, run, .inl (by omega)⟩

theorem yensAlgorithm_spec (proper : ks.Proper) (hstart : start ≠ "") (dest : String)
    (hf : ks.searchFuel ≤ fuel) (hk : ks.k ≤ fuel) :
    (∃ err, ks.yensAlgorithm start dest (adjacency ks.edges) fuel = some (.error err) ∧
      ∀ p, ¬ IsWalk (Arc ks.edges) start dest p) ∨
    (∃ A c, ks.yensAlgorithm start dest (adjacency ks.edges) fuel =
        some (.ok (Sort.exchangeSort Path.cost A)) ∧ Rounds ks start dest A c ∧
      (ks.k ≤ A.length ∨ AllFound ks start dest A)) := by
  rcases firstSearch_spec proper hstart dest (le_refl _) with ⟨err, eq, none⟩ | ⟨p, eq, exact'⟩
  · refine .inl ⟨err, ?_, none⟩
    rw [KShortestSolver.yensAlgorithm, findShortestPath_mono hf eq]
  · have run := Rounds.first eq
    have pos : 0 < fuel := by
      have : 2 ≤ ks.searchFuel := by simp [KShortestSolver.searchFuel]
      omega
    obtain ⟨A, c, loop, run', stop⟩ := yenLoop_spec proper hstart hf fuel run
      (by rw [List.length_singleton]; omega) pos
    refine .inr ⟨A, c, ?_, run', stop⟩
    have clean : (Sort.exchangeSort Path.cost A).map
        (fun q => { q with hops := removeConsecutiveDuplicates q.hops }) =
        Sort.exchangeSort Path.cost A := by
      refine (List.map_congr_left fun q hq => ?_).trans (List.map_id _)
      have mem := (Sort.exchangeSort_perm Path.cost A).mem_iff.mp hq
      exact ((run'.inv proper hstart).found q mem).clean
    simp only [KShortestSolver.yensAlgorithm, findShortestPath_mono hf eq, loop, clean]

end

/-! ## The answers of a solver built from an edge list -/

/-- Fuel for all loops of a solver that looks for `k` paths. -/
def enoughFuel (edges : List Edge) (k : Int) : Nat := edges.length + 2 + k.toNat

section
variable {edges : List Edge} {useLatency : Bool} {start dest : String} {k : Int} {fuel : Nat}

theorem newKShortestSolverWithLatency_proper (wf : WellFormed edges) (k : Int)
    (useLatency : Bool) : (newKShortestSolverWithLatency edges k useLatency).Proper :=
  ⟨wf, rfl⟩

theorem newKShortestSolverWithLatency_k (hk : 1 ≤ k) :
    (newKShortestSolverWithLatency edges k useLatency).k = k :=
  if_neg (by omega)

theorem enoughFuel_spec (hk : 1 ≤ k) (hf : enoughFuel edges k ≤ fuel) :
    (newKShortestSolverWithLatency edges k useLatency).searchFuel ≤ fuel ∧
      (newKShortestSolverWithLatency edges k useLatency).k ≤ fuel := by
  rw [newKShortestSolverWithLatency_k hk]
  simp only [KShortestSolver.searchFuel, newKShortestSolverWithLatency, enoughFuel] at hf ⊢
  constructor <;> omega

/-- What a list of paths returned must be. -/
structure SoundPaths (edges : List Edge) (useLatency : Bool) (start dest : String) (k : Int)
    (paths : List Path) : Prop where
  simple : ∀ p ∈ paths, IsPath (Arc edges) start dest p.hops
  distinct : (paths.map Path.hops).Nodup
  count : (paths.length : Int) ≤ k
  sorted : paths.Pairwise fun p q => p.cost ≤ q.cost
  cost : ∀ p ∈ paths, p.cost = cost (along edges (metric useLatency)) p.hops
  rawRTT : ∀ p ∈ paths, p.rawRTT = (Walk.cost (along edges Edge.latency) p.hops : ℚ)

/-- Yen's algorithm returns, and every list of paths it returns is sound. -/
theorem yensAlgorithm_sound (wf : WellFormed edges) (useLatency : Bool) (hstart : start ≠ "")
    (dest : String) (hk : 1 ≤ k) (hf : enoughFuel edges k ≤ fuel) :
    ∃ res, (newKShortestSolverWithLatency edges k useLatency).yensAlgorithm start dest
        (adjacency edges) fuel = some res ∧
      ∀ paths, res = .ok paths → SoundPaths edges useLatency start dest k paths := by
  have proper := newKShortestSolverWithLatency_proper wf k useLatency
  have hk' : (newKShortestSolverWithLatency edges k useLatency).k = k :=
    newKShortestSolverWithLatency_k hk
  obtain ⟨hf₁, hf₂⟩ := enoughFuel_spec hk hf
  rcases yensAlgorithm_spec proper hstart dest hf₁ hf₂ with ⟨err, eq, -⟩ | ⟨A, c, eq, run, -⟩
  · exact ⟨_, eq, fun paths h => nomatch h⟩
  · refine ⟨_, eq, fun paths h => ?_⟩
    obtain rfl := Except.ok.inj h
    have inv := run.inv proper hstart
    have perm := Sort.exchangeSort_perm Path.cost A
    have found : ∀ p ∈ Sort.exchangeSort Path.cost A, Exact _ start dest p :=
      fun p hp => inv.found p (perm.mem_iff.mp hp)
    refine ⟨fun p hp => (found p hp).path, ?_, ?_, Sort.exchangeSort_sorted _ _, ?_, ?_⟩
    · exact (perm.map Path.hops).nodup_iff.mpr inv.distinct
    · have := run.length_le proper hstart (hk'.symm ▸ hk)
      rw [perm.length_eq, ← hk']
      exact this
    · intro p hp
      have := (found p hp).cost
      rwa [proper.weight_eq] at this
    · exact fun p hp => (found p hp).rawRTT

/-- Two ways from `A` to `C`, of which the one with a single edge is the dearer. -/
def triangle : List Edge :=
  [⟨"A", "B", 1, 0, 0⟩, ⟨"B", "C", 1, 0, 0⟩, ⟨"A", "C", 5, 0, 0⟩]

theorem triangle_wellFormed : WellFormed triangle where
  one := by unfold OnePerPair; decide +kernel
  nonneg := by decide +kernel
  named := by unfold Named; decide +kernel

theorem yensAlgorithm_sound_triangle :
    ∃ res, (newKShortestSolverWithLatency triangle 2 false).yensAlgorithm "A" "C"
        (adjacency triangle) 7 = some res ∧
      ∀ paths, res = .ok paths → SoundPaths triangle false "A" "C" 2 paths :=
  yensAlgorithm_sound triangle_wellFormed false (by decide) "C" (by decide) (by decide)

/-! ## How many paths are returned -/

theorem finite_simplePaths (edges : List Edge) (start dest : String) :
    {p | IsPath (Arc edges) start dest p}.Finite := by
  refine Walk.finite_paths (edges.map Edge.destinationIp).finite_toSet ?_ start dest
  rintro a b ⟨e, he, -, rfl⟩
  exact List.mem_map_of_mem he

theorem isNode_named (wf : WellFormed edges) {v : String} (h : isNode edges v = true) :
    v ≠ "" := by
  obtain ⟨e, he, hv⟩ := List.any_eq_true.mp h
  rw [Bool.or_eq_true, beq_iff_eq, beq_iff_eq] at hv
  obtain rfl | rfl := hv
  · exact (wf.named e he).1.1
  · exact (wf.named e he).2.1

/-- Distinct simple paths are at most all of them, and all when none is missing. -/
theorem length_le_ncard {ks : KShortestSolver} {A : List Path} {c : KShortestSolver.Candidates}
    (inv : YenInv ks start dest A c) :
    A.length ≤ {p | IsPath (Arc ks.edges) start dest p}.ncard ∧
      (AllFound ks start dest A → A.length = {p | IsPath (Arc ks.edges) start dest p}.ncard) := by
  classical
  have card : (hopLists A).toFinset.card = A.length := by
    rw [List.toFinset_card_of_nodup inv.distinct, hopLists, List.length_map]
  have finite := finite_simplePaths ks.edges start dest
  have sub : (↑(hopLists A).toFinset : Set (List String)) ⊆
      {p | IsPath (Arc ks.edges) start dest p} := by
    intro p hp
    obtain ⟨a, ha, rfl⟩ := mem_hopLists.mp (List.mem_toFinset.mp (Finset.mem_coe.mp hp))
    exact (inv.found a ha).path
  rw [← card, ← Set.ncard_coe_finset]
  refine ⟨Set.ncard_le_ncard sub finite, fun all => ?_⟩
  have same : (↑(hopLists A).toFinset : Set (List String)) =
      {p | IsPath (Arc ks.edges) start dest p} :=
    Set.Subset.antisymm sub fun p hp => Finset.mem_coe.mpr (List.mem_toFinset.mpr (all p hp))
  rw [same]

/-- What `computing` answers for nodes of the graph, by way of the run. -/
theorem computing_spec (wf : WellFormed edges) (useLatency : Bool)
    (hs : isNode edges start = true) (hd : isNode edges dest = true) (hk : 1 ≤ k)
    (hf : enoughFuel edges k ≤ fuel) :
    (∃ err, (newKShortestSolverWithLatency edges k useLatency).computing start dest fuel =
        some (.error err) ∧ ∀ p, ¬ IsWalk (Arc edges) start dest p) ∨
    (∃ A c, (newKShortestSolverWithLatency edges k useLatency).computing start dest fuel =
        some (.ok ((Sort.exchangeSort Path.cost A).map fun p => ⟨p.hops, p.cost, 0⟩)) ∧
      Rounds (newKShortestSolverWithLatency edges k useLatency) start dest A c ∧
      (k ≤ A.length ∨ AllFound (newKShortestSolverWithLatency edges k useLatency) start dest A)) := by
  have proper := newKShortestSolverWithLatency_proper wf k useLatency
  obtain ⟨hf₁, hf₂⟩ := enoughFuel_spec hk hf
  have hs' : ¬ isNode (newKShortestSolverWithLatency edges k useLatency).edges start = false :=
    ne_false_of_eq_true hs
  have hd' : ¬ isNode (newKShortestSolverWithLatency edges k useLatency).edges dest = false :=
    ne_false_of_eq_true hd
  rcases yensAlgorithm_spec proper (isNode_named wf hs) dest hf₁ hf₂ with
    ⟨err, eq, none⟩ | ⟨A, c, eq, run, stop⟩
  · refine .inl ⟨err, ?_, none⟩
    simp only [KShortestSolver.computing, if_neg hs', if_neg hd', eq]
  · refine .inr ⟨A, c, ?_, run, newKShortestSolverWithLatency_k hk ▸ stop⟩
    simp only [KShortestSolver.computing, if_neg hs', if_neg hd', eq]

/-- For nodes of the graph, an error means that no walk leads from one to the
other; otherwise the answer holds `k` paths, or all simple paths if they are fewer. -/
theorem computing_count (wf : WellFormed edges) (useLatency : Bool)
    (hs : isNode edges start = true) (hd : isNode edges dest = true) (hk : 1 ≤ k)
    (hf : enoughFuel edges k ≤ fuel) :
    ((∃ err, (newKShortestSolverWithLatency edges k useLatency).computing start dest fuel =
        some (.error err)) ↔ ¬ ∃ p, IsWalk (Arc edges) start dest p) ∧
    ((∃ p, IsWalk (Arc edges) start dest p) →
      ∃ infos, (newKShortestSolverWithLatency edges k useLatency).computing start dest fuel =
          some (.ok infos) ∧
        (infos.length : Int) = min k {p | IsPath (Arc edges) start dest p}.ncard) := by
  have proper := newKShortestSolverWithLatency_proper wf k useLatency
  have hstart := isNode_named wf hs
  rcases computing_spec wf useLatency hs hd hk hf with ⟨err, eq, none⟩ | ⟨A, c, eq, run, stop⟩
  · refine ⟨⟨fun _ ⟨p, hp⟩ => none p hp, fun _ => ⟨err, eq⟩⟩, fun ⟨p, hp⟩ => absurd hp (none p)⟩
  · have inv := run.inv proper hstart
    have walk : ∃ p, IsWalk (Arc edges) start dest p := by
      obtain ⟨a, ha⟩ := List.exists_mem_of_ne_nil A inv.nonempty
      exact ⟨a.hops, (inv.found a ha).path.toIsWalk⟩
    refine ⟨⟨fun ⟨err, h⟩ => ?_, fun h => absurd walk h⟩, fun _ => ⟨_, eq, ?_⟩⟩
    · rw [eq] at h; cases h
    · rw [List.length_map, (Sort.exchangeSort_perm Path.cost A).length_eq]
      have most := run.length_le proper hstart (by rw [newKShortestSolverWithLatency_k hk]; exact hk)
      rw [newKShortestSolverWithLatency_k hk] at most
      obtain ⟨le, all⟩ := length_le_ncard inv
      rcases stop with enough | complete
      · rw [min_eq_left]
        · omega
        · exact enough.trans (by exact_mod_cast le)
      · have := all complete
        rw [min_eq_right]
        · exact_mod_cast this
        · exact_mod_cast this ▸ most

theorem computing_count_triangle :
    ((∃ err, (newKShortestSolverWithLatency triangle 5 false).computing "A" "C" 10 =
        some (.error err)) ↔ ¬ ∃ p, IsWalk (Arc triangle) "A" "C" p) ∧
    ((∃ p, IsWalk (Arc triangle) "A" "C" p) →
      ∃ infos, (newKShortestSolverWithLatency triangle 5 false).computing "A" "C" 10 =
          some (.ok infos) ∧
        (infos.length : Int) = min (5 : Int) {p | IsPath (Arc triangle) "A" "C" p}.ncard) :=
  computing_count triangle_wellFormed false (by decide) (by decide) (by decide) (by decide)

end

end SkyAccel.Routing
