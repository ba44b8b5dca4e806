import SkyAccel.Routing.Computing

/-!
# The live-style solver

`core-domain/livenet.go`: of the paths that Yen's algorithm finds, those with at most ten
edges are sorted by their latency, and the first `k` are taken. Whatever the graph and its
names, the paths found are distinct (`yensAlgorithm_listing`), so an answer holds the fastest
of them (`fastest_selected`). The answer comes, with enough fuel, if the names of the nodes
can be told apart in a joined path.
-/

namespace SkyAccel.Routing

open Strings (join split)
open Walk (IsWalk)

structure LiveStyleSolver where
  edges : List Edge
  k : Int

def newLiveStyleSolver (edges : List Edge) (k : Int) : LiveStyleSolver :=
  ⟨edges, if k ≤ 0 then 2 else k⟩

/-- `routing.PathInfo`, with a `RawRTT` that may be infinite. -/
structure LiveInfo where
  hops : List String
  rtt : ℚ
  rawRTT : WithTop ℚ
  deriving DecidableEq

def Path.live (path : Path) : LiveInfo := ⟨path.hops, path.cost, path.rawRTT⟩

/-- The paths with at most ten edges. -/
def validPaths (paths : List Path) : List Path :=
  paths.filter fun path => decide ((path.hops.length : Int) - 1 ≤ 10)

namespace LiveStyleSolver

def selectTopPaths (paths : List Path) (count : Int) : List Path :=
  let validPaths := Sort.exchangeSort Path.rawRTT (validPaths paths)
  if count < validPaths.length then validPaths.take count.toNat else validPaths

def computing (ls : LiveStyleSolver) (start dest : String) (fuel : Nat) :
    Option (Except String (List LiveInfo)) :=
  if isNode ls.edges start = false then some (.error ("start node " ++ start ++ " not found"))
  else if isNode ls.edges dest = false then some (.error ("end node " ++ dest ++ " not found"))
  else
    match (newKShortestSolver ls.edges 5).yensAlgorithm start dest (adjacency ls.edges) fuel with
    | none => none
    | some (.error err) => some (.error err)
    | some (.ok paths) => some (.ok ((selectTopPaths paths ls.k).map Path.live))

end LiveStyleSolver

/-! ## The paths of Yen's algorithm, in any graph -/

theorem changesAfter_changesAfter (last : String) (hops : List String) :
    changesAfter last (changesAfter last hops) = changesAfter last hops := by
  induction hops generalizing last with
  | nil => rfl
  | cons hop hops ih =>
    by_cases same : hop = last
    · simp [changesAfter, same, ih]
    · simp [changesAfter, same, ih]

theorem removeConsecutiveDuplicates_idem (hops : List String) :
    removeConsecutiveDuplicates (removeConsecutiveDuplicates hops) =
      removeConsecutiveDuplicates hops := by
  cases hops with
  | nil => rfl
  | cons hop hops => simp [removeConsecutiveDuplicates, changesAfter_changesAfter]

/-- The result list of Yen's algorithm, as far as its own tests assure it. -/
structure Listing (k : Int) (A : List Path) : Prop where
  distinct : (A.map fun p => join p.hops "->").Nodup
  clean : ∀ p ∈ A, removeConsecutiveDuplicates p.hops = p.hops
  count : (A.length : Int) ≤ k

section
variable {ks : KShortestSolver} {A A' : List Path} {c c' : KShortestSolver.Candidates}
  {start dest : String} {fuel : Nat}

theorem isPathInList_iff (p : Path) (A : List Path) :
    isPathInList p A = true ↔ join p.hops "->" ∈ A.map fun q => join q.hops "->" := by
  simp only [isPathInList, List.any_eq_true, beq_iff_eq, List.mem_map]

/-- A round adds a path that is not there, or none. -/
theorem Listing.round (h : Listing ks.k A) (less : (A.length : Int) < ks.k)
    (step : ks.round dest fuel A c = some (some (A', c'))) : Listing ks.k A' := by
  unfold KShortestSolver.round at step
  split at step
  · cases step
  · split at step
    · cases step
    · rename_i shortest B popped
      simp only [Option.some.injEq, Prod.mk.injEq] at step
      obtain ⟨rfl, -⟩ := step
      split
      · exact h
      · rename_i new
        rw [isPathInList_iff] at new
        constructor
        case distinct =>
          rw [List.map_append, List.nodup_append]
          refine ⟨h.distinct, List.nodup_singleton _, ?_⟩
          intro name mem name' mem' same
          simp only [List.map_cons, List.map_nil, List.mem_singleton] at mem'
          exact new (mem' ▸ same ▸ mem)
        case clean =>
          intro p mem
          obtain old | rfl := by simpa using mem
          · exact h.clean p old
          · exact removeConsecutiveDuplicates_idem _
        case count =>
          rw [List.length_append, List.length_singleton]
          push_cast
          omega

theorem Listing.loop (h : Listing ks.k A) {n : Nat}
    (ran : ks.yenLoop dest fuel n A c = some A') : Listing ks.k A' := by
  induction n generalizing A c with
  | zero => cases ran
  | succ n ih =>
    rw [KShortestSolver.yenLoop] at ran
    split at ran
    · rename_i less
      split at ran
      · cases ran
      · obtain rfl := Option.some.inj ran
        exact h
      · rename_i A₁ c₁ step
        exact ih (h.round less step) ran
    · obtain rfl := Option.some.inj ran
      exact h

theorem yensAlgorithm_listing (hk : 1 ≤ ks.k) {g : Adjacency} {paths : List Path}
    (h : ks.yensAlgorithm start dest g fuel = some (.ok paths)) : Listing ks.k paths := by
  unfold KShortestSolver.yensAlgorithm at h
  split at h
  · cases h
  · cases h
  · rename_i firstPath found
    dsimp only at h
    split at h
    · cases h
    · rename_i A ran
      obtain rfl := Except.ok.inj (Option.some.inj h)
      have first : Listing ks.k
          [{ firstPath with hops := removeConsecutiveDuplicates firstPath.hops }] :=
        ⟨List.nodup_singleton _, by simp [removeConsecutiveDuplicates_idem], by simpa using hk⟩
      have listing := first.loop ran
      have perm := Sort.exchangeSort_perm Path.cost A
      -- the last pass over the hops finds nothing to remove
      have same : (Sort.exchangeSort Path.cost A).map
          (fun p => { p with hops := removeConsecutiveDuplicates p.hops }) =
            Sort.exchangeSort Path.cost A := by
        refine (List.map_congr_left fun p mem => ?_).trans (List.map_id _)
        rw [listing.clean p (perm.mem_iff.mp mem)]
        rfl
      rw [same]
      refine ⟨(perm.map _).nodup_iff.mpr listing.distinct, ?_, ?_⟩
      · exact fun p mem => listing.clean p (perm.mem_iff.mp mem)
      · rw [perm.length_eq]
        exact listing.count

theorem Listing.hops_nodup {k : Int} (h : Listing k A) : (A.map Path.hops).Nodup := by
  have names := h.distinct
  have named : (A.map fun p => join p.hops "->") =
      (A.map Path.hops).map fun hops => join hops "->" := by
    simp
  rw [named] at names
  exact names.of_map _

end

/-! ## The selection -/

/-- The fastest `k` of the paths with at most ten edges. -/
structure FastestOf (k : Int) (paths : List Path) (infos : List LiveInfo) : Prop where
  sorted : infos.Pairwise fun i j => i.rawRTT ≤ j.rawRTT
  distinct : (infos.map LiveInfo.hops).Nodup
  taken : ∀ i ∈ infos, ∃ p ∈ paths, (p.hops.length : Int) - 1 ≤ 10 ∧ i = p.live
  count : (infos.length : Int) = min k (validPaths paths).length
  left : ∀ p ∈ validPaths paths, p.live ∉ infos → ∀ i ∈ infos, i.rawRTT ≤ p.live.rawRTT

/-- What is selected are the first of the sorted paths. -/
theorem selectTopPaths_eq {count : Int} (nonneg : 0 ≤ count) (paths : List Path) :
    LiveStyleSolver.selectTopPaths paths count =
      (Sort.exchangeSort Path.rawRTT (validPaths paths)).take count.toNat := by
  unfold LiveStyleSolver.selectTopPaths
  dsimp only
  split
  · rfl
  · rw [List.take_of_length_le]
    omega

theorem fastestOf_selectTopPaths {k count : Int} (nonneg : 0 ≤ count) {paths : List Path}
    (listing : Listing k paths) :
    FastestOf count paths ((LiveStyleSolver.selectTopPaths paths count).map Path.live) := by
  have perm := Sort.exchangeSort_perm Path.rawRTT (validPaths paths)
  have sorted := Sort.exchangeSort_sorted Path.rawRTT (validPaths paths)
  rw [selectTopPaths_eq nonneg]
  generalize Sort.exchangeSort Path.rawRTT (validPaths paths) = l at perm sorted ⊢
  have first := List.take_sublist count.toNat l
  constructor
  case sorted =>
    rw [List.pairwise_map]
    exact sorted.sublist first
  case distinct =>
    have valid : ((validPaths paths).map Path.hops).Nodup :=
      listing.hops_nodup.sublist (List.filter_sublist.map Path.hops)
    rw [List.map_map]
    exact ((perm.map Path.hops).nodup_iff.mpr valid).sublist (first.map Path.hops)
  case taken =>
    intro i mem
    obtain ⟨p, inside, rfl⟩ := List.mem_map.mp mem
    have valid := List.mem_filter.mp (perm.mem_iff.mp (first.subset inside))
    exact ⟨p, valid.1, of_decide_eq_true valid.2, rfl⟩
  case count =>
    rw [List.length_map, List.length_take, perm.length_eq]
    omega
  case left =>
    intro p mem out i inside
    obtain ⟨q, selected, rfl⟩ := List.mem_map.mp inside
    have later : p ∈ l.drop count.toNat := by
      have whole := perm.mem_iff.mpr mem
      rw [← List.take_append_drop count.toNat l, List.mem_append] at whole
      exact whole.resolve_left fun inside => out (List.mem_map_of_mem inside)
    rw [← List.take_append_drop count.toNat l, List.pairwise_append] at sorted
    exact sorted.2.2 q selected p later

theorem newLiveStyleSolver_k {edges : List Edge} {k : Int} (hk : 1 ≤ k) :
    (newLiveStyleSolver edges k).k = k := if_neg (by omega)

/-- A successful answer comes from the paths of Yen's algorithm. -/
theorem liveStyle_ok {edges : List Edge} {k : Int} {start dest : String} {fuel : Nat}
    {infos : List LiveInfo} (hk : 1 ≤ k)
    (h : (newLiveStyleSolver edges k).computing start dest fuel = some (.ok infos)) :
    ∃ paths, (newKShortestSolver edges 5).yensAlgorithm start dest (adjacency edges) fuel =
        some (.ok paths) ∧
      infos = (LiveStyleSolver.selectTopPaths paths k).map Path.live := by
  rw [← newLiveStyleSolver_k hk]
  unfold LiveStyleSolver.computing at h
  split at h
  · cases h
  · split at h
    · cases h
    · split at h
      · cases h
      · cases h
      · rename_i paths found
        exact ⟨paths, found, (Except.ok.inj (Option.some.inj h)).symm⟩

/-- With enough fuel there is an answer, and an error only for want of a walk. -/
theorem liveStyle_returns {edges : List Edge} (wf : WellFormed edges) (k : Int)
    (start dest : String) {fuel : Nat} (enough : enoughFuel edges 5 ≤ fuel) :
    ∃ res, (newLiveStyleSolver edges k).computing start dest fuel = some res ∧
      ((∃ infos, res = .ok infos) ↔ isNode edges start = true ∧ isNode edges dest = true ∧
        ∃ p, IsWalk (Arc edges) start dest p) := by
  have maps : (newLiveStyleSolver edges k).edges = edges := rfl
  have failed : ∀ err : String, ¬ ∃ infos : List LiveInfo, Except.error err = Except.ok infos := by
    rintro err ⟨infos, h⟩
    cases h
  rw [LiveStyleSolver.computing, maps]
  by_cases hs : isNode edges start = false
  · rw [if_pos hs]
    exact ⟨_, rfl, iff_of_false (failed _) fun h => Bool.false_ne_true (hs.symm.trans h.1)⟩
  rw [if_neg hs]
  by_cases hd : isNode edges dest = false
  · rw [if_pos hd]
    exact ⟨_, rfl, iff_of_false (failed _) fun h => Bool.false_ne_true (hd.symm.trans h.2.1)⟩
  rw [if_neg hd]
  rw [Bool.not_eq_false] at hs hd
  have proper := newKShortestSolverWithLatency_proper wf 5 false
  have named := isNode_named wf hs
  obtain ⟨hf₁, hf₂⟩ := enoughFuel_spec (by decide) enough
  rcases yensAlgorithm_spec proper named dest hf₁ hf₂ with ⟨err, eq, none⟩ | ⟨A, c, eq, run, -⟩
  · have error : (newKShortestSolver edges 5).yensAlgorithm start dest (adjacency edges) fuel =
        some (.error err) := eq
    rw [error]
    exact ⟨_, rfl, iff_of_false (failed err) fun ⟨_, _, p, walk⟩ => none p walk⟩
  · have found : (newKShortestSolver edges 5).yensAlgorithm start dest (adjacency edges) fuel =
        some (.ok (Sort.exchangeSort Path.cost A)) := eq
    have inv := run.inv proper named
    obtain ⟨p, mem⟩ := List.exists_mem_of_ne_nil A inv.nonempty
    rw [found]
    exact ⟨_, rfl, iff_of_true ⟨_, rfl⟩ ⟨hs, hd, p.hops, (inv.found p mem).path.toIsWalk⟩⟩

/-- **The fastest of the candidates.** An answer holds the `k` fastest of the at most five
paths of Yen's algorithm that have at most ten edges. In a graph as the graph manager keeps
it, enough fuel gives an answer, and an error only for want of a walk. -/
theorem fastest_selected (edges : List Edge) {k : Int} (hk : 1 ≤ k) (start dest : String) :
    (∀ fuel infos, (newLiveStyleSolver edges k).computing start dest fuel = some (.ok infos) →
      ∃ paths, (newKShortestSolver edges 5).yensAlgorithm start dest (adjacency edges) fuel =
          some (.ok paths) ∧ paths.length ≤ 5 ∧ FastestOf k paths infos) ∧
    (WellFormed edges → ∀ fuel, enoughFuel edges 5 ≤ fuel →
      ∃ res, (newLiveStyleSolver edges k).computing start dest fuel = some res ∧
        ((∃ infos, res = .ok infos) ↔ isNode edges start = true ∧ isNode edges dest = true ∧
          ∃ p, IsWalk (Arc edges) start dest p)) := by
  constructor
  · intro fuel infos h
    obtain ⟨paths, found, rfl⟩ := liveStyle_ok hk h
    have five : (newKShortestSolver edges 5).k = 5 := newKShortestSolverWithLatency_k (by decide)
    have listing := yensAlgorithm_listing (by rw [five]; decide) found
    rw [five] at listing
    exact ⟨paths, found, by exact_mod_cast listing.count,
      fastestOf_selectTopPaths (by omega) listing⟩
  · intro wf fuel enough
    exact liveStyle_returns wf k start dest enough

/-- A direct way with a latency of 9 that is cheaper than the detours, which are faster. -/
def detours : List Edge :=
  [⟨"A", "D", 1, 0, 9⟩, ⟨"A", "B", 1, 0, 1⟩, ⟨"B", "D", 1, 0, 2⟩, ⟨"A", "C", 2, 0, 2⟩,
    ⟨"C", "D", 1, 0, 3⟩]

theorem fastest_selected_detours :
    (newLiveStyleSolver detours 2).computing "A" "D" 12 =
        some (.ok [⟨["A", "B", "D"], 2, (3 : ℚ)⟩, ⟨["A", "C", "D"], 3, (5 : ℚ)⟩]) ∧
      ∃ paths, (newKShortestSolver detours 5).yensAlgorithm "A" "D" (adjacency detours) 12 =
          some (.ok paths) ∧ paths.length ≤ 5 ∧
        FastestOf 2 paths [⟨["A", "B", "D"], 2, (3 : ℚ)⟩, ⟨["A", "C", "D"], 3, (5 : ℚ)⟩] := by
  have answer : (newLiveStyleSolver detours 2).computing "A" "D" 12 =
      some (.ok [⟨["A", "B", "D"], 2, (3 : ℚ)⟩, ⟨["A", "C", "D"], 3, (5 : ℚ)⟩]) := by
    decide +kernel
  exact ⟨answer, (fastest_selected detours (by decide) "A" "D").1 12 _ answer⟩

end SkyAccel.Routing
