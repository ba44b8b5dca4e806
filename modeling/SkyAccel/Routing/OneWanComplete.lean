import SkyAccel.Routing.OneWanSelection

/-!
# The ONE-WAN solver misses no destination

A search that fails has tried every neighbour in some order and has put everything back
each time, so no simple path within the depth leads from its node to the target over nodes
that it has not visited (`dfs_settled`). This does not depend on what is drawn, nor on how
many edges join two nodes. So the first attempt at a destination that can be reached finds
a path, and a path to it is among those selected.
-/

namespace SkyAccel.Routing

open Walk (IsPath IsWalk)

/-- A simple path over edges of the list, at most fifteen of them. -/
structure ShortPath (edges : List Edge) (start end_ : String) (hops : List String) : Prop where
  path : IsPath (Arc edges) start end_ hops
  short : hops.length - 1 ≤ 15

def Reachable (edges : List Edge) (start end_ : String) : Prop :=
  ∃ hops, ShortPath edges start end_ hops

/-! ## The search -/

/-- A simple path of at most `room` nodes that avoids the nodes visited. -/
structure Clear (edges : List Edge) (room : Nat) (node target : String) (visited tail : List String) :
    Prop where
  path : IsPath (Arc edges) node target tail
  fresh : ∀ v ∈ tail, v ∉ visited
  size : tail.length ≤ room

/-- What a search has done: it has put a clear path behind the hops, or it has put
everything back and there is none. -/
def Settled (edges : List Edge) (room : Nat) (node target : String) (st : Dfs) :
    Bool × Dfs → Prop
  | (true, st') => ∃ tail, Clear edges room node target st.visited tail ∧ st'.hops = st.hops ++ tail
  | (false, st') => Restored st st' ∧ ∀ tail, ¬ Clear edges room node target st.visited tail

/-- The same for the loop over the neighbours. -/
def LoopSettled (edges neighbors : List Edge) (room : Nat) (target : String) (st : Dfs) :
    Bool × Dfs → Prop
  | (true, st') => ∃ e ∈ neighbors, ∃ tail,
      Clear edges room e.destinationIp target st.visited tail ∧ st'.hops = st.hops ++ tail
  | (false, st') => Restored st st' ∧
      ∀ e ∈ neighbors, ∀ tail, ¬ Clear edges room e.destinationIp target st.visited tail

section
variable {edges neighbors : List Edge} {room : Nat} {node target : String}
  {visited tail : List String} {st st' : Dfs} {out : Bool × Dfs}

theorem Clear.exists_cons (h : Clear edges room node target visited tail) :
    ∃ rest, tail = node :: rest := by
  cases tail with
  | nil => exact absurd rfl h.path.ne_nil
  | cons a rest => exact ⟨rest, congrArg (· :: rest) (Option.some.inj h.path.first)⟩

theorem Clear.cons {e : Edge} (edge : e ∈ edges) (new : e.sourceIp ∉ visited)
    (h : Clear edges room e.destinationIp target (e.sourceIp :: visited) tail) :
    Clear edges (room + 1) e.sourceIp target visited (e.sourceIp :: tail) where
  path := by
    have away : e.sourceIp ∉ tail := fun back => h.fresh _ back List.mem_cons_self
    exact ⟨h.path.toIsWalk.cons ⟨e, edge, rfl, rfl⟩, List.nodup_cons.mpr ⟨away, h.path.nodup⟩⟩
  fresh := List.forall_mem_cons.mpr
    ⟨new, fun v mem seen => h.fresh v mem (List.mem_cons_of_mem _ seen)⟩
  size := Nat.succ_le_succ h.size

/-- Away from the target, a clear path goes on over an edge. -/
theorem Clear.next_edge (away : node ≠ target)
    (h : Clear edges (room + 1) node target visited tail) :
    ∃ e ∈ edges, e.sourceIp = node ∧
      ∃ rest, Clear edges room e.destinationIp target (node :: visited) rest := by
  obtain ⟨rest, rfl⟩ := h.exists_cons
  obtain ⟨path, fresh, size⟩ := h
  cases rest with
  | nil => exact absurd (Option.some.inj path.last) away
  | cons b rest =>
    obtain ⟨⟨e, edge, from_, rfl⟩, chain⟩ := List.isChain_cons_cons.mp path.chain
    obtain ⟨out, nodup⟩ := List.nodup_cons.mp path.nodup
    refine ⟨e, edge, from_, e.destinationIp :: rest, ⟨⟨rfl, path.last, chain⟩, nodup⟩, ?_,
      Nat.le_of_succ_le_succ size⟩
    intro v mem seen
    obtain rfl | before := List.mem_cons.mp seen
    · exact out mem
    · exact fresh v (List.mem_cons_of_mem _ mem) before

theorem LoopSettled.of_restored (same : Restored st st')
    (h : LoopSettled edges neighbors room target st' out) :
    LoopSettled edges neighbors room target st out := by
  obtain ⟨found, now⟩ := out
  cases found with
  | true =>
    obtain ⟨e, mem, tail, clear, hops⟩ := h
    exact ⟨e, mem, tail, same.1 ▸ clear, same.2.1 ▸ hops⟩
  | false => exact ⟨same.trans h.1, fun e mem tail => same.1 ▸ h.2 e mem tail⟩

/-- A neighbour that nothing leads on from makes no difference. -/
theorem LoopSettled.cons {edge : Edge}
    (none : ∀ tail, ¬ Clear edges room edge.destinationIp target st.visited tail)
    (h : LoopSettled edges neighbors room target st out) :
    LoopSettled edges (edge :: neighbors) room target st out := by
  obtain ⟨found, now⟩ := out
  cases found with
  | true =>
    obtain ⟨e, mem, rest⟩ := h
    exact ⟨e, List.mem_cons_of_mem _ mem, rest⟩
  | false => exact ⟨h.1, List.forall_mem_cons.mpr ⟨none, h.2⟩⟩

theorem tryNeighbors_settled {deeper : String → Dfs → Bool × Dfs}
    (ih : ∀ node st, node ∉ st.visited → Settled edges room node target st (deeper node st))
    (neighbors : List Edge) (st : Dfs) :
    LoopSettled edges neighbors room target st (tryNeighbors deeper neighbors st) := by
  induction neighbors generalizing st with
  | nil => exact ⟨⟨rfl, rfl, rfl⟩, fun _ none => absurd none List.not_mem_nil⟩
  | cons edge rest loop =>
    rw [tryNeighbors_cons]
    split
    · rename_i seen
      apply (loop st).cons
      intro tail clear
      obtain ⟨rest, rfl⟩ := clear.exists_cons
      exact clear.fresh _ List.mem_cons_self seen
    · rename_i new
      have search := ih edge.destinationIp st new
      revert search
      obtain ⟨found, now⟩ := deeper edge.destinationIp st
      intro search
      cases found with
      | true =>
        obtain ⟨tail, clear, hops⟩ := search
        exact ⟨edge, List.mem_cons_self, tail, clear, hops⟩
      | false => exact ((loop now).of_restored search.1).cons search.2

theorem dfs_settled (c : Choices) (new : node ∉ st.visited) :
    Settled edges room node target st (dfs c (adjacency edges) target room node st) := by
  -- by induction on the depth that is left; the loop is settled by the searches it makes
  induction room generalizing node st with
  | zero =>
    refine ⟨⟨rfl, rfl, rfl⟩, fun tail clear => ?_⟩
    obtain ⟨rest, rfl⟩ := clear.exists_cons
    exact absurd clear.size (Nat.not_succ_le_zero _)
  | succ room ih =>
    rw [dfs]
    dsimp only
    split
    · rename_i arrived
      refine ⟨[node], ⟨arrived ▸ IsPath.singleton _ _, ?_, Nat.succ_le_succ (Nat.zero_le _)⟩, rfl⟩
      intro v mem
      rw [List.mem_singleton.mp mem]
      exact new
    · rename_i away
      have leave : ∀ e, e ∈ outgoing (adjacency edges) node ↔ e ∈ edges ∧ e.sourceIp = node := by
        intro e
        rw [outgoing_adjacency, List.mem_filter, beq_iff_eq]
      split
      · rename_i empty
        refine ⟨restored_enter ⟨rfl, rfl, rfl⟩, fun tail clear => ?_⟩
        obtain ⟨e, edge, from_, -⟩ := clear.next_edge away
        exact absurd ((leave e).mpr ⟨edge, from_⟩) (empty ▸ List.not_mem_nil)
      · have loop : LoopSettled edges _ room target (st.enter node) _ :=
          (tryNeighbors_settled (fun _ _ new => ih new)
            (shuffle c (st.enter node).draws (outgoing (adjacency edges) node))
            { st.enter node with draws := (st.enter node).draws + 1 }).of_restored ⟨rfl, rfl, rfl⟩
        revert loop
        generalize tryNeighbors _ _ _ = out
        obtain ⟨found, now⟩ := out
        intro loop
        cases found with
        | true =>
          obtain ⟨e, mem, tail, clear, hops⟩ := loop
          obtain ⟨edge, rfl⟩ := (leave e).mp ((shuffle_perm c _ _).mem_iff.mp mem)
          refine ⟨e.sourceIp :: tail, .cons edge new clear, ?_⟩
          rw [hops]
          exact List.append_assoc _ _ _
        | false =>
          obtain ⟨back, none⟩ := loop
          refine ⟨restored_enter back, fun tail clear => ?_⟩
          obtain ⟨e, edge, from_, rest, clear⟩ := clear.next_edge away
          exact none e ((shuffle_perm c _ _).mem_iff.mpr ((leave e).mpr ⟨edge, from_⟩)) rest clear

end

/-! ## Candidates -/

section
variable {edges : List Edge} {start end_ : String}

theorem dfsRandomPath_short {c : Choices} {path : Path}
    (h : dfsRandomPath c start end_ (adjacency edges) maxDepth = some path) :
    ShortPath edges start end_ path.hops := by
  have search : Settled edges (maxDepth + 1) start end_ ⟨[], [], 0, 0⟩ _ :=
    dfs_settled c List.not_mem_nil
  unfold dfsRandomPath at h
  split at h
  · rename_i st eq
    rw [eq] at search
    obtain ⟨tail, clear, hops⟩ := search
    obtain rfl := Option.some.inj h
    have same : st.hops = tail := hops
    refine ⟨same ▸ clear.path, ?_⟩
    change st.hops.length - 1 ≤ 15
    rw [same]
    exact Nat.sub_le_sub_right clear.size 1
  · cases h

/-- The search finds nothing exactly if nothing is there. -/
theorem dfsRandomPath_eq_none_iff (c : Choices) :
    dfsRandomPath c start end_ (adjacency edges) maxDepth = none ↔
      ¬ Reachable edges start end_ := by
  constructor
  · rintro failed ⟨hops, path, short⟩
    have search : Settled edges (maxDepth + 1) start end_ ⟨[], [], 0, 0⟩ _ :=
      dfs_settled c List.not_mem_nil
    unfold dfsRandomPath at failed
    split at failed
    · cases failed
    · rename_i eq
      rw [eq] at search
      exact search.2 hops ⟨path, fun _ _ => List.not_mem_nil, Nat.sub_le_iff_le_add.mp short⟩
  · intro unreachable
    by_contra found
    obtain ⟨path, eq⟩ := Option.ne_none_iff_exists'.mp found
    exact unreachable ⟨path.hops, dfsRandomPath_short eq⟩

theorem Collected.mem_add {u : Collected} {found : Option Path} {path : Path}
    (mem : path ∈ (u.add found).paths) : path ∈ u.paths ∨ found = some path := by
  unfold Collected.add at mem
  split at mem
  · exact .inl mem
  · dsimp only at mem
    split at mem
    · exact .inl mem
    · exact (List.mem_append.mp mem).imp_right fun new => by rw [List.mem_singleton.mp new]

theorem Collected.add_ne_nil {u : Collected} (some : u.paths ≠ []) (found : Option Path) :
    (u.add found).paths ≠ [] := by
  unfold Collected.add
  split
  · exact some
  · dsimp only
    split
    · exact some
    · exact List.append_ne_nil_of_left_ne_nil some _

theorem randomDFSPaths_short {c : Nat → Choices} {maxPaths : Int} {path : Path}
    (mem : path ∈ randomDFSPaths c start end_ (adjacency edges) maxPaths) :
    ShortPath edges start end_ path.hops := by
  have collected : ∀ path ∈ (attempts c start end_ (adjacency edges) maxPaths).paths,
      ShortPath edges start end_ path.hops := by
    unfold attempts
    refine List.foldlRecOn (motive := fun u : Collected =>
      ∀ path ∈ u.paths, ShortPath edges start end_ path.hops) _ _ nofun ?_
    intro u short attempt _
    split
    · intro path mem
      obtain old | found := Collected.mem_add mem
      · exact short path old
      · exact dfsRandomPath_short found
    · exact short
  exact collected path ((Sort.exchangeSort_perm _ _).mem_iff.mp mem)

/-- The first attempt finds a path if there is one. -/
theorem randomDFSPaths_ne_nil (c : Nat → Choices) {maxPaths : Int} (some : 1 ≤ maxPaths)
    (reachable : Reachable edges start end_) :
    randomDFSPaths c start end_ (adjacency edges) maxPaths ≠ [] := by
  have collected : (attempts c start end_ (adjacency edges) maxPaths).paths ≠ [] := by
    have range : List.range maxAttempts = 0 :: List.range' 1 99 := rfl
    obtain ⟨path, found⟩ := Option.ne_none_iff_exists'.mp
      (mt (dfsRandomPath_eq_none_iff (c 0)).mp (not_not_intro reachable))
    rw [attempts, range, List.foldl_cons]
    refine List.foldlRecOn (motive := fun u : Collected => u.paths ≠ []) _ _ ?_ ?_
    · rw [if_pos (by exact some), found]
      exact List.cons_ne_nil _ _
    · intro u more attempt _
      split
      · exact Collected.add_ne_nil more _
      · exact more
  exact fun empty => collected (List.Perm.nil_eq (empty ▸ Sort.exchangeSort_perm _ _)).symm

theorem isNode_of_walk {hops : List String} (known : isNode edges start = true)
    (walk : IsWalk (Arc edges) start end_ hops) : isNode edges end_ = true := by
  induction hops generalizing start with
  | nil => exact absurd rfl walk.ne_nil
  | cons a rest ih =>
    obtain rfl : a = start := Option.some.inj walk.first
    cases rest with
    | nil =>
      obtain rfl : a = end_ := Option.some.inj walk.last
      exact known
    | cons b rest =>
      obtain ⟨⟨e, edge, -, rfl⟩, chain⟩ := List.isChain_cons_cons.mp walk.chain
      refine ih (List.any_eq_true.mpr ⟨e, edge, ?_⟩) ⟨rfl, walk.last, chain⟩
      rw [BEq.rfl, Bool.or_true]

end

namespace ONEWANSolver
variable {os : ONEWANSolver} {start end_ : String} {c : Nat → Choices}

theorem info_short {p : PathInfo}
    (mem : p ∈ (randomDFSPaths c start end_ (adjacency os.edges) os.maxPaths).map Path.info) :
    ShortPath os.edges start end_ p.hops := by
  obtain ⟨path, found, rfl⟩ := List.mem_map.mp mem
  have short := randomDFSPaths_short found
  have same : path.info.hops = path.hops := removeConsecutiveDuplicates_of_nodup short.path.nodup
  exact same ▸ short

theorem candidatePaths_short {p : PathInfo} (mem : p ∈ os.candidatePaths c start end_) :
    ShortPath os.edges start end_ p.hops :=
  info_short ((candidatePaths_sublist os c start end_).subset mem)

/-- No path of the attempts is too long to be a candidate. -/
theorem candidatePaths_eq (known : isNode os.edges end_ = true) :
    os.candidatePaths c start end_ =
      let pathInfos :=
        (randomDFSPaths c start end_ (adjacency os.edges) os.maxPaths).map Path.info
      if (pathInfos.length : Int) > os.maxPaths then pathInfos.take os.maxPaths.toNat
      else pathInfos := by
  have all : ∀ p ∈ (randomDFSPaths c start end_ (adjacency os.edges) os.maxPaths).map Path.info,
      decide (p.hops.length - 1 ≤ maxHops) = true := by
    intro p mem
    exact decide_eq_true ((info_short mem).short.trans (by decide))
  have known' : ¬ isNode os.edges end_ = false := by
    rw [known]
    exact Bool.noConfusion
  rw [candidatePaths, if_neg known']
  simp only [filterPathsByHops, List.filter_eq_self.mpr all]

/-- A destination has candidates exactly if it can be reached. -/
theorem candidatePaths_ne_nil_iff (known : isNode os.edges start = true) (some : 1 ≤ os.maxPaths) :
    os.candidatePaths c start end_ ≠ [] ↔ Reachable os.edges start end_ := by
  constructor
  · intro more
    obtain ⟨p, mem⟩ := List.exists_mem_of_ne_nil _ more
    exact ⟨p.hops, candidatePaths_short mem⟩
  · rintro ⟨hops, short⟩
    have paths := randomDFSPaths_ne_nil c some ⟨hops, short⟩
    rw [candidatePaths_eq (isNode_of_walk known short.path.toIsWalk)]
    have infos : (randomDFSPaths c start end_ (adjacency os.edges) os.maxPaths).map Path.info ≠ [] :=
      fun none => paths (List.map_eq_nil_iff.mp none)
    dsimp only
    split
    · exact fun none => (List.take_eq_nil_iff.mp none).elim (by omega) infos
    · exact infos

/-! ## The solver -/

variable {r : Rand} {ends : List String}

theorem destCandidates_eq_none_iff (known : isNode os.edges start = true) (some : 1 ≤ os.maxPaths)
    {x : String × Nat} :
    os.destCandidates r start x = none ↔ ¬ Reachable os.edges start x.1 := by
  have candidates : os.candidatePaths (r.perm x.2) start x.1 ≠ [] ↔ _ :=
    candidatePaths_ne_nil_iff known some
  rw [← candidates, not_not, destCandidates]
  split
  · rename_i empty
    exact iff_of_true rfl empty
  · rename_i more
    exact iff_of_false (Option.some_ne_none _) more

theorem generateCandidatePaths_error_iff (known : isNode os.edges start = true)
    (some : 1 ≤ os.maxPaths) :
    (∃ err, os.generateCandidatePaths r start ends = .error err) ↔
      ∀ end_ ∈ ends, ¬ Reachable os.edges start end_ := by
  have empty : ends.zipIdx.filterMap (os.destCandidates r start) = [] ↔
      ∀ end_ ∈ ends, ¬ Reachable os.edges start end_ := by
    simp only [List.filterMap_eq_nil_iff, destCandidates_eq_none_iff known some]
    constructor
    · intro none end_ mem
      obtain ⟨i, at_⟩ := List.mem_iff_getElem?.mp mem
      exact none (end_, i) (List.mem_zipIdx_iff_getElem?.mpr at_)
    · exact fun none x mem => none x.1 (List.fst_mem_of_mem_zipIdx mem)
  rw [generateCandidatePaths, ← empty]
  split
  · rename_i none
    exact iff_of_true ⟨_, rfl⟩ none
  · rename_i more
    exact iff_of_false nofun more

/-- Whatever is drawn, a candidate of each destination is selected. -/
theorem exists_selected {allCandidates : List DestCandidates} {dc : DestCandidates} (iter : Nat)
    (mem : dc ∈ allCandidates) (some : dc.paths ≠ []) :
    ∃ p ∈ (os.solution r allCandidates iter).paths, p ∈ dc.paths := by
  obtain ⟨i, at_⟩ := List.mem_iff_getElem?.mp mem
  have more : 0 < (dc.withProbs.selected fun j => r.float64 iter i j).length := by
    rw [length_selected fun j => (r.float64 iter i j).2.2.le]
    exact lt_min (by decide) (List.length_pos_of_ne_nil some)
  obtain ⟨p, selected⟩ := List.exists_mem_of_length_pos more
  refine ⟨p, ?_, mem_paths_of_selected selected⟩
  exact List.mem_flatMap.mpr ⟨(dc, i), List.mem_zipIdx_iff_getElem?.mpr at_, selected⟩

/-- **No reachable destination is missed.** The search finds a path exactly if a simple
path of at most fifteen edges is there. The solver fails exactly if there is none to any
destination, and otherwise returns a path to every destination that has one. -/
theorem computingMulti_reaches (os : ONEWANSolver) (r : Rand) (start : String) (ends : List String)
    (known : isNode os.edges start = true) (some : 1 ≤ os.maxPaths) :
    (∀ c target, dfsRandomPath c start target (adjacency os.edges) maxDepth = none ↔
      ¬ Reachable os.edges start target) ∧
    ((∃ err, os.computingMulti r start ends = .error err) ↔
      ∀ end_ ∈ ends, ¬ Reachable os.edges start end_) ∧
    ∀ paths, os.computingMulti r start ends = .ok paths →
      ∀ end_ ∈ ends, Reachable os.edges start end_ →
        ∃ p ∈ paths, ShortPath os.edges start end_ p.hops := by
  have known' : ¬ isNode os.edges start = false := by
    rw [known]
    exact Bool.noConfusion
  have run : os.computingMulti r start ends =
      (os.generateCandidatePaths r start ends).map (os.beamSearchSelection r) := if_neg known'
  refine ⟨fun c target => dfsRandomPath_eq_none_iff c, ?_, ?_⟩
  · rw [run, ← generateCandidatePaths_error_iff known some]
    cases os.generateCandidatePaths r start ends with
    | error err => exact iff_of_true ⟨err, rfl⟩ ⟨err, rfl⟩
    | ok allCandidates => exact iff_of_false nofun nofun
  · intro paths returned end_ mem reachable
    rw [run, generateCandidatePaths] at returned
    split at returned
    · cases returned
    · obtain rfl := Except.ok.inj returned
      obtain ⟨i, at_⟩ := List.mem_iff_getElem?.mp mem
      have candidates := (candidatePaths_ne_nil_iff (c := r.perm i) known some).mpr reachable
      have listed : (⟨end_, os.candidatePaths (r.perm i) start end_, []⟩ : DestCandidates) ∈
          ends.zipIdx.filterMap (os.destCandidates r start) :=
        List.mem_filterMap.mpr
          ⟨(end_, i), List.mem_zipIdx_iff_getElem?.mpr at_, if_neg candidates⟩
      obtain ⟨⟨iter, -, best⟩, -⟩ := beamSearchSelection_least os r
        (ends.zipIdx.filterMap (os.destCandidates r start))
      rw [best]
      obtain ⟨p, selected, candidate⟩ := exists_selected iter listed candidates
      exact ⟨p, selected, candidatePaths_short candidate⟩

/-- Two edges from `s` to `a`, and no way to `c`. -/
def parallel : List Edge :=
  [⟨"s", "a", 1, 0, 7⟩, ⟨"s", "a", 1, 2, 2⟩, ⟨"c", "s", 1, 0, 3⟩]

theorem computingMulti_parallel :
    ∃ paths, (newONEWANSolver parallel 2).computingMulti alternating "s" ["c", "a"] = .ok paths ∧
      Reachable parallel "s" "a" ∧ ∃ p ∈ paths, ShortPath parallel "s" "a" p.hops := by
  obtain ⟨-, -, served⟩ := computingMulti_reaches (newONEWANSolver parallel 2) alternating "s"
    ["c", "a"] (by decide) (by decide)
  have run : (newONEWANSolver parallel 2).computingMulti alternating "s" ["c", "a"] =
      .ok [⟨["s", "a"], 7, 7⟩] := by decide +kernel
  have reachable : Reachable parallel "s" "a" :=
    ⟨["s", "a"], ⟨⟨rfl, rfl, .cons_cons ⟨_, List.mem_cons_self, rfl, rfl⟩ (.singleton _)⟩,
      by decide⟩, by decide⟩
  exact ⟨_, run, reachable, served _ run "a" (by decide) reachable⟩

end ONEWANSolver

end SkyAccel.Routing
