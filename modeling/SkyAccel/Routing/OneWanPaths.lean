import SkyAccel.Routing.OneWan
import SkyAccel.Routing.Spur

/-!
# The candidates of the ONE-WAN solver

Whatever is drawn, a search that succeeds has put a simple path to its target behind the
hops it started with, and one that fails has put everything back (`dfs_spec`). So the
candidates for a destination are simple paths with the latency of their edges, and no two
are the same (`candidatePaths_sound`).
-/

namespace SkyAccel.Routing

open Strings (join)
open Walk (IsPath IsWalk cost)

/-! ## The search -/

/-- A simple path of at most `room` nodes stands behind the hops of `st`, over nodes that
`st` has not visited, and its latency is added. -/
def Reached (edges : List Edge) (room : Nat) (node target : String) (st st' : Dfs) : Prop :=
  ∃ tail, st'.hops = st.hops ++ tail ∧ IsPath (Arc edges) node target tail ∧
    (∀ v ∈ tail, v ∉ st.visited) ∧ tail.length ≤ room ∧
    st'.totalLatency = st.totalLatency + cost (along edges Edge.latency) tail

/-- Only random orders have been drawn. -/
def Restored (st st' : Dfs) : Prop :=
  st'.visited = st.visited ∧ st'.hops = st.hops ∧ st'.totalLatency = st.totalLatency

theorem Restored.trans {a b c : Dfs} (h : Restored a b) (h' : Restored b c) : Restored a c :=
  ⟨h'.1.trans h.1, h'.2.1.trans h.2.1, h'.2.2.trans h.2.2⟩

/-- A search fails and has put everything back, or it has found a path. -/
def Outcome (edges : List Edge) (room : Nat) (node target : String) (st : Dfs)
    (out : Bool × Dfs) : Prop :=
  out.1 = false ∧ Restored st out.2 ∨ out.1 = true ∧ Reached edges room node target st out.2

section
variable {edges : List Edge} {target : String} {room : Nat}

theorem Reached.of_restored {node : String} {st st' out : Dfs} (same : Restored st st')
    (h : Reached edges room node target st' out) : Reached edges room node target st out := by
  obtain ⟨tail, hops, path, new, size, latency⟩ := h
  rw [same.2.1] at hops
  rw [same.1] at new
  rw [same.2.2] at latency
  exact ⟨tail, hops, path, new, size, latency⟩

theorem tryNeighbors_cons (deeper : String → Dfs → Bool × Dfs) (edge : Edge) (rest : List Edge)
    (st : Dfs) : tryNeighbors deeper (edge :: rest) st =
      if edge.destinationIp ∈ st.visited then tryNeighbors deeper rest st
      else
        let out := deeper edge.destinationIp st
        if out.1 then (true, { out.2 with totalLatency := out.2.totalLatency + edge.latency })
        else tryNeighbors deeper rest out.2 := by
  rw [tryNeighbors]
  obtain ⟨found, st'⟩ := deeper edge.destinationIp st
  cases found <;> rfl

/-- The loop over the neighbours fails, or it has found what the search from one of them
finds and added the latency of the edge that leads there. -/
def Continued (edges neighbors : List Edge) (room : Nat) (target : String) (st : Dfs)
    (out : Bool × Dfs) : Prop :=
  out.1 = false ∧ Restored st out.2 ∨
    out.1 = true ∧ ∃ e ∈ neighbors, ∃ mid, Reached edges room e.destinationIp target st mid ∧
      out.2 = { mid with totalLatency := mid.totalLatency + e.latency }

theorem Continued.of_restored {neighbors : List Edge} {st st' : Dfs} {out : Bool × Dfs}
    (same : Restored st st') (h : Continued edges neighbors room target st' out) :
    Continued edges neighbors room target st out := by
  obtain ⟨failed, back⟩ | ⟨found, e, mem, mid, reached, eq⟩ := h
  · exact .inl ⟨failed, same.trans back⟩
  · exact .inr ⟨found, e, mem, mid, reached.of_restored same, eq⟩

theorem Continued.cons {edge : Edge} {rest : List Edge} {st : Dfs} {out : Bool × Dfs}
    (h : Continued edges rest room target st out) :
    Continued edges (edge :: rest) room target st out := by
  obtain failed | ⟨found, e, mem, reached⟩ := h
  · exact .inl failed
  · exact .inr ⟨found, e, List.mem_cons_of_mem _ mem, reached⟩

theorem tryNeighbors_spec {deeper : String → Dfs → Bool × Dfs}
    (sound : ∀ node st, node ∉ st.visited → Outcome edges room node target st (deeper node st))
    (neighbors : List Edge) (st : Dfs) :
    Continued edges neighbors room target st (tryNeighbors deeper neighbors st) := by
  induction neighbors generalizing st with
  | nil => exact .inl ⟨rfl, rfl, rfl, rfl⟩
  | cons edge rest ih =>
    rw [tryNeighbors_cons]
    split
    · exact (ih st).cons
    · rename_i new
      obtain ⟨failed, back⟩ | ⟨found, reached⟩ := sound edge.destinationIp st new
      · simp only [failed, Bool.false_eq_true, if_false]
        exact (ih _).cons.of_restored back
      · simp only [found, if_true]
        exact .inr ⟨rfl, edge, List.mem_cons_self, _, reached, rfl⟩

theorem restored_enter {st st' : Dfs} {node : String} (h : Restored (st.enter node) st') :
    Restored st (st'.backtrack node) := by
  obtain ⟨visited, hops, latency⟩ := h
  simp only [Dfs.enter] at visited hops latency
  refine ⟨?_, ?_, latency⟩
  · simp [Dfs.backtrack, visited]
  · simp [Dfs.backtrack, hops]

/-- A search that succeeds beyond a neighbour succeeds from the node. -/
theorem Continued.reached (one : OnePerPair edges) {neighbors : List Edge} {st : Dfs}
    {out : Bool × Dfs} {node : String}
    (leave : ∀ e ∈ neighbors, e ∈ edges ∧ e.sourceIp = node) (new : node ∉ st.visited)
    (found : out.1 = true) (h : Continued edges neighbors room target (st.enter node) out) :
    Reached edges (room + 1) node target st out.2 := by
  obtain ⟨failed, -⟩ | ⟨-, e, mem, mid, ⟨tail, hops, path, fresh, size, latency⟩, eq⟩ := h
  · rw [failed] at found
    cases found
  · obtain ⟨inside, rfl⟩ := leave e mem
    have away : e.sourceIp ∉ tail := fun back =>
      fresh _ back (by simp [Dfs.enter])
    refine ⟨e.sourceIp :: tail, ?_, ?_, ?_, ?_, ?_⟩
    · rw [eq, hops]
      simp [Dfs.enter]
    · exact ⟨path.toIsWalk.cons ⟨e, inside, rfl, rfl⟩, List.nodup_cons.mpr ⟨away, path.nodup⟩⟩
    · intro v mem
      obtain rfl | behind := List.mem_cons.mp mem
      · exact new
      · exact fun seen => fresh v behind (List.mem_cons_of_mem _ seen)
    · simpa using size
    · obtain ⟨rest, rfl⟩ : ∃ rest, tail = e.destinationIp :: rest := by
        cases tail with
        | nil => exact absurd rfl path.ne_nil
        | cons a rest => exact ⟨rest, by simpa using path.first⟩
      rw [eq, Walk.cost_cons_cons, along_eq one Edge.latency inside]
      change mid.totalLatency + e.latency = _
      rw [latency]
      change st.totalLatency + _ + _ = _
      ring

theorem dfs_spec (one : OnePerPair edges) (c : Choices) {node : String} {st : Dfs}
    (new : node ∉ st.visited) :
    Outcome edges room node target st (dfs c (adjacency edges) target room node st) := by
  induction room generalizing node st with
  | zero => exact .inl ⟨rfl, rfl, rfl, rfl⟩
  | succ room ih =>
    rw [dfs]
    dsimp only
    split
    · rename_i arrived
      refine .inr ⟨rfl, [node], rfl, arrived ▸ IsPath.singleton _ _, by simpa using new, ?_, ?_⟩
      · simp
      · simp [Dfs.enter]
    · split
      · exact .inl ⟨rfl, restored_enter ⟨rfl, rfl, rfl⟩⟩
      · have leave : ∀ e ∈ shuffle c (st.enter node).draws (outgoing (adjacency edges) node),
            e ∈ edges ∧ e.sourceIp = node := by
          intro e mem
          have mem := (shuffle_perm c _ _).mem_iff.mp mem
          simpa [outgoing_adjacency] using mem
        -- Counting the draw changes nothing that a path depends on.
        have loop : Continued edges _ room target (st.enter node) _ :=
          (tryNeighbors_spec (fun _ _ new => ih new)
            (shuffle c (st.enter node).draws (outgoing (adjacency edges) node))
            { st.enter node with draws := (st.enter node).draws + 1 }).of_restored ⟨rfl, rfl, rfl⟩
        revert loop
        generalize tryNeighbors _ _ _ = out
        intro loop
        obtain ⟨found, st'⟩ := out
        cases found with
        | false =>
          obtain ⟨-, back⟩ | ⟨wrong, -⟩ := loop
          · exact .inl ⟨rfl, restored_enter back⟩
          · cases wrong
        | true => exact .inr ⟨rfl, loop.reached one leave new rfl⟩

/-! ## Candidates -/

/-- A simple path over edges of the list, at most fifteen of them, with their latency. -/
structure Sound (edges : List Edge) (start end_ : String) (hops : List String) (rawRTT : ℚ) :
    Prop where
  path : IsPath (Arc edges) start end_ hops
  short : hops.length - 1 ≤ 15
  latency : rawRTT = cost (along edges Edge.latency) hops

theorem dfsRandomPath_sound (one : OnePerPair edges) {c : Choices} {start end_ : String}
    {path : Path} (h : dfsRandomPath c start end_ (adjacency edges) maxDepth = some path) :
    Sound edges start end_ path.hops (path.rawRTT.untopD 0) := by
  have search : Outcome edges (maxDepth + 1) start end_ ⟨[], [], 0, 0⟩ _ :=
    dfs_spec one c List.not_mem_nil
  unfold dfsRandomPath at h
  split at h
  · rename_i st eq
    rw [eq] at search
    obtain ⟨wrong, -⟩ | ⟨-, tail, hops, found, -, size, latency⟩ := search
    · cases wrong
    · obtain rfl := Option.some.inj h
      have same : st.hops = tail := hops
      refine ⟨same ▸ found, ?_, ?_⟩
      · have size : tail.length ≤ 15 + 1 := size
        change st.hops.length - 1 ≤ 15
        rw [same]
        omega
      · change st.totalLatency = _
        rw [same, latency]
        exact zero_add _
  · cases h

/-- `usedPaths` holds the paths collected, each once. -/
structure Collected.Inv (edges : List Edge) (start end_ : String) (u : Collected) : Prop where
  used : u.usedPaths = (u.paths.map Path.hops).map fun hops => join hops "->"
  once : u.usedPaths.Nodup
  sound : ∀ path ∈ u.paths, Sound edges start end_ path.hops (path.rawRTT.untopD 0)

theorem Collected.Inv.add {start end_ : String} {u : Collected}
    (h : u.Inv edges start end_) {found : Option Path}
    (sound : ∀ path, found = some path →
      Sound edges start end_ path.hops (path.rawRTT.untopD 0)) :
    (u.add found).Inv edges start end_ := by
  cases found with
  | none => exact h
  | some path =>
    simp only [Collected.add]
    split
    · exact h
    · rename_i new
      refine ⟨?_, h.once.append (List.nodup_singleton _) (by simpa using new), ?_⟩
      · simp [h.used]
      · intro p mem
        obtain old | rfl := by simpa using mem
        · exact h.sound p old
        · exact sound p rfl

theorem attempts_inv (one : OnePerPair edges) (c : Nat → Choices) (start end_ : String)
    (maxPaths : Int) :
    (attempts c start end_ (adjacency edges) maxPaths).Inv edges start end_ := by
  unfold attempts
  refine List.foldlRecOn (motive := Collected.Inv edges start end_) _ _ ?_ ?_
  · exact ⟨rfl, List.nodup_nil, fun _ none => absurd none List.not_mem_nil⟩
  · intro u inv attempt _
    split
    · exact inv.add fun path found => dfsRandomPath_sound one found
    · exact inv

/-- The paths that the attempts collect are sound and pairwise different. -/
theorem randomDFSPaths_sound (one : OnePerPair edges) (c : Nat → Choices) (start end_ : String)
    (maxPaths : Int) :
    ((randomDFSPaths c start end_ (adjacency edges) maxPaths).map Path.hops).Nodup ∧
      ∀ path ∈ randomDFSPaths c start end_ (adjacency edges) maxPaths,
        Sound edges start end_ path.hops (path.rawRTT.untopD 0) := by
  have inv := attempts_inv one c start end_ maxPaths
  have order := Sort.exchangeSort_perm Path.cost
    (attempts c start end_ (adjacency edges) maxPaths).paths
  constructor
  · apply (order.map Path.hops).nodup_iff.mpr
    apply List.Nodup.of_map fun hops => join hops "->"
    rw [← inv.used]
    exact inv.once
  · exact fun path mem => inv.sound path (order.mem_iff.mp mem)

theorem Path.info_hops {path : Path} {start end_ : String} {rawRTT : ℚ}
    (h : Sound edges start end_ path.hops rawRTT) : path.info.hops = path.hops :=
  removeConsecutiveDuplicates_of_nodup h.path.nodup

/-- Candidates are paths of the attempts, in their order. -/
theorem candidatePaths_sublist (os : ONEWANSolver) (c : Nat → Choices) (start end_ : String) :
    (os.candidatePaths c start end_).Sublist
      ((randomDFSPaths c start end_ (adjacency os.edges) os.maxPaths).map Path.info) := by
  unfold ONEWANSolver.candidatePaths
  split
  · exact List.nil_sublist _
  · have filtered : (filterPathsByHops _ maxHops).Sublist _ :=
      List.filter_sublist.trans (List.filter_sublist (p := fun p => p.hops.length - 1 ≤ maxHops)
        (l := (randomDFSPaths c start end_ (adjacency os.edges) os.maxPaths).map Path.info))
    dsimp only
    split
    · exact (List.take_sublist _ _).trans filtered
    · exact filtered

/-- The candidates for a destination are sound and pairwise different. -/
theorem candidatePaths_sound {os : ONEWANSolver} (one : OnePerPair os.edges) (c : Nat → Choices)
    (start end_ : String) :
    ((os.candidatePaths c start end_).map PathInfo.hops).Nodup ∧
      ∀ p ∈ os.candidatePaths c start end_, Sound os.edges start end_ p.hops p.rawRTT := by
  obtain ⟨nodup, sound⟩ := randomDFSPaths_sound one c start end_ os.maxPaths
  have part := candidatePaths_sublist os c start end_
  constructor
  · apply List.Nodup.sublist (part.map PathInfo.hops)
    rw [List.map_map]
    convert nodup using 1
    exact List.map_congr_left fun path mem => Path.info_hops (sound path mem)
  · intro p mem
    obtain ⟨path, found, rfl⟩ := List.mem_map.mp (part.subset mem)
    rw [Path.info_hops (sound path found)]
    exact sound path found

end

end SkyAccel.Routing
