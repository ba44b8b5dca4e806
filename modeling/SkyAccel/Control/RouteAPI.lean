import SkyAccel.Lib.Net
import SkyAccel.Lib.Shuffle
import SkyAccel.Control.GraphManager
import SkyAccel.Routing.LiveStyle

/-!
# Tasks for the nodes and routes for the listeners

`api/probing.go` tells the nodes what to probe, and `api/routing.go` answers requests for a
route with a solver over the edges that came of it. A listener knows an origin by the port on
which it serves it, and `probe-targets.json` has the address that belongs to the port.

`edges_wellFormed` says that the reports of nodes that probe what they are told make a graph
that the solvers are right on, and `middle_paths` what the answers are then.
-/

namespace SkyAccel.Control

open Net (ipString itoa)
open Routing (Edge Arc WellFormed Named LiveInfo KShortestSolver LiveStyleSolver)
open Walk (IsWalk IsPath)

/-! ## Origins -/

structure SourceTarget where
  serverPort : Int
  ip : String
  port : Int
  deriving DecidableEq

/-- `LoadSourceTargetsFromExeDir`, from the targets in the file on. -/
def loadSourceTargets (targets : List SourceTarget) : Dict Int SourceTarget :=
  targets.foldl (fun m v => m.insert v.serverPort v) ∅

/-! ## Probe tasks -/

def nodeTask (telemetry : NodeTelemetry) : ProbeTask := ⟨"node", telemetry.publicIP, 7083⟩

def sourceTask (v : SourceTarget) : ProbeTask := ⟨"source", v.ip, v.port⟩

section
variable (unmarshalNode : String → Option NodeTelemetry)

/-- `GetProbeTasks` of the control plane at `publicIP`, with the nodes in the store. -/
def getProbeTasks (publicIP : String) (c : Choices) (nodeMap : Dict String String)
    (sourceTargetMap : Dict Int SourceTarget) : List ProbeTask :=
  (shuffle c 0 nodeMap.entries).filterMap (fun x =>
      match unmarshalNode x.2 with
      | none => none
      | some telemetry =>
        if telemetry.publicIP = publicIP then none else some (nodeTask telemetry)) ++
    (shuffle c 1 sourceTargetMap.entries).map fun x => sourceTask x.2

/-- The report of a node that probes what it is told, whatever round a result is of. -/
structure Probed (sourceTargetMap : Dict Int SourceTarget) (node : NodeTelemetry) : Prop where
  addressed : ∃ ip, node.publicIP = ipString ip
  told : ∀ v ∈ node.linksCongestion, ∃ publicIP c nodeMap,
    v.target ∈ getProbeTasks unmarshalNode publicIP c nodeMap sourceTargetMap
  measured : ∀ v ∈ node.linksCongestion, 0 ≤ v.averageLatency

end

/-! ## Routes -/

def kShortest : String := "k_shortest"

def liveStyle : String := "live_style"

/-- `ComputingMiddleInterface` -/
inductive MiddleSolver
  | kShortest (solver : KShortestSolver)
  | liveStyle (solver : LiveStyleSolver)

/-- `InitMiddleInterface`, where `none` is an interface without a solver. -/
def initMiddleInterface (g : GraphManager) (algorithm : String) : Option MiddleSolver :=
  if algorithm = kShortest then some (.kShortest (Routing.newKShortestSolver g.getEdges 3))
  else if algorithm = liveStyle then some (.liveStyle (Routing.newLiveStyleSolver g.getEdges 2))
  else none

def MiddleSolver.computing (start dest : String) (fuel : Nat) :
    MiddleSolver → Option (Except String (List LiveInfo))
  | .kShortest solver => (solver.computing start dest fuel).map fun res =>
      res.map fun paths => paths.map fun p => ⟨p.hops, p.rtt, (p.rawRTT : ℚ)⟩
  | .liveStyle solver => solver.computing start dest fuel

/-- What the handler answers. A call through an interface without a solver panics. -/
inductive Reply
  | panic
  | response (code : Int) (msg : String) (data : List LiveInfo)
  deriving DecidableEq

def middleRouting (g : GraphManager) (start dest algorithm : String) (fuel : Nat) :
    Option (Option (List LiveInfo)) :=
  match initMiddleInterface g algorithm with
  | none => some none
  | some solver =>
    match solver.computing start dest fuel with
    | none => none
    | some (.error _) => some (some [])
    | some (.ok paths) => some (some paths)

/-- The fields of `EndPoints` that a request for a middle route is about. -/
structure EndPoints where
  sourceIP : String
  destPort : Int

def getMiddleRoute (g : GraphManager) (sourceTargetMap : Dict Int SourceTarget)
    (body : Except String EndPoints) (algorithm : String) (fuel : Nat) : Option Reply :=
  match body with
  | .error err => some (.response 400 ("Request body parsing failed: " ++ err) [])
  | .ok req =>
    match sourceTargetMap.lookup req.destPort with
    | none => some (.response 400 "Request body parsing failed: No corresponding port found" [])
    | some source =>
      let algorithm := if algorithm = "" then kShortest else algorithm
      (middleRouting g req.sourceIP (source.ip ++ ":" ++ toString source.port) algorithm fuel).map
        fun
          | none => .panic
          | some paths => .response 200 "Successfully obtained path" paths

/-! ## What the tasks are -/

section
variable {unmarshalNode : String → Option NodeTelemetry} {sourceTargetMap : Dict Int SourceTarget}

theorem mem_getProbeTasks {publicIP : String} {c : Choices} {nodeMap : Dict String String}
    {task : ProbeTask} : task ∈ getProbeTasks unmarshalNode publicIP c nodeMap sourceTargetMap ↔
      (∃ x ∈ nodeMap.entries, ∃ telemetry, unmarshalNode x.2 = some telemetry ∧
        telemetry.publicIP ≠ publicIP ∧ task = nodeTask telemetry) ∨
      ∃ port v, sourceTargetMap.lookup port = some v ∧ task = sourceTask v := by
  simp only [getProbeTasks, List.mem_append, List.mem_filterMap, List.mem_map,
    (shuffle_perm c 0 nodeMap.entries).mem_iff, (shuffle_perm c 1 sourceTargetMap.entries).mem_iff]
  constructor
  · rintro (⟨x, mem, found⟩ | ⟨⟨port, v⟩, mem, rfl⟩)
    · left
      split at found
      · cases found
      · rename_i telemetry parsed
        split at found
        · cases found
        · rename_i other
          exact ⟨x, mem, telemetry, parsed, other, (Option.some.inj found).symm⟩
    · exact .inr ⟨port, v, AList.mem_lookup_iff.mpr mem, rfl⟩
  · rintro (⟨x, mem, telemetry, parsed, other, rfl⟩ | ⟨port, v, found, rfl⟩)
    · exact .inl ⟨x, mem, by simp [parsed, other]⟩
    · exact .inr ⟨⟨port, v⟩, AList.mem_lookup_iff.mp found, rfl⟩

/-- An origin that a report names is one of the file. -/
theorem Probed.source {node : NodeTelemetry} (h : Probed unmarshalNode sourceTargetMap node)
    {address : String} (names : NamesSource node address) :
    ∃ port v, sourceTargetMap.lookup port = some v ∧
      address = v.ip ++ ":" ++ toString v.port := by
  obtain ⟨link, mem, source, rfl⟩ := names
  obtain ⟨publicIP, c, nodeMap, task⟩ := h.told link mem
  obtain ⟨x, -, telemetry, -, -, same⟩ | ⟨port, v, found, same⟩ := mem_getProbeTasks.mp task
  · rw [same] at source
    exact absurd (show "node" = "source" from source) (by decide)
  · exact ⟨port, v, found, by rw [same]; rfl⟩

end

/-! ## The graph of the reports -/

section
variable {math : Math} {calls : List Call}

theorem mem_nodes_reached {ip : String} (h : ip ∈ (reached math calls).nodes) :
    ∃ node, .addNode node ∈ calls ∧ node.publicIP = ip := by
  induction calls using List.reverseRecOn with
  | nil => exact absurd h (AList.notMem_empty _)
  | append_singleton calls call ih =>
    have old : ip ∈ (reached math calls).nodes →
        ∃ node, .addNode node ∈ calls ++ [call] ∧ node.publicIP = ip := fun before => by
      obtain ⟨node, mem, same⟩ := ih before
      exact ⟨node, List.mem_append_left _ mem, same⟩
    rw [reached, List.foldl_append, List.foldl_cons, List.foldl_nil, ← reached] at h
    cases call with
    | addNode node =>
      rw [GraphManager.perform, addNode_eq] at h
      obtain rfl | before := (AList.mem_insert _).mp h
      · exact ⟨node, List.mem_append_right _ List.mem_cons_self, rfl⟩
      · exact old before
    | removeNode id => exact old (AList.mem_erase.mp h).2

theorem latency_putEdge {edges : Dict String Edge} {new : Edge} (fresh : 0 ≤ new.latency)
    (all : ∀ k e, edges.lookup k = some e → 0 ≤ e.latency) (k : String) (e : Edge)
    (h : (putEdge edges new).lookup k = some e) : 0 ≤ e.latency := by
  rw [lookup_putEdge] at h
  split at h
  · cases old : edges.lookup k with
    | none =>
      rw [old] at h
      obtain rfl := Option.some.inj h
      exact fresh
    | some oldLine =>
      rw [old] at h
      obtain rfl := Option.some.inj h
      exact all k oldLine old
  · exact all k e h

theorem latency_foldl_putEdge {es : List Edge} (fresh : ∀ e ∈ es, 0 ≤ e.latency)
    {edges : Dict String Edge} (all : ∀ k e, edges.lookup k = some e → 0 ≤ e.latency) (k : String)
    (e : Edge) (h : (es.foldl putEdge edges).lookup k = some e) : 0 ≤ e.latency := by
  induction es generalizing edges with
  | nil => exact all k e h
  | cons new es ih =>
    exact ih (fun x mem => fresh x (List.mem_cons_of_mem _ mem))
      (latency_putEdge (fresh new List.mem_cons_self) all) h

theorem reported_latency {nodes : Dict String NodeTelemetry} {node : NodeTelemetry}
    {v : LinkCongestion} {e : Edge} (h : reported math nodes node v = some e) :
    e.latency = v.averageLatency := by
  unfold reported at h
  split at h
  · obtain rfl := Option.some.inj h
    rfl
  · split at h
    · cases h
    · obtain rfl := Option.some.inj h
      rfl

/-- Where all measurements are of some duration, so are the latencies in the graph. -/
theorem latency_reached
    (measured : ∀ node, .addNode node ∈ calls → ∀ v ∈ node.linksCongestion, 0 ≤ v.averageLatency)
    (k : String) (e : Edge) (h : (reached math calls).edges.lookup k = some e) :
    0 ≤ e.latency := by
  induction calls using List.reverseRecOn generalizing k e with
  | nil => cases h
  | append_singleton calls call ih =>
    have before := ih fun node mem => measured node (List.mem_append_left _ mem)
    rw [reached, List.foldl_append, List.foldl_cons, List.foldl_nil, ← reached] at h
    cases call with
    | addNode node =>
      rw [GraphManager.perform, addNode_eq] at h
      refine latency_foldl_putEdge (fun e mem => ?_) before k e h
      obtain ⟨v, inside, link⟩ := List.mem_filterMap.mp mem
      rw [reported_latency link]
      exact measured node (List.mem_append_right _ List.mem_cons_self) v inside
    | removeNode id => exact before k e (Dict.lookup_keep.mp h).1

end

/-- Text of digits, dots and colons is no trouble in a joined path. -/
theorem named_of_chars {s : String} (some : s ≠ "") (free : '>' ∉ s.toList) : Named s := by
  refine ⟨some, Bool.eq_false_iff.mpr fun inside => ?_⟩
  have arrow := (Strings.contains_iff s "->").mp inside
  exact free (arrow.subset (by decide))

theorem ipString_free_arrow (ip : UInt32) : '>' ∉ (ipString ip).toList := fun mem => by
  obtain digit | dot := Net.ipString_chars ip _ mem
  · exact absurd digit (by decide)
  · exact absurd dot (by decide)

theorem ipString_ne_empty (ip : UInt32) : ipString ip ≠ "" := by
  intro empty
  have parsed := Net.parseIPTo4_ipString ip
  have none : Net.parseIPTo4 "" = none := by decide +kernel
  rw [empty, none] at parsed
  cases parsed

theorem named_ipString (ip : UInt32) : Named (ipString ip) :=
  named_of_chars (ipString_ne_empty ip) (ipString_free_arrow ip)

/-- The address of an origin, as a listener and a probing node write it. -/
def hostPort (ip : UInt32) (port : UInt16) : String := ipString ip ++ ":" ++ itoa port.toNat

theorem named_hostPort (ip : UInt32) (port : UInt16) : Named (hostPort ip port) := by
  apply named_of_chars
  · intro empty
    have := congrArg String.toList empty
    simp [hostPort] at this
  · simp only [hostPort, String.toList_append, List.mem_append, not_or]
    refine ⟨⟨ipString_free_arrow ip, by decide⟩, fun mem => ?_⟩
    exact absurd (Net.itoa_digits _ _ mem) (by decide)

/-- The origins of the file have addresses. -/
def Configured (sourceTargetMap : Dict Int SourceTarget) : Prop :=
  ∀ serverPort v, sourceTargetMap.lookup serverPort = some v →
    ∃ ip port, v.ip = ipString ip ∧ ip ≠ 0 ∧ v.port = (port : UInt16).toNat ∧ port ≠ 0

section
variable {unmarshalNode : String → Option NodeTelemetry} {sourceTargetMap : Dict Int SourceTarget}
  {math : Math} {calls : List Call}

/-- The edges of the graph join nodes to nodes and to the origins of the file. -/
theorem edges_wellFormed (pow_nonneg : ∀ x y, 0 ≤ x → 0 ≤ math.pow x y)
    (configured : Configured sourceTargetMap)
    (probed : ∀ node, .addNode node ∈ calls → Probed unmarshalNode sourceTargetMap node) :
    WellFormed (reached math calls).getEdges := by
  have fits := fits_reached (edgeRisk_nonneg pow_nonneg) calls
  have named : ∀ ip ∈ (reached math calls).nodes, Named ip := fun ip mem => by
    obtain ⟨node, call, rfl⟩ := mem_nodes_reached mem
    obtain ⟨a, same⟩ := (probed node call).addressed
    rw [same]
    exact named_ipString a
  refine ⟨?_, fun e mem => ?_, fun e mem => ?_⟩
  · intro e mem e' mem' src dst
    obtain ⟨k, found⟩ := Dict.mem_values.mp mem
    obtain ⟨k', found'⟩ := Dict.mem_values.mp mem'
    have same : k = k' := by
      rw [(fits k e found).key, (fits k' e' found').key, edgeKey, edgeKey, src, dst]
    rw [same, found'] at found
    exact (Option.some.inj found).symm
  · obtain ⟨k, found⟩ := Dict.mem_values.mp mem
    exact ⟨(fits k e found).weight,
      latency_reached (fun node call => (probed node call).measured) k e found⟩
  · obtain ⟨k, found⟩ := Dict.mem_values.mp mem
    refine ⟨named _ (fits k e found).src, ?_⟩
    obtain inside | ⟨node, call, names⟩ := (fits k e found).dst
    · exact named _ inside
    · obtain ⟨serverPort, v, target, same⟩ := (probed node call).source names
      obtain ⟨ip, port, host, -, number, -⟩ := configured serverPort v target
      rw [same, host, number]
      exact named_hostPort ip port

end

/-! ## The answers -/

/-- What a list of paths in an answer must be. -/
structure PathsOf (edges : List Edge) (start dest : String) (infos : List LiveInfo) : Prop where
  simple : ∀ info ∈ infos, IsPath (Arc edges) start dest info.hops
  distinct : (infos.map LiveInfo.hops).Nodup
  count : infos.length ≤ 3

section
variable {edges : List Edge} {start dest : String} {fuel : Nat}

theorem isNode_of_walk {p : List String} (walk : IsWalk (Arc edges) start dest p)
    (apart : start ≠ dest) :
    Routing.isNode edges start = true ∧ Routing.isNode edges dest = true := by
  have out : ∃ y, Arc edges start y := by
    refine walk.mem_sources start ?_
    obtain ⟨ends, rfl⟩ := List.getLast?_eq_some_iff.mp walk.last
    cases ends with
    | nil => exact absurd (by simpa using walk.first.symm) apart
    | cons a ends =>
      obtain rfl : a = start := by simpa using walk.first
      rw [List.dropLast_concat]
      exact List.mem_cons_self
  have into : ∃ y, Arc edges y dest :=
    (walk.mem_targets dest (List.mem_of_getLast? walk.last)).resolve_left (Ne.symm apart)
  obtain ⟨_, e, mem, rfl, -⟩ := out
  obtain ⟨_, e', mem', -, rfl⟩ := into
  constructor
  · exact List.any_eq_true.mpr ⟨e, mem, by simp⟩
  · exact List.any_eq_true.mpr ⟨e', mem', by simp⟩

/-- The paths of Yen's algorithm, in the order of a sort. -/
theorem pathsOf_sorted {k : Int} {A : List Routing.Path} {c : KShortestSolver.Candidates}
    (wf : WellFormed edges) (hstart : start ≠ "")
    (run : Routing.Rounds (Routing.newKShortestSolver edges k) start dest A c)
    {l : List Routing.Path} (sub : List.Subperm l A) (few : l.length ≤ 3)
    {f : Routing.Path → LiveInfo} (hops : ∀ p, (f p).hops = p.hops) :
    PathsOf edges start dest (l.map f) := by
  have proper := Routing.newKShortestSolverWithLatency_proper wf k false
  have inv := run.inv proper hstart
  have same : (l.map f).map LiveInfo.hops = l.map Routing.Path.hops := by
    rw [List.map_map]
    exact List.map_congr_left fun p _ => hops p
  refine ⟨fun info mem => ?_, ?_, by rwa [List.length_map]⟩
  · obtain ⟨p, inside, rfl⟩ := List.mem_map.mp mem
    rw [hops]
    exact (inv.found p (sub.subset inside)).path
  · rw [same]
    obtain ⟨l', perm, sublist⟩ := sub
    exact ((perm.map _).nodup_iff).mp (inv.distinct.sublist (sublist.map _))

theorem pathsOf_nil : PathsOf edges start dest [] := ⟨nofun, List.nodup_nil, Nat.zero_le _⟩

theorem kShortest_paths (wf : WellFormed edges) (apart : start ≠ dest)
    (enough : Routing.enoughFuel edges 3 ≤ fuel) :
    (∃ err, (Routing.newKShortestSolver edges 3).computing start dest fuel = some (.error err) ∧
      ∀ p, ¬ IsWalk (Arc edges) start dest p) ∨
    ∃ paths, (Routing.newKShortestSolver edges 3).computing start dest fuel = some (.ok paths) ∧
      paths ≠ [] ∧ PathsOf edges start dest
        (paths.map fun p => ⟨p.hops, p.rtt, (p.rawRTT : ℚ)⟩) ∧
      ∃ p, IsWalk (Arc edges) start dest p := by
  by_cases known : Routing.isNode edges start = true ∧ Routing.isNode edges dest = true
  · obtain ⟨err, eq, none⟩ | ⟨A, c, eq, run, -⟩ :=
      Routing.computing_spec wf false known.1 known.2 (by decide) enough
    · exact .inl ⟨err, eq, none⟩
    · have hstart := Routing.isNode_named wf known.1
      have proper := Routing.newKShortestSolverWithLatency_proper wf 3 false
      have perm := Sort.exchangeSort_perm Routing.Path.cost A
      have few : (Sort.exchangeSort Routing.Path.cost A).length ≤ 3 := by
        have three : (Routing.newKShortestSolverWithLatency edges 3 false).k = 3 :=
          Routing.newKShortestSolverWithLatency_k (by decide)
        have := run.length_le proper hstart (by rw [three]; decide)
        rw [three] at this
        rw [perm.length_eq]
        omega
      have inv := run.inv proper hstart
      obtain ⟨p, mem⟩ := List.exists_mem_of_ne_nil A inv.nonempty
      refine .inr ⟨_, eq, ?_, ?_, p.hops, (inv.found p mem).path.toIsWalk⟩
      · intro empty
        exact absurd (perm.mem_iff.mpr mem) (by simp [List.map_eq_nil_iff.mp empty])
      · rw [List.map_map]
        exact pathsOf_sorted wf hstart run perm.subperm few fun _ => rfl
  · have none : ∀ p, ¬ IsWalk (Arc edges) start dest p := fun p walk =>
      known (isNode_of_walk walk apart)
    have unknown : ∀ solver : KShortestSolver, solver.edges = edges →
        ∃ err, solver.computing start dest fuel = some (.error err) := by
      rintro solver rfl
      unfold KShortestSolver.computing
      by_cases first : Routing.isNode solver.edges start = false
      · exact ⟨_, if_pos first⟩
      · rw [if_neg first]
        rw [Bool.not_eq_false] at first
        rw [if_pos (Bool.eq_false_iff.mpr fun second => known ⟨first, second⟩)]
        exact ⟨_, rfl⟩
    obtain ⟨err, eq⟩ := unknown (Routing.newKShortestSolver edges 3) rfl
    exact .inl ⟨err, eq, none⟩

theorem liveStyle_paths (start dest : String) (wf : WellFormed edges)
    (enough : Routing.enoughFuel edges 5 ≤ fuel) :
    (∃ err, (Routing.newLiveStyleSolver edges 2).computing start dest fuel = some (.error err)) ∨
    ∃ infos, (Routing.newLiveStyleSolver edges 2).computing start dest fuel = some (.ok infos) ∧
      PathsOf edges start dest infos := by
  obtain ⟨res, eq, whether⟩ := Routing.liveStyle_returns wf 2 start dest enough
  cases res with
  | error err => exact .inl ⟨err, eq⟩
  | ok infos =>
    obtain ⟨known, -, -⟩ := whether.mp ⟨infos, rfl⟩
    have hstart := Routing.isNode_named wf known
    have proper := Routing.newKShortestSolverWithLatency_proper wf 5 false
    obtain ⟨hf₁, hf₂⟩ := Routing.enoughFuel_spec (by decide) enough
    obtain ⟨paths, found, rfl⟩ := Routing.liveStyle_ok (by decide) eq
    refine .inr ⟨_, eq, ?_⟩
    obtain ⟨err, failed, -⟩ | ⟨A, c, sorted, run, -⟩ :=
      Routing.yensAlgorithm_spec proper hstart dest hf₁ hf₂
    · have := failed.symm.trans found
      cases this
    · obtain rfl : Sort.exchangeSort Routing.Path.cost A = paths :=
        Except.ok.inj (Option.some.inj (sorted.symm.trans found))
      rw [Routing.selectTopPaths_eq (by decide)]
      refine pathsOf_sorted wf hstart run ?_ ?_ fun _ => rfl
      · refine (List.take_sublist _ _).subperm.trans ?_
        refine (Sort.exchangeSort_perm _ _).subperm.trans ?_
        exact List.filter_sublist.subperm.trans (Sort.exchangeSort_perm _ _).subperm
      · exact (List.length_take_le _ _).trans (by decide)

end

/-- **Routes for the listeners.** For an algorithm that there is, the answer has at most three
simple paths along edges of the graph, and without a word about the algorithm it has some if
there is a way at all. -/
theorem middle_paths {g : GraphManager} (wf : WellFormed g.getEdges) {start dest : String}
    (apart : start ≠ dest) {algorithm : String}
    (served : algorithm = "" ∨ algorithm = kShortest ∨ algorithm = liveStyle) {fuel : Nat}
    (enough : Routing.enoughFuel g.getEdges 5 ≤ fuel) :
    ∃ infos, middleRouting g start dest (if algorithm = "" then kShortest else algorithm) fuel =
        some (some infos) ∧ PathsOf g.getEdges start dest infos ∧
      (algorithm ≠ liveStyle → ((∃ p, IsWalk (Arc g.getEdges) start dest p) ↔ infos ≠ [])) := by
  by_cases live : algorithm = liveStyle
  · subst live
    have solver : initMiddleInterface g liveStyle =
        some (.liveStyle (Routing.newLiveStyleSolver g.getEdges 2)) := by
      rw [initMiddleInterface, if_neg (by decide), if_pos rfl]
    rw [if_neg (by decide)]
    obtain ⟨err, eq⟩ | ⟨infos, eq, paths⟩ := liveStyle_paths start dest wf enough
    · exact ⟨[], by simp only [middleRouting, solver, MiddleSolver.computing, eq], pathsOf_nil,
        fun no => absurd rfl no⟩
    · exact ⟨infos, by simp only [middleRouting, solver, MiddleSolver.computing, eq], paths,
        fun no => absurd rfl no⟩
  · have default : (if algorithm = "" then kShortest else algorithm) = kShortest := by
      split
      · rfl
      · rename_i given
        exact (served.resolve_left given).resolve_right live
    have solver : initMiddleInterface g kShortest =
        some (.kShortest (Routing.newKShortestSolver g.getEdges 3)) := by
      rw [initMiddleInterface, if_pos rfl]
    have enough' : Routing.enoughFuel g.getEdges 3 ≤ fuel := by
      simp only [Routing.enoughFuel] at enough ⊢
      omega
    rw [default]
    obtain ⟨err, eq, none⟩ | ⟨paths, eq, some, sound, walk⟩ := kShortest_paths wf apart enough'
    · have answer : middleRouting g start dest kShortest fuel = some (some []) := by
        simp only [middleRouting, solver, MiddleSolver.computing, eq, Option.map_some]
        rfl
      exact ⟨[], answer, pathsOf_nil,
        fun _ => iff_of_false (fun walks => walks.elim none) (absurd rfl)⟩
    · refine ⟨_, ?_, sound, fun _ => iff_of_true walk (by simpa using some)⟩
      simp only [middleRouting, solver, MiddleSolver.computing, eq, Option.map_some]
      rfl

end SkyAccel.Control
