import SkyAccel.Lib.Net
import SkyAccel.Control.Probing

/-!
# Several origins on one host

The results of a probing round on their way to the graph, for targets that are origins.
An origin is known to the graph by its address, `IP:Port`, but the latest results are
kept by IP. Of the origins on one host the last in the round replaces the others, and an
edge that is in the graph already keeps the latency it has. `origins_kept_iff` says for
which rounds and graphs every origin has its edge with the latency measured.
-/

namespace SkyAccel.Control

def Result.isSource (r : Result) : Prop := r.target.targetType = "source"

/-- Origins of one round have different addresses. -/
def Apart (results : List Result) : Prop :=
  results.Pairwise fun a b => a.isSource → b.isSource →
    (a.target.ip, a.target.port) ≠ (b.target.ip, b.target.port)

theorem Apart.eq {results : List Result} (apart : Apart results) {a b : Result}
    (ha : a ∈ results) (hb : b ∈ results) (sa : a.isSource) (sb : b.isSource)
    (ip : a.target.ip = b.target.ip) (port : a.target.port = b.target.port) : a = b := by
  by_contra ne
  have : Std.Symm fun a b : Result => a.isSource → b.isSource →
      (a.target.ip, a.target.port) ≠ (b.target.ip, b.target.port) :=
    ⟨fun _ _ different sb sa => (different sa sb).symm⟩
  exact List.Pairwise.forall apart ha hb ne sa sb (by rw [ip, port])

section
variable (g : GraphManager) (publicIP : String) (m : LatestResults) (results : List Result)
  (r : Result)

/-- The key of the edge from the node to an origin. -/
def originKey : String := publicIP ++ "->" ++ sourceAddress r.target

/-- The edge from the node to an origin is in the graph, with the latency measured. -/
def Leads (edges : Dict String Routing.Edge) : Prop :=
  ∃ e, edges.lookup (originKey publicIP r) = some e ∧
    e.sourceIp = publicIP ∧ e.destinationIp = sourceAddress r.target ∧
    e.latency = milliseconds r.avgRTT

/-- A result for a known node whose IP reads like the address of the origin, so that its
link asks for the same edge. -/
def Clash (c : Result) : Prop :=
  (lastFor results (sourceAddress r.target)).or (m.results.lookup (sourceAddress r.target)) =
      some c ∧
    ¬ c.isSource ∧ (sourceAddress r.target = publicIP ∨ sourceAddress r.target ∈ g.nodes)

/-- The graph has the right edge already, or it has none and gets it: the result is the
last of the round for its IP, and no result for a node gets in between. -/
def Kept : Prop :=
  Leads publicIP r g.edges ∨
    g.edges.lookup (originKey publicIP r) = none ∧
      (∀ c, Clash g publicIP m results r c → milliseconds c.avgRTT = milliseconds r.avgRTT) ∧
      (lastFor results r.target.ip = some r ∨ ∃ c, Clash g publicIP m results r c)

/-- A latest result whose link asks for the edge to the origin. -/
def Asks (r' : Result) : Prop :=
  (updateLatestResults m results).results.lookup r'.target.ip = some r' ∧
    (r'.isSource ∧ r'.target.ip = r.target.ip ∧ r'.target.port = r.target.port ∨
      ¬ r'.isSource ∧ r'.target.ip = sourceAddress r.target ∧
        (sourceAddress r.target = publicIP ∨ sourceAddress r.target ∈ g.nodes))

end

section
variable {g : GraphManager} {publicIP : String} {usage : ℚ} {m : LatestResults}
  {results : List Result} {r : Result}

theorem asks_iff (apart : Apart results) (mem : r ∈ results) (origin : r.isSource) {r' : Result} :
    Asks g publicIP m results r r' ↔
      r' = r ∧ lastFor results r.target.ip = some r ∨ Clash g publicIP m results r r' := by
  constructor
  · rintro ⟨found, ⟨origin', ip, port⟩ | ⟨other, ip, known⟩⟩
    · left
      obtain ⟨last, eq⟩ : ∃ last, lastFor results r.target.ip = some last :=
        Dict.exists_lastOf mem
      rw [lookup_updateLatestResults, ip, eq, Option.some_or] at found
      obtain rfl := Option.some.inj found
      have same := apart.eq (Dict.of_lastOf eq).1 mem origin' origin ip port
      exact ⟨same, same ▸ eq⟩
    · right
      rw [lookup_updateLatestResults, ip] at found
      exact ⟨found, other, known⟩
  · rintro (⟨rfl, last⟩ | ⟨found, other, known⟩)
    · refine ⟨?_, .inl ⟨origin, rfl, rfl⟩⟩
      rw [lookup_updateLatestResults, last, Option.some_or]
    · rw [← lookup_updateLatestResults] at found
      have ip := (updateLatestResults m results).filed _ _ found
      refine ⟨?_, .inr ⟨other, ip, known⟩⟩
      rw [ip]
      exact found

/-- Where the edge of a link leads. -/
theorem reported_ends {math : Math} {nodes : Dict String NodeTelemetry} {node : NodeTelemetry}
    {v : LinkCongestion} {e : Routing.Edge} (h : reported math nodes node v = some e) :
    e.sourceIp = node.publicIP ∧ e.latency = v.averageLatency ∧
      (v.target.targetType = "source" ∧ e.destinationIp = sourceAddress v.target ∨
        v.target.targetType ≠ "source" ∧ e.destinationIp = v.target.ip ∧ v.target.ip ∈ nodes) := by
  unfold reported at h
  split at h
  · rename_i origin
    obtain rfl := Option.some.inj h
    exact ⟨rfl, rfl, .inl ⟨origin, rfl⟩⟩
  · rename_i other
    split at h
    · cases h
    · rename_i outNode found
      obtain rfl := Option.some.inj h
      exact ⟨rfl, rfl, .inr ⟨other, rfl, Dict.mem_iff.mpr ⟨outNode, found⟩⟩⟩

theorem exists_reported (math : Math) {nodes : Dict String NodeTelemetry} (node : NodeTelemetry)
    {v : LinkCongestion} (h : v.target.targetType = "source" ∨ v.target.ip ∈ nodes) :
    ∃ e, reported math nodes node v = some e := by
  unfold reported
  split
  · exact ⟨_, rfl⟩
  · rename_i other
    obtain ⟨outNode, found⟩ := Dict.mem_iff.mp (h.resolve_left other)
    rw [found]
    exact ⟨_, rfl⟩

theorem mem_knownNodes {node : NodeTelemetry} {ip : String} :
    ip ∈ knownNodes g node ↔ ip = node.publicIP ∨ ip ∈ g.nodes := AList.mem_insert _

theorem Reports.publicIP_eq {m : LatestResults} {node : NodeTelemetry}
    (h : Reports m publicIP usage node) : node.publicIP = publicIP := by
  obtain ⟨_, -, same, -⟩ := h
  exact same

/-- The edges of the report under the key of the origin. -/
def asked (math : Math) (g : GraphManager) (node : NodeTelemetry) (publicIP : String)
    (r : Result) : List Routing.Edge :=
  (report math g node).filter (edgeKey · = originKey publicIP r)

/-- They are those of the results that ask for it. -/
theorem mem_asked {math : Math} {node : NodeTelemetry}
    (h : Reports (updateLatestResults m results) publicIP usage node) {e : Routing.Edge} :
    e ∈ asked math g node publicIP r ↔ ∃ r', Asks g publicIP m results r r' ∧
      reported math (knownNodes g node) node r'.link = some e := by
  rw [asked, List.mem_filter, decide_eq_true_iff]
  constructor
  · rintro ⟨mem, key⟩
    obtain ⟨v, inside, link⟩ := List.mem_filterMap.mp mem
    obtain ⟨r', found, rfl⟩ := (mem_linksCongestion h).mp inside
    obtain ⟨src, -, ends⟩ := reported_ends link
    rw [edgeKey, src, h.publicIP_eq] at key
    have dst : e.destinationIp = sourceAddress r.target := (String.append_right_inj _).mp key
    refine ⟨r', ⟨found, ?_⟩, link⟩
    obtain ⟨origin, eq⟩ | ⟨other, eq, known⟩ := ends
    · obtain ⟨ip, port⟩ := Net.host_port_inj (eq.symm.trans dst)
      exact .inl ⟨origin, ip, port⟩
    · have ip : r'.target.ip = sourceAddress r.target := eq.symm.trans dst
      refine .inr ⟨other, ip, ?_⟩
      rw [← ip, ← h.publicIP_eq]
      exact mem_knownNodes.mp known
  · rintro ⟨r', ⟨found, ask⟩, link⟩
    obtain ⟨src, -, ends⟩ := reported_ends link
    refine ⟨List.mem_filterMap.mpr ⟨_, (mem_linksCongestion h).mpr ⟨r', found, rfl⟩, link⟩, ?_⟩
    have dst : e.destinationIp = sourceAddress r.target := by
      obtain ⟨origin, ip, port⟩ | ⟨other, ip, -⟩ := ask
      · obtain ⟨-, eq⟩ | ⟨other, -⟩ := ends
        · rw [eq, sourceAddress, sourceAddress, ← ip, ← port]
          rfl
        · exact absurd origin other
      · obtain ⟨origin, -⟩ | ⟨-, eq, -⟩ := ends
        · exact absurd origin other
        · exact eq.trans ip
    rw [edgeKey, src, h.publicIP_eq, dst, originKey]

theorem reports_doClusterWeightedAvg (m : LatestResults) (publicIP : String) (usage : ℚ) :
    Reports m publicIP usage
      (doClusterWeightedAvg publicIP usage (buildLinkCongestion m.results.entries)) :=
  ⟨_, .refl _, rfl, rfl, .refl _⟩

/-- Any latest result comes first in some report. -/
theorem exists_report_first (m : LatestResults) (publicIP : String) (usage : ℚ) {r' : Result}
    (found : m.results.lookup r'.target.ip = some r') :
    ∃ rest, Reports m publicIP usage ⟨publicIP, usage, r'.link :: rest⟩ := by
  have mem := (mem_linksCongestion (reports_doClusterWeightedAvg m publicIP usage)).mpr
    ⟨r', found, rfl⟩
  exact ⟨_, _, .refl _, rfl, rfl, (List.perm_cons_erase mem).symm⟩

theorem asks_reported (math : Math) {node : NodeTelemetry}
    (h : Reports (updateLatestResults m results) publicIP usage node) {r' : Result}
    (ask : Asks g publicIP m results r r') :
    ∃ e, reported math (knownNodes g node) node r'.link = some e := by
  apply exists_reported
  obtain ⟨-, ⟨origin, -⟩ | ⟨-, ip, known⟩⟩ := ask
  · exact .inl origin
  · right
    rw [mem_knownNodes, h.publicIP_eq]
    change r'.target.ip = publicIP ∨ r'.target.ip ∈ g.nodes
    rw [ip]
    exact known

/-- Without an edge before the report, the first that is asked for stays but for its
weight. -/
theorem lookup_of_new {math : Math} {node : NodeTelemetry}
    (new : g.edges.lookup (originKey publicIP r) = none) {first : Routing.Edge}
    {rest : List Routing.Edge} (eq : asked math g node publicIP r = first :: rest) :
    ∃ w, (g.addNode math node).edges.lookup (originKey publicIP r) =
      some { first with edgeWeight := w } := by
  rw [asked] at eq
  rw [addNode_eq, lookup_foldl_putEdge, new, eq]
  exact foldl_overwrite_some rest first

theorem leads_of_asks {math : Math} (new : g.edges.lookup (originKey publicIP r) = none)
    (agree : ∀ r', Asks g publicIP m results r r' →
      milliseconds r'.avgRTT = milliseconds r.avgRTT)
    {r' : Result} (ask : Asks g publicIP m results r r') {node : NodeTelemetry}
    (h : Reports (updateLatestResults m results) publicIP usage node) :
    Leads publicIP r (g.addNode math node).edges := by
  obtain ⟨e, link⟩ := asks_reported math h ask
  have some : e ∈ asked math g node publicIP r := (mem_asked h).mpr ⟨r', ask, link⟩
  obtain ⟨first, rest, eq⟩ := List.exists_cons_of_ne_nil (List.ne_nil_of_mem some)
  have inside : first ∈ asked math g node publicIP r := eq ▸ List.mem_cons_self
  obtain ⟨r', ask, link⟩ := (mem_asked h).mp inside
  obtain ⟨src, latency, -⟩ := reported_ends link
  obtain ⟨w, stored⟩ := lookup_of_new new eq
  refine ⟨_, stored, src.trans h.publicIP_eq, ?_, ?_⟩
  · have key := of_decide_eq_true (List.mem_filter.mp inside).2
    rw [edgeKey, src, h.publicIP_eq] at key
    exact (String.append_right_inj _).mp key
  · change first.latency = _
    rw [latency, ← agree r' ask]
    rfl

/-- If the origin gets its edge in every order, some result asks for it, and all that do
have the latency measured: any of them can come first. -/
theorem asks_of_leads {math : Math} (new : g.edges.lookup (originKey publicIP r) = none)
    (all : ∀ node, Reports (updateLatestResults m results) publicIP usage node →
      Leads publicIP r (g.addNode math node).edges) :
    (∀ r', Asks g publicIP m results r r' → milliseconds r'.avgRTT = milliseconds r.avgRTT) ∧
      ∃ r', Asks g publicIP m results r r' := by
  constructor
  · intro r' ask
    obtain ⟨rest, h⟩ := exists_report_first _ publicIP usage ask.1
    obtain ⟨e, link⟩ := asks_reported math h ask
    obtain ⟨-, key⟩ := List.mem_filter.mp ((mem_asked h).mpr ⟨r', ask, link⟩)
    obtain ⟨later, first⟩ : ∃ later,
        asked math g ⟨publicIP, usage, r'.link :: rest⟩ publicIP r = e :: later := by
      rw [asked, report, List.filterMap_cons_some link]
      exact ⟨_, List.filter_cons_of_pos key⟩
    obtain ⟨w, stored⟩ := lookup_of_new new first
    obtain ⟨e', found, -, -, latency⟩ := all _ h
    rw [stored] at found
    obtain rfl := Option.some.inj found
    have measured : e.latency = milliseconds r'.avgRTT := (reported_ends link).2.1
    exact Nat.cast_injective (measured.symm.trans latency)
  · have h := reports_doClusterWeightedAvg (updateLatestResults m results) publicIP usage
    obtain ⟨e, found, -⟩ := all _ h
    by_contra none
    have nothing : asked math g _ publicIP r = [] := List.eq_nil_iff_forall_not_mem.mpr
      fun e mem => none (((mem_asked h).mp mem).imp fun _ => And.left)
    rw [asked] at nothing
    rw [addNode_eq, lookup_foldl_putEdge, new, nothing] at found
    cases found

theorem leads_iff_of_old {math : Math} {node : NodeTelemetry} {old : Routing.Edge}
    (found : g.edges.lookup (originKey publicIP r) = some old) :
    Leads publicIP r (g.addNode math node).edges ↔ Leads publicIP r g.edges := by
  obtain ⟨w, eq⟩ := foldl_overwrite_some (asked math g node publicIP r) old
  rw [asked] at eq
  rw [Leads, Leads, addNode_eq, lookup_foldl_putEdge, found, eq]
  simp

theorem kept_iff (math : Math) (usage : ℚ) (apart : Apart results) (mem : r ∈ results)
    (origin : r.isSource) :
    (∀ node, Reports (updateLatestResults m results) publicIP usage node →
      Leads publicIP r (g.addNode math node).edges) ↔ Kept g publicIP m results r := by
  have asks : ∀ r', Asks g publicIP m results r r' ↔
      r' = r ∧ lastFor results r.target.ip = some r ∨ Clash g publicIP m results r r' :=
    fun r' => asks_iff apart mem origin
  cases found : g.edges.lookup (originKey publicIP r) with
  | some old =>
    have kept : Kept g publicIP m results r ↔ Leads publicIP r g.edges := by
      simp [Kept, found]
    rw [kept]
    constructor
    · intro all
      exact (leads_iff_of_old found).mp (all _ (reports_doClusterWeightedAvg _ publicIP usage))
    · exact fun before node _ => (leads_iff_of_old found).mpr before
  | none =>
    constructor
    · intro all
      obtain ⟨agree, r', ask⟩ := asks_of_leads found all
      refine .inr ⟨found, fun c clash => agree c ((asks c).mpr (.inr clash)), ?_⟩
      obtain ⟨-, last⟩ | clash := (asks r').mp ask
      · exact .inl last
      · exact .inr ⟨r', clash⟩
    · rintro (⟨e, there, -⟩ | ⟨-, agree, some⟩) node h
      · rw [found] at there
        cases there
      · have all : ∀ r', Asks g publicIP m results r r' →
            milliseconds r'.avgRTT = milliseconds r.avgRTT := by
          intro r' ask
          obtain ⟨rfl, -⟩ | clash := (asks r').mp ask
          · rfl
          · exact agree r' clash
        obtain last | ⟨c, clash⟩ := some
        · exact leads_of_asks found all ((asks r).mpr (.inl ⟨rfl, last⟩)) h
        · exact leads_of_asks found all ((asks c).mpr (.inr clash)) h

end

/-- **An origin keeps its edge.** After a round whose origins have different addresses
each has its edge with the latency measured, whatever order the maps are taken in, exactly
if each was in the graph like that or is new and the last of its host in the round. -/
theorem origins_kept_iff (math : Math) (g : GraphManager) (publicIP : String) (usage : ℚ)
    (m : LatestResults) (results : List Result) (apart : Apart results) :
    (∀ node, Reports (updateLatestResults m results) publicIP usage node →
        ∀ r ∈ results, r.isSource → Leads publicIP r (g.addNode math node).edges) ↔
      ∀ r ∈ results, r.isSource → Kept g publicIP m results r := by
  constructor
  · intro h r mem origin
    exact (kept_iff math usage apart mem origin).mp fun node reports =>
      h node reports r mem origin
  · intro h node reports r mem origin
    exact (kept_iff math usage apart mem origin).mpr (h r mem origin) node reports

/-- The result for an origin that answered each of five attempts after `ms` milliseconds. -/
def originResult (ip : String) (port : Int) (ms : Nat) : Result :=
  doProbeLossRTT ⟨"source", ip, port⟩ (List.replicate 5 (.answered (ms * 1000000)))

/-- Two origins on one host: the second leaves no edge to the first. -/
theorem origin_replaced :
    let results := [originResult "10.0.0.9" 80 30, originResult "10.0.0.9" 443 40]
    let m := updateLatestResults .empty results
    let node := doClusterWeightedAvg "a" 0 (buildLinkCongestion m.results.entries)
    Apart results ∧ Reports m "a" 0 node ∧
      (newGraphManager.addNode unitMath node).edges.lookup "a->10.0.0.9:80" = none ∧
      ((newGraphManager.addNode unitMath node).edges.lookup "a->10.0.0.9:443").map
        Routing.Edge.latency = some 40 := by
  refine ⟨?_, reports_doClusterWeightedAvg _ _ _, by decide +kernel, by decide +kernel⟩
  unfold Apart Result.isSource
  decide

/-- Two origins on two hosts. -/
theorem origins_kept_two :
    let results := [originResult "10.0.0.8" 80 30, originResult "10.0.0.9" 443 40]
    let m := updateLatestResults .empty results
    let node := doClusterWeightedAvg "a" 0 (buildLinkCongestion m.results.entries)
    Leads "a" (originResult "10.0.0.8" 80 30) (newGraphManager.addNode unitMath node).edges ∧
      Leads "a" (originResult "10.0.0.9" 443 40)
        (newGraphManager.addNode unitMath node).edges := by
  intro results m node
  have apart : Apart results := by
    unfold Apart Result.isSource
    decide
  have kept : ∀ r ∈ results, r.isSource → Kept newGraphManager "a" .empty results r := by
    intro r mem _
    have alone : lastFor results (sourceAddress r.target) = none ∧
        lastFor results r.target.ip = some r := by
      simp only [results, List.mem_cons, List.not_mem_nil, or_false] at mem
      obtain rfl | rfl := mem
      · decide +kernel
      · decide +kernel
    refine .inr ⟨rfl, ?_, .inl alone.2⟩
    rintro c ⟨found, -⟩
    rw [alone.1] at found
    cases found
  have leads := (origins_kept_iff unitMath newGraphManager "a" 0 .empty results apart).mpr kept
    node (reports_doClusterWeightedAvg _ _ _)
  exact ⟨leads _ (by simp [results]) rfl, leads _ (by simp [results]) rfl⟩

end SkyAccel.Control
