import SkyAccel.Control.RouteAPI
import SkyAccel.Server.RouteCache
import SkyAccel.Server.RoundTrip

/-!
# From a report to a request on its way

The nodes probe what the control plane tells them, the control plane makes a graph of what
they report, and a listener asks it for the way to the origin that belongs to its port. The
paths in the answer are routes (`exists_routes`): addresses of nodes, each with an edge to
the next one, and the address of the origin at the end. A request that the listener sends along
one that fits into the header passes through those nodes and ends at that origin.
-/

namespace SkyAccel.Network

open Aggregator (Config FrameOf AggregatorMsg)
open Control (Call GraphManager NodeTelemetry Math SourceTarget Probed Configured
  getMiddleRoute hostPort reached)
open Net (ipString)
open Routing (Arc LiveInfo enoughFuel)
open Server (Route RoutingInfo ProxyConfig Delivers handleConnection selectRoute testRoute
  getRoutingFromControlPlane)
open Tunnel (SubPacket encodeAll maxHops)
open Walk (IsWalk IsPath)

/-- The data of an answer, as the listener reads it. -/
def answerInfo (infos : List LiveInfo) : RoutingInfo :=
  ⟨infos.map fun info => ⟨info.hops, info.rtt, info.rawRTT.untopD 0⟩⟩

/-- A way through nodes that are there, along edges that are there. -/
structure Leads (g : GraphManager) (first : UInt32) (origin : String) (r : Route) : Prop where
  first : r.ips.head? = some first
  origin : r.originAddr = origin
  nodes : ∀ ip ∈ r.ips.dropLast, ipString ip ∈ g.nodes
  once : r.ips.dropLast.Nodup
  edges : r.hops.IsChain (Arc g.getEdges)

section
variable {g : GraphManager}

theorem hostPort_ne (a o : UInt32) (port : UInt16) : ipString a ≠ hostPort o port := by
  intro same
  have colon : ':' ∈ (ipString a).toList := by
    rw [same, hostPort]
    simp
  obtain digit | dot := Net.ipString_chars a _ colon
  · exact absurd digit (by decide)
  · exact absurd dot (by decide)

/-- A path to an origin through addresses is the list of hops of a route. -/
theorem exists_route (addressed : ∀ ip ∈ g.nodes, ∃ a, ip = ipString a)
    (sources : ∀ e ∈ g.getEdges, e.sourceIp ∈ g.nodes) {a o : UInt32} {port : UInt16}
    (port_ne : port ≠ 0) {p : List String}
    (path : IsPath (Arc g.getEdges) (ipString a) (hostPort o port) p) :
    ∃ r : Route, r.hops = p ∧ Leads g a (hostPort o port) r ∧ r.origin = o := by
  obtain ⟨ends, rfl⟩ := List.getLast?_eq_some_iff.mp path.last
  have inside : ∀ x ∈ ends, x ∈ g.nodes := fun x mem => by
    obtain ⟨_, e, edge, rfl, -⟩ := path.mem_sources x (by rwa [List.dropLast_concat])
    exact sources e edge
  obtain ⟨ips, rfl⟩ : ∃ ips, List.map ipString ips = ends := by
    have range : ends ∈ Set.range (List.map ipString) := by
      rw [Set.range_list_map]
      exact fun x mem => (addressed x (inside x mem)).imp fun _ same => same.symm
    exact range
  cases ips with
  | nil => exact absurd (by simpa using path.first.symm) (hostPort_ne a o port)
  | cons b ips =>
    obtain rfl : a = b := Net.ipString_injective (by simpa using path.first.symm)
    let r : Route := ⟨a :: ips ++ [o], port, by simp, port_ne⟩
    have origin : r.origin = o := r.origin_eq (a :: ips) rfl
    have drop : r.ips.dropLast = a :: ips := List.dropLast_concat
    have address : r.originAddr = hostPort o port := by rw [Route.originAddr, origin, hostPort]
    have hops : r.hops = (a :: ips).map ipString ++ [hostPort o port] := by
      rw [Route.hops, drop, address]
    refine ⟨r, hops, ⟨rfl, address, fun ip mem => ?_, ?_, hops ▸ path.chain⟩, origin⟩
    · exact inside _ (List.mem_map_of_mem (drop ▸ mem))
    · rw [drop]
      exact (List.Nodup.of_append_left path.nodup).of_map _

/-- All paths of an answer are. -/
theorem exists_routes (addressed : ∀ ip ∈ g.nodes, ∃ a, ip = ipString a)
    (sources : ∀ e ∈ g.getEdges, e.sourceIp ∈ g.nodes) {a o : UInt32} {port : UInt16}
    (port_ne : port ≠ 0) {infos : List LiveInfo}
    (paths : ∀ info ∈ infos, IsPath (Arc g.getEdges) (ipString a) (hostPort o port) info.hops) :
    ∃ routes : List Route, routes.map Route.hops = infos.map LiveInfo.hops ∧
      ∀ r ∈ routes, Leads g a (hostPort o port) r ∧ r.origin = o := by
  induction infos with
  | nil => exact ⟨[], rfl, nofun⟩
  | cons info infos ih =>
    obtain ⟨first, rest⟩ := List.forall_mem_cons.mp paths
    obtain ⟨r, hops, leads⟩ := exists_route addressed sources port_ne first
    obtain ⟨routes, same, all⟩ := ih rest
    exact ⟨r :: routes, by simp [hops, same], List.forall_mem_cons.mpr ⟨leads, all⟩⟩

end

/-- **From a report to a request on its way.** Let every node probe what it is told and report
what it measures. Then a listener's request for a route is answered, and not with an empty list
if there is a way and no algorithm is named. The paths in the answer are routes to the origin of
the port, and a request that the listener sends along one of three or four hops goes from node
to node of the route to that origin. -/
theorem request_served {unmarshalNode : String → Option NodeTelemetry}
    {sourceTargetMap : Dict Int SourceTarget} {math : Math} {calls : List Call}
    (pow_nonneg : ∀ x y, 0 ≤ x → 0 ≤ math.pow x y) (configured : Configured sourceTargetMap)
    (probed : ∀ node, .addNode node ∈ calls → Probed unmarshalNode sourceTargetMap node)
    {a : UInt32} {serverPort : Int} {v : SourceTarget}
    (target : sourceTargetMap.lookup serverPort = some v) {algorithm : String}
    (served : algorithm = "" ∨ algorithm = Control.kShortest ∨ algorithm = Control.liveStyle)
    {fuel : Nat} (enough : enoughFuel (reached math calls).getEdges 5 ≤ fuel) :
    ∃ infos, getMiddleRoute (reached math calls) sourceTargetMap (.ok ⟨ipString a, serverPort⟩)
        algorithm fuel = some (.response 200 "Successfully obtained path" infos) ∧
      (algorithm ≠ Control.liveStyle →
        ((∃ p, IsWalk (Arc (reached math calls).getEdges) (ipString a)
          (v.ip ++ ":" ++ toString v.port) p) ↔ infos ≠ [])) ∧
      ∃ routes : List Route, routes.map Route.hops = infos.map LiveInfo.hops ∧
        (∀ r ∈ routes, Leads (reached math calls) a (v.ip ++ ":" ++ toString v.port) r) ∧
        ∀ r, selectRoute routes = some r → 3 ≤ r.ips.length → r.ips.length ≤ maxHops →
          ∀ (proxy : ProxyConfig) (info : RoutingInfo) (cfg : Config) (reqID : UInt32)
            (conn : List UInt8) (msg : AggregatorMsg) (subs : List SubPacket) (frame : List UInt8),
          testRoute proxy serverPort = none →
          getRoutingFromControlPlane proxy serverPort (.response 200 (answerInfo infos)) = some info →
          handleConnection (info.routing.map Server.PathInfo.hops) reqID conn = .add msg →
          FrameOf cfg msg subs frame → (encodeAll subs).length < 65536 →
          Delivers r msg subs frame := by
  have wf := Control.edges_wellFormed pow_nonneg configured probed
  have fits := Control.fits_reached (Control.edgeRisk_nonneg pow_nonneg) calls
  obtain ⟨o, port, host, origin_ne, number, port_ne⟩ := configured serverPort v target
  have address : v.ip ++ ":" ++ toString v.port = hostPort o port := by
    rw [host, number]
    rfl
  obtain ⟨infos, answer, paths, some⟩ :=
    Control.middle_paths wf (hostPort_ne a o port) served enough
  have addressed : ∀ ip ∈ (reached math calls).nodes, ∃ b, ip = ipString b := fun ip mem => by
    obtain ⟨node, call, rfl⟩ := Control.mem_nodes_reached mem
    exact (probed node call).addressed
  have sources : ∀ e ∈ (reached math calls).getEdges, e.sourceIp ∈ (reached math calls).nodes :=
    fun e mem => by
      obtain ⟨k, found⟩ := Dict.mem_values.mp mem
      exact (fits k e found).src
  obtain ⟨routes, same, all⟩ := exists_routes addressed sources port_ne paths.simple
  rw [address]
  refine ⟨infos, ?_, some, routes, same, fun r mem => (all r mem).1, ?_⟩
  · simp only [getMiddleRoute, target, address, answer, Option.map_some]
  · intro r selected three four proxy info cfg reqID conn msg subs frame untested got accepted
      sent short
    have mem : r ∈ routes := by
      obtain found | ⟨-, first⟩ := Option.or_eq_some_iff.mp selected
      · exact List.mem_of_find?_eq_some found
      · exact List.mem_of_head? first
    have origin : r.origin ≠ 0 := by rwa [(all r mem).2]
    simp only [getRoutingFromControlPlane, untested] at got
    obtain rfl := Option.some.inj got
    have hops : (answerInfo infos).routing.map Server.PathInfo.hops = routes.map Route.hops := by
      rw [same, answerInfo, List.map_map]
      rfl
    rw [hops] at accepted
    obtain ⟨data, read, rfl⟩ := Server.handleConnection_eq selected accepted
    exact (Server.delivers_iff sent).mpr
      ⟨⟨three, four⟩, origin, Server.readBytes_ne_nil read, short⟩

/-! ### Two nodes and an origin -/

def oneOrigin : Dict Int SourceTarget := Control.loadSourceTargets [⟨8080, "10.0.0.3", 80⟩]

def secondNode : String → Option NodeTelemetry := fun s =>
  if s = "second" then some ⟨"10.0.0.2", 0, []⟩ else none

/-- The second node has probed the origin, and the first has probed the second. -/
def twoReports : List Call :=
  [.addNode ⟨"10.0.0.2", 0, [⟨⟨"source", "10.0.0.3", 80⟩, 0, 150⟩]⟩,
    .addNode ⟨"10.0.0.1", 0, [⟨⟨"node", "10.0.0.2", 7083⟩, 0, 150⟩]⟩]

theorem oneOrigin_configured : Configured oneOrigin := by
  intro serverPort v found
  have all : ∀ x ∈ oneOrigin.entries, x.2 = ⟨8080, "10.0.0.3", 80⟩ := by decide +kernel
  obtain rfl := all _ (AList.mem_lookup_iff.mp found)
  exact ⟨167772163, 80, by decide +kernel, by decide, by decide, by decide⟩

theorem twoReports_probed (node : NodeTelemetry) (mem : .addNode node ∈ twoReports) :
    Probed secondNode oneOrigin node := by
  have source : oneOrigin.lookup 8080 = some ⟨8080, "10.0.0.3", 80⟩ := by decide +kernel
  simp only [twoReports, List.mem_cons, Call.addNode.injEq, List.not_mem_nil, or_false] at mem
  obtain rfl | rfl := mem
  · refine ⟨⟨167772162, by decide +kernel⟩, fun v mem => ?_, fun v mem => ?_⟩
    · obtain rfl := List.mem_singleton.mp mem
      exact ⟨"", fun _ _ => 1, ∅, Control.mem_getProbeTasks.mpr (.inr ⟨8080, _, source, rfl⟩)⟩
    · obtain rfl := List.mem_singleton.mp mem
      decide +kernel
  · refine ⟨⟨167772161, by decide +kernel⟩, fun v mem => ?_, fun v mem => ?_⟩
    · obtain rfl := List.mem_singleton.mp mem
      refine ⟨"", fun _ _ => 1, AList.insert "key" "second" ∅,
        Control.mem_getProbeTasks.mpr (.inl ⟨⟨"key", "second"⟩, by decide +kernel, ?_⟩)⟩
      exact ⟨⟨"10.0.0.2", 0, []⟩, by decide +kernel, by decide, rfl⟩
    · obtain rfl := List.mem_singleton.mp mem
      decide +kernel

/-- A line of text that a client sends to the first node. -/
theorem request_served_line :
    getMiddleRoute (reached Control.unitMath twoReports) oneOrigin (.ok ⟨"10.0.0.1", 8080⟩) "" 20 =
        some (.response 200 "Successfully obtained path"
          [⟨["10.0.0.1", "10.0.0.2", "10.0.0.3:80"], 1, (0 : ℚ)⟩]) ∧
      ∃ r : Route, r.hops = ["10.0.0.1", "10.0.0.2", "10.0.0.3:80"] ∧
        Delivers r ((Server.lineRoute 3 (by decide)).message false "tcp" 7 [104, 10])
          [⟨7, [104, 10]⟩] [1, 10, 0, 0, 1, 10, 0, 0, 2, 10, 0, 0, 3, 0, 0, 0, 0, 0, 8, 0, 80, 6, 0,
            0, 0, 0, 0, 7, 0, 2, 104, 10] := by
  have computed : getMiddleRoute (reached Control.unitMath twoReports) oneOrigin
      (.ok ⟨ipString 167772161, 8080⟩) "" 20 = some (.response 200 "Successfully obtained path"
        [⟨["10.0.0.1", "10.0.0.2", "10.0.0.3:80"], 1, (0 : ℚ)⟩]) := by decide +kernel
  have target : oneOrigin.lookup 8080 = some ⟨8080, "10.0.0.3", 80⟩ := by decide +kernel
  obtain ⟨infos, answer, -, routes, same, leads, delivers⟩ :=
    request_served (a := 167772161) (fun _ _ h => h) oneOrigin_configured twoReports_probed target
      (.inl rfl)
      (show enoughFuel (reached Control.unitMath twoReports).getEdges 5 ≤ 20 by decide +kernel)
  rw [computed] at answer
  obtain ⟨-, -, rfl⟩ := Control.Reply.response.inj (Option.some.inj answer)
  obtain ⟨r, rfl, hops⟩ := List.map_eq_singleton_iff.mp same
  have length : r.ips.length = 3 := by rw [← r.length_hops, hops]; rfl
  have selected : selectRoute [r] = some r := by simp [selectRoute, length]
  exact ⟨by decide +kernel, r, hops, delivers r selected (by rw [length]) (by rw [length]; decide)
    ⟨"10.0.0.1", ∅⟩ _ Aggregator.shipped 7 [104, 10] _ _ _ rfl rfl (by decide +kernel)
    (.emerge (by decide) (by decide +kernel)) (by decide)⟩

end SkyAccel.Network
