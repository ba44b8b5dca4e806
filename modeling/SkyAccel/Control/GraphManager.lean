import SkyAccel.Lib.Dict
import SkyAccel.Routing.Graph

/-!
# The graph manager

`routing/graph/update-graph.go`. A report of a node gives the node's telemetry and its
links to other nodes and to origins; each link that is not skipped asks for an edge
(`reported`). Numbers are exact rationals, and `math.Pow` and `math.Exp` are
parameters.

`reachable_sound` is the invariant of the graph. `refreshed_iff` says when a report is
in the graph afterwards: `AddNode` gives an edge that exists a new weight only.
-/

namespace SkyAccel.Control

open Routing (Edge OnePerPair)

structure Math where
  pow : ℚ → ℚ → ℚ
  exp : ℚ → ℚ

structure ProbeTask where
  targetType : String
  ip : String
  port : Int
  deriving DecidableEq

structure LinkCongestion where
  target : ProbeTask
  packetLoss : ℚ
  averageLatency : ℚ
  deriving DecidableEq

/-- The links are listed in the order in which the loop over the map meets them. -/
structure NodeTelemetry where
  publicIP : String
  cpuPressure : ℚ
  linksCongestion : List LinkCongestion
  deriving DecidableEq

structure GraphManager where
  edges : Dict String Edge
  nodes : Dict String NodeTelemetry

def newGraphManager : GraphManager := ⟨∅, ∅⟩

def edgeRisk (math : Math) (cpuPressure loss latency : ℚ) : ℚ :=
  let cpuRisk := if cpuPressure < 50 then 0 else math.pow (cpuPressure / 60) 2
  let lossRisk :=
    if 1 ≤ loss then 1 else if loss ≤ 0 then 0 else 1 / (1 + math.exp (-40 * (loss - 1 / 20)))
  let latRatio := if latency / 150 < 0 then 0 else latency / 150
  let latRisk := math.pow latRatio (3 / 2)
  1 / 2 * cpuRisk + 0 * lossRisk + 1 / 2 * latRisk

/-- The key of an edge in the map of edges. -/
def edgeKey (e : Edge) : String := e.sourceIp ++ "->" ++ e.destinationIp

/-- The address of an origin, `IP:Port`. -/
def sourceAddress (target : ProbeTask) : String := target.ip ++ ":" ++ toString target.port

/-- The edge that a link of a report asks for. A link to an unknown node is skipped. -/
def reported (math : Math) (nodes : Dict String NodeTelemetry) (node : NodeTelemetry)
    (v : LinkCongestion) : Option Edge :=
  if v.target.targetType = "source" then
    some {
      sourceIp := node.publicIP
      destinationIp := sourceAddress v.target
      edgeWeight := edgeRisk math 0 v.packetLoss v.averageLatency
      load := 0
      latency := v.averageLatency }
  else
    match nodes.lookup v.target.ip with
    | none => none
    | some outNode =>
      some {
        sourceIp := node.publicIP
        destinationIp := v.target.ip
        edgeWeight := edgeRisk math outNode.cpuPressure v.packetLoss v.averageLatency
        load := outNode.cpuPressure
        latency := v.averageLatency }

/-- What the end of the loop body stores: a new edge, or the weight of an old one. -/
def putEdge (edges : Dict String Edge) (e : Edge) : Dict String Edge :=
  match edges.lookup (edgeKey e) with
  | some oldLine => edges.insert (edgeKey e) { oldLine with edgeWeight := e.edgeWeight }
  | none => edges.insert (edgeKey e) e

namespace GraphManager
variable (math : Math) (g : GraphManager)

/-- One turn of the loop over the links of a report. -/
def addLink (node : NodeTelemetry) (v : LinkCongestion) : GraphManager :=
  match reported math g.nodes node v with
  | none => g
  | some e => { g with edges := putEdge g.edges e }

def addNode (node : NodeTelemetry) : GraphManager :=
  node.linksCongestion.foldl (fun g v => g.addLink math node v)
    { g with nodes := g.nodes.insert node.publicIP node }

def removeNode (id : String) : GraphManager where
  nodes := g.nodes.erase id
  edges := g.edges.keep fun _ e => !(e.sourceIp == id || e.destinationIp == id)

def getEdges : List Edge := g.edges.values

end GraphManager

/-! ## A report as a list of edges -/

section
variable (math : Math) (g : GraphManager)

/-- The nodes known while the links of a report are looked at. -/
def knownNodes (node : NodeTelemetry) : Dict String NodeTelemetry :=
  g.nodes.insert node.publicIP node

/-- The edges that a report asks for, in the order of its links. -/
def report (node : NodeTelemetry) : List Edge :=
  node.linksCongestion.filterMap (reported math (knownNodes g node) node)

theorem addNode_eq (node : NodeTelemetry) :
    g.addNode math node = ⟨(report math g node).foldl putEdge g.edges, knownNodes g node⟩ := by
  have loop : ∀ (links : List LinkCongestion) (edges : Dict String Edge),
      links.foldl (fun g v => GraphManager.addLink math g node v) ⟨edges, knownNodes g node⟩ =
        GraphManager.mk ((links.filterMap (reported math (knownNodes g node) node)).foldl putEdge
          edges) (knownNodes g node) := by
    intro links
    induction links with
    | nil => exact fun _ => rfl
    | cons v links ih =>
      intro edges
      rw [List.foldl_cons, GraphManager.addLink]
      cases link : reported math (knownNodes g node) node v with
      | none => rw [List.filterMap_cons_none link, ih]
      | some e => rw [List.filterMap_cons_some link, List.foldl_cons, ih]
  exact loop node.linksCongestion g.edges

end

/-! ## What a report leaves under a key -/

/-- The effect of one edge of a report on what its key holds. -/
def overwrite (old : Option Edge) (e : Edge) : Option Edge :=
  match old with
  | some oldLine => some { oldLine with edgeWeight := e.edgeWeight }
  | none => some e

theorem lookup_putEdge (edges : Dict String Edge) (e : Edge) (k : String) :
    (putEdge edges e).lookup k =
      if k = edgeKey e then overwrite (edges.lookup k) e else edges.lookup k := by
  unfold putEdge
  cases old : edges.lookup (edgeKey e) with
  | none =>
    rw [Dict.lookup_insert]
    split
    · rename_i same
      rw [same, old]
      rfl
    · rfl
  | some oldLine =>
    simp only
    rw [Dict.lookup_insert]
    split
    · rename_i same
      rw [same, old]
      rfl
    · rfl

theorem lookup_foldl_putEdge (es : List Edge) (edges : Dict String Edge) (k : String) :
    (es.foldl putEdge edges).lookup k =
      (es.filter (edgeKey · = k)).foldl overwrite (edges.lookup k) := by
  induction es generalizing edges with
  | nil => rfl
  | cons e es ih =>
    rw [List.foldl_cons, ih, lookup_putEdge]
    by_cases same : edgeKey e = k
    · rw [List.filter_cons_of_pos (by simpa using same), List.foldl_cons, if_pos same.symm]
    · rw [List.filter_cons_of_neg (by simpa using same), if_neg (Ne.symm same)]

/-- An edge that exists keeps everything but its weight. -/
theorem foldl_overwrite_some (es : List Edge) (old : Edge) :
    ∃ w, es.foldl overwrite (some old) = some { old with edgeWeight := w } := by
  induction es generalizing old with
  | nil => exact ⟨old.edgeWeight, rfl⟩
  | cons e es ih => exact ih { old with edgeWeight := e.edgeWeight }

/-- Edges that are all `e` leave `e`, if what was there before differs in its weight
only. -/
theorem foldl_overwrite_same {es : List Edge} {e : Edge} (all : ∀ e' ∈ es, e' = e) (ne : es ≠ [])
    {old : Option Edge} (fit : ∀ o, old = some o → o = { e with edgeWeight := o.edgeWeight }) :
    es.foldl overwrite old = some e := by
  induction es generalizing old with
  | nil => exact absurd rfl ne
  | cons e' es ih =>
    obtain rfl := all e' List.mem_cons_self
    have first : overwrite old e' = some e' := by
      cases old with
      | none => rfl
      | some o =>
        unfold overwrite
        simp only
        rw [fit o rfl]
    rw [List.foldl_cons, first]
    cases es with
    | nil => rfl
    | cons e'' es =>
      apply ih
      · exact fun x hx => all x (List.mem_cons_of_mem _ hx)
      · exact List.cons_ne_nil _ _
      · rintro o ⟨⟩
        rfl

/-! ## Fresh reports -/

section
variable (math : Math) (g : GraphManager) (node : NodeTelemetry)

/-- After the report every link that is not skipped has an edge with the weight, the
load and the latency computed from it. -/
def Refreshed : Prop :=
  ∀ v ∈ node.linksCongestion, ∀ e, reported math (g.addNode math node).nodes node v = some e →
    (g.addNode math node).edges.lookup (edgeKey e) = some e

theorem refreshed_report : Refreshed math g node ↔ ∀ e ∈ report math g node,
    ((report math g node).filter (edgeKey · = edgeKey e)).foldl overwrite
      (g.edges.lookup (edgeKey e)) = some e := by
  simp only [Refreshed, addNode_eq, lookup_foldl_putEdge, report, List.mem_filterMap]
  constructor
  · rintro h e ⟨v, mem, link⟩
    exact h v mem e link
  · intro h v mem e link
    exact h e ⟨v, mem, link⟩

/-- A report is in the graph afterwards exactly if every edge it asks for is new, or
differs from the old one in its weight only, and links that share an edge agree. -/
theorem refreshed_iff :
    Refreshed math g node ↔
      (∀ e ∈ report math g node, ∀ old, g.edges.lookup (edgeKey e) = some old →
        old = { e with edgeWeight := old.edgeWeight }) ∧
      ∀ e ∈ report math g node, ∀ e' ∈ report math g node, edgeKey e = edgeKey e' → e = e' := by
  rw [refreshed_report]
  constructor
  · intro h
    constructor
    · intro e mem old found
      have stored := h e mem
      obtain ⟨w, kept⟩ := foldl_overwrite_some
        ((report math g node).filter (edgeKey · = edgeKey e)) old
      rw [found, kept] at stored
      obtain rfl := Option.some.inj stored
      rfl
    · intro e mem e' mem' same
      have stored := h e mem
      rw [same, h e' mem'] at stored
      exact (Option.some.inj stored).symm
  · rintro ⟨fit, agree⟩ e mem
    have there : e ∈ (report math g node).filter (edgeKey · = edgeKey e) :=
      List.mem_filter.mpr ⟨mem, by simp⟩
    apply foldl_overwrite_same
    · intro e' mem'
      obtain ⟨inside, same⟩ := List.mem_filter.mp mem'
      exact agree e' inside e mem (by simpa using same)
    · exact List.ne_nil_of_mem there
    · exact fit e mem

end

/-- `math.Pow` is the identity on 0 and 1, the bases that the examples below reach. -/
def unitMath : Math := ⟨fun x _ => x, fun _ => 1⟩

def linkTo (ip : String) (latency : ℚ) : LinkCongestion :=
  ⟨⟨"node", ip, 0⟩, 0, latency⟩

/-! ## The invariant of the graph -/

inductive Call
  | addNode (node : NodeTelemetry)
  | removeNode (id : String)

def GraphManager.perform (math : Math) (g : GraphManager) : Call → GraphManager
  | .addNode node => g.addNode math node
  | .removeNode id => g.removeNode id

/-- The graph after a sequence of calls. -/
def reached (math : Math) (calls : List Call) : GraphManager :=
  calls.foldl (GraphManager.perform math) newGraphManager

/-- The second report of a link raises the weight of its edge, while the latency stays
that of the first. -/
theorem refreshed_not_latency :
    let g := reached unitMath [.addNode ⟨"b", 0, []⟩, .addNode ⟨"a", 0, [linkTo "b" 0]⟩]
    let node : NodeTelemetry := ⟨"a", 0, [linkTo "b" 150]⟩
    (g.addNode unitMath node).edges.lookup "a->b" = some ⟨"a", "b", 1 / 2, 0, 0⟩ ∧
      ¬ Refreshed unitMath g node := by
  intro g node
  have stored : (g.addNode unitMath node).edges.lookup "a->b" = some ⟨"a", "b", 1 / 2, 0, 0⟩ := by
    decide +kernel
  refine ⟨stored, fun fresh => ?_⟩
  have wanted := fresh (linkTo "b" 150) List.mem_cons_self ⟨"a", "b", 1 / 2, 0, 150⟩
    (by decide +kernel)
  rw [show edgeKey ⟨"a", "b", 1 / 2, 0, 150⟩ = "a->b" by decide +kernel, stored] at wanted
  exact absurd wanted (by decide +kernel)

/-- The report has a link to the origin at `address`. -/
def NamesSource (node : NodeTelemetry) (address : String) : Prop :=
  ∃ v ∈ node.linksCongestion, v.target.targetType = "source" ∧ address = sourceAddress v.target

def IsSource (calls : List Call) (address : String) : Prop :=
  ∃ node, .addNode node ∈ calls ∧ NamesSource node address

/-- The edge stands under its own key, joins a node to a node or an origin, and has an
admissible weight. -/
structure Fits (nodes : Dict String NodeTelemetry) (source : String → Prop)
    (admissible : ℚ → Prop) (k : String) (e : Edge) : Prop where
  key : k = edgeKey e
  src : e.sourceIp ∈ nodes
  dst : e.destinationIp ∈ nodes ∨ source e.destinationIp
  weight : admissible e.edgeWeight

section
variable {math : Math} {g : GraphManager} {source source' : String → Prop} {admissible : ℚ → Prop}

theorem Fits.mono {nodes nodes' : Dict String NodeTelemetry} {k : String} {e : Edge}
    (h : Fits nodes source admissible k e) (nodesLe : ∀ id, id ∈ nodes → id ∈ nodes')
    (sourceLe : ∀ a, source a → source' a) : Fits nodes' source' admissible k e :=
  ⟨h.key, nodesLe _ h.src, h.dst.imp (nodesLe _) (sourceLe _), h.weight⟩

theorem fits_reported (risk : ∀ cpu loss latency, admissible (edgeRisk math cpu loss latency))
    {nodes : Dict String NodeTelemetry} {node : NodeTelemetry} (known : node.publicIP ∈ nodes)
    {v : LinkCongestion} (named : v.target.targetType = "source" → source (sourceAddress v.target))
    {e : Edge} (link : reported math nodes node v = some e) :
    Fits nodes source admissible (edgeKey e) e := by
  unfold reported at link
  split at link
  · rename_i origin
    obtain rfl := Option.some.inj link
    exact ⟨rfl, known, .inr (named origin), risk _ _ _⟩
  · split at link
    · cases link
    · rename_i outNode found
      obtain rfl := Option.some.inj link
      exact ⟨rfl, known, .inl (Dict.mem_iff.mpr ⟨outNode, found⟩), risk _ _ _⟩

/-- Storing an edge that fits keeps what fits: an old edge under the key has the same
key and gets an admissible weight. -/
theorem fits_putEdge {nodes : Dict String NodeTelemetry} {edges : Dict String Edge}
    (all : ∀ k e, edges.lookup k = some e → Fits nodes source admissible k e) {new : Edge}
    (fits : Fits nodes source admissible (edgeKey new) new) (k : String) (e : Edge)
    (h : (putEdge edges new).lookup k = some e) : Fits nodes source admissible k e := by
  rw [lookup_putEdge] at h
  split at h
  · rename_i same
    cases old : edges.lookup k with
    | none =>
      rw [old] at h
      obtain rfl := Option.some.inj h
      rw [same]
      exact fits
    | some oldLine =>
      rw [old] at h
      obtain rfl := Option.some.inj h
      have before := all k oldLine old
      exact ⟨before.key, before.src, before.dst, fits.weight⟩
  · exact all k e h

theorem fits_foldl_putEdge {nodes : Dict String NodeTelemetry} {es : List Edge}
    (asked : ∀ e ∈ es, Fits nodes source admissible (edgeKey e) e) {edges : Dict String Edge}
    (all : ∀ k e, edges.lookup k = some e → Fits nodes source admissible k e) (k : String)
    (e : Edge) (h : (es.foldl putEdge edges).lookup k = some e) :
    Fits nodes source admissible k e := by
  induction es generalizing edges with
  | nil => exact all k e h
  | cons new es ih =>
    apply ih _ _ h
    · exact fun x hx => asked x (List.mem_cons_of_mem _ hx)
    · exact fits_putEdge all (asked new List.mem_cons_self)

theorem fits_addNode (risk : ∀ cpu loss latency, admissible (edgeRisk math cpu loss latency))
    (all : ∀ k e, g.edges.lookup k = some e → Fits g.nodes source admissible k e)
    {node : NodeTelemetry} (named : ∀ a, NamesSource node a → source a) (k : String) (e : Edge)
    (h : (g.addNode math node).edges.lookup k = some e) :
    Fits (g.addNode math node).nodes source admissible k e := by
  rw [addNode_eq] at h ⊢
  apply fits_foldl_putEdge _ _ k e h
  · intro e mem
    obtain ⟨v, inside, link⟩ := List.mem_filterMap.mp mem
    apply fits_reported risk _ _ link
    · exact (AList.mem_insert _).mpr (.inl rfl)
    · exact fun origin => named _ ⟨v, inside, origin, rfl⟩
  · intro k e found
    apply (all k e found).mono _ fun _ => id
    exact fun id mem => (AList.mem_insert _).mpr (.inr mem)

theorem fits_removeNode
    (all : ∀ k e, g.edges.lookup k = some e → Fits g.nodes source admissible k e) (id k : String)
    (e : Edge) (h : (g.removeNode id).edges.lookup k = some e) :
    Fits (g.removeNode id).nodes source admissible k e := by
  obtain ⟨found, apart⟩ := Dict.lookup_keep.mp h
  have before := all k e found
  have ends : e.sourceIp ≠ id ∧ e.destinationIp ≠ id := by simpa using apart
  constructor
  case key => exact before.key
  case src => exact AList.mem_erase.mpr ⟨ends.1, before.src⟩
  case dst => exact before.dst.imp_left fun mem => AList.mem_erase.mpr ⟨ends.2, mem⟩
  case weight => exact before.weight

end

theorem fits_reached {math : Math} {admissible : ℚ → Prop}
    (risk : ∀ cpu loss latency, admissible (edgeRisk math cpu loss latency))
    (calls : List Call) (k : String) (e : Edge)
    (h : (reached math calls).edges.lookup k = some e) :
    Fits (reached math calls).nodes (IsSource calls) admissible k e := by
  induction calls using List.reverseRecOn generalizing k e with
  | nil => cases h
  | append_singleton calls call ih =>
    have sooner : ∀ a, IsSource calls a → IsSource (calls ++ [call]) a := by
      rintro a ⟨node, mem, origin⟩
      exact ⟨node, List.mem_append_left _ mem, origin⟩
    rw [reached, List.foldl_append, List.foldl_cons, List.foldl_nil] at h ⊢
    have before := fun k e found => (ih k e found).mono (fun _ => id) sooner
    cases call with
    | addNode node =>
      apply fits_addNode risk before _ k e h
      exact fun a origin => ⟨node, List.mem_append_right _ List.mem_cons_self, origin⟩
    | removeNode gone => exact fits_removeNode before gone k e h

/-- A negative latency counts as 0, and the loss has no weight. -/
theorem edgeRisk_nonneg {math : Math} (pow_nonneg : ∀ x y, 0 ≤ x → 0 ≤ math.pow x y)
    (cpu loss latency : ℚ) : 0 ≤ edgeRisk math cpu loss latency := by
  have cpuRisk : 0 ≤ if cpu < 50 then 0 else math.pow (cpu / 60) 2 := by
    split
    · exact le_refl _
    · apply pow_nonneg
      linarith
  have latRatio : 0 ≤ if latency / 150 < 0 then 0 else latency / 150 := by
    split
    · exact le_refl _
    · linarith
  have latRisk := pow_nonneg _ (3 / 2) latRatio
  unfold edgeRisk
  simp only [zero_mul, add_zero]
  linarith

/-- In every graph that calls lead to, an edge stands under the key made of its ends, so
there is one for each ordered pair. It starts at a node and ends at a node or at an
origin that a report named, and no weight is negative. -/
theorem reachable_sound (math : Math) (pow_nonneg : ∀ x y, 0 ≤ x → 0 ≤ math.pow x y)
    (calls : List Call) :
    (∀ k e, (reached math calls).edges.lookup k = some e →
      k = e.sourceIp ++ "->" ++ e.destinationIp) ∧
    OnePerPair (reached math calls).getEdges ∧
    ∀ e ∈ (reached math calls).getEdges,
      e.sourceIp ∈ (reached math calls).nodes ∧
      (e.destinationIp ∈ (reached math calls).nodes ∨ IsSource calls e.destinationIp) ∧
      0 ≤ e.edgeWeight := by
  have fits : ∀ k e, (reached math calls).edges.lookup k = some e →
      Fits (reached math calls).nodes (IsSource calls) (fun w => 0 ≤ w) k e :=
    fits_reached (edgeRisk_nonneg pow_nonneg) calls
  refine ⟨fun k e found => (fits k e found).key, ?_, ?_⟩
  · intro e mem e' mem' src dst
    obtain ⟨k, found⟩ := Dict.mem_values.mp mem
    obtain ⟨k', found'⟩ := Dict.mem_values.mp mem'
    have same : k = k' := by
      rw [(fits k e found).key, (fits k' e' found').key, edgeKey, edgeKey, src, dst]
    rw [same, found'] at found
    exact (Option.some.inj found).symm
  · intro e mem
    obtain ⟨k, found⟩ := Dict.mem_values.mp mem
    have inside := fits k e found
    exact ⟨inside.src, inside.dst, inside.weight⟩

theorem reachable_sound_two :
    let calls := [Call.addNode ⟨"b", 0, []⟩, .addNode ⟨"a", 0, [linkTo "b" 150]⟩]
    (reached unitMath calls).getEdges = [⟨"a", "b", 1 / 2, 0, 150⟩] ∧
      OnePerPair (reached unitMath calls).getEdges :=
  ⟨by decide +kernel, (reachable_sound unitMath (fun _ _ h => h) _).2.1⟩

end SkyAccel.Control
