import SkyAccel.Control.GlobalStats
import SkyAccel.Control.GraphManager

/-!
# The replica of the store

The control plane follows the keys under `/routing-middle/` and `/routing-last/` of an
etcd store by watching them (`WatchPrefix`, and the two handlers of `main.go`). Of the
store it is assumed that a watch delivers the events in the order of the writes, and
that the event of a deletion has an empty value.

The handlers take the address of a node from the value, so a deletion removes the node
without a name. The replica holds live nodes only, exactly if no address that was
ever put has been deleted for good (`follows_iff`).
-/

namespace SkyAccel.Control

/-! ## The store -/

/-- A write to the store. A lease that expires deletes its key. -/
inductive Write
  | put (key val : String)
  | delete (key : String)

structure WatchEvent where
  eventType : EventType
  key : String
  val : String

/-- What `WatchPrefix` passes on of a write, when the keys `live` are in the store. The
deletion of a key that is not there is no event. -/
def watchEvent (live : Dict String String) : Write → Option WatchEvent
  | .put key val => some ⟨if key ∈ live then .update else .create, key, val⟩
  | .delete key => if key ∈ live then some ⟨.delete, key, ""⟩ else none

def store (live : Dict String String) : Write → Dict String String
  | .put key val => live.insert key val
  | .delete key => live.erase key

def routingMiddle : String := "/routing-middle/"

def routingLast : String := "/routing-last/"

def under (dir key : String) : Bool := dir.toList.isPrefixOf key.toList

def lastComponent (key : String) : String :=
  String.ofList (key.toList.reverse.takeWhile (· ≠ '/')).reverse

/-! ## The control plane -/

section
variable (math : Math) (unmarshalNode : String → Option NodeTelemetry)
  (unmarshalLast : String → Option LastTelemetry)

/-- The key is only logged. An empty value leaves the zero telemetry. -/
def handleRoutingWatchEvent (r : GraphManager) (eventType : EventType) (val : String) :
    GraphManager :=
  match if val = "" then some ⟨"", 0, []⟩ else unmarshalNode val with
  | none => r
  | some tel =>
    match eventType with
    | .create | .update => r.addNode math tel
    | .delete => r.removeNode tel.publicIP
    | .unknown => r

/-- The store, and what the control plane has made of its events. -/
structure ControlPlane where
  live : Dict String String
  graph : GraphManager
  last : Rebuilding

def ControlPlane.start : ControlPlane := ⟨∅, newGraphManager, loaded []⟩

/-- The two watches, each of its own directory. -/
def ControlPlane.deliver (cp : ControlPlane) (ev : WatchEvent) : ControlPlane :=
  if under routingMiddle ev.key then
    { cp with graph := handleRoutingWatchEvent math unmarshalNode cp.graph ev.eventType ev.val }
  else if under routingLast ev.key then
    { cp with last := handleLastWatchEvent unmarshalLast cp.last ev.eventType ev.val }
  else cp

/-- A write, with the delivery of its event. -/
def ControlPlane.step (cp : ControlPlane) (w : Write) : ControlPlane :=
  let after := match watchEvent cp.live w with
    | none => cp
    | some ev => cp.deliver math unmarshalNode unmarshalLast ev
  { after with live := store cp.live w }

def replay (history : List Write) : ControlPlane :=
  history.foldl (ControlPlane.step math unmarshalNode unmarshalLast) .start

/-- Everything put is valid telemetry, of the node that the key names. -/
structure Valid (history : List Write) : Prop where
  middle : ∀ key val, .put key val ∈ history → under routingMiddle key = true →
    val ≠ "" ∧ ∃ tel, unmarshalNode val = some tel ∧ tel.publicIP = lastComponent key
  last : ∀ key val, .put key val ∈ history → under routingLast key = true →
    val ≠ "" ∧ ∃ tel, unmarshalLast val = some tel ∧ tel.ip = lastComponent key

/-- A report in the history has a link to the origin at `address`. -/
def IsOrigin (history : List Write) (address : String) : Prop :=
  ∃ key val node, .put key val ∈ history ∧ unmarshalNode val = some node ∧
    NamesSource node address

end

def WasPut (history : List Write) (dir ip : String) : Prop :=
  ∃ key val, .put key val ∈ history ∧ under dir key = true ∧ lastComponent key = ip

def Live (live : Dict String String) (dir ip : String) : Prop :=
  ∃ key ∈ live, under dir key = true ∧ lastComponent key = ip

/-- The replica holds what is live: nodes, edges between nodes or to an origin, and
reports. -/
structure Follows (unmarshalNode : String → Option NodeTelemetry) (history : List Write)
    (cp : ControlPlane) : Prop where
  nodes : ∀ ip ∈ cp.graph.nodes, Live cp.live routingMiddle ip
  edges : ∀ e ∈ cp.graph.getEdges, Live cp.live routingMiddle e.sourceIp ∧
    (Live cp.live routingMiddle e.destinationIp ∨
      IsOrigin unmarshalNode history e.destinationIp)
  reports : ∀ ip ∈ cp.last.stats.nodeLast, Live cp.live routingLast ip

/-! ## Directories -/

theorem under_middle_not_last {key : String} (h : under routingMiddle key = true) :
    under routingLast key = false := by
  apply Bool.eq_false_iff.mpr
  intro h'
  have middle := List.isPrefixOf_iff_prefix.mp h
  have last := List.isPrefixOf_iff_prefix.mp h'
  have both := List.prefix_of_prefix_length_le last middle (by decide +kernel)
  exact absurd (List.isPrefixOf_iff_prefix.mpr both) (by decide +kernel)

theorem wasPut_append {history : List Write} {dir ip : String} {w : Write} :
    WasPut (history ++ [w]) dir ip ↔ WasPut history dir ip ∨
      ∃ key val, w = .put key val ∧ under dir key = true ∧ lastComponent key = ip := by
  simp only [WasPut, List.mem_append, List.mem_singleton]
  constructor
  · rintro ⟨key, val, old | new, rest⟩
    · exact .inl ⟨key, val, old, rest⟩
    · exact .inr ⟨key, val, new.symm, rest⟩
  · rintro (⟨key, val, old, rest⟩ | ⟨key, val, new, rest⟩)
    · exact ⟨key, val, .inl old, rest⟩
    · exact ⟨key, val, .inr new.symm, rest⟩

theorem wasPut_put {history : List Write} {dir ip key val : String} :
    WasPut (history ++ [.put key val]) dir ip ↔
      WasPut history dir ip ∨ under dir key = true ∧ lastComponent key = ip := by
  rw [wasPut_append]
  apply or_congr_right
  constructor
  · rintro ⟨_, _, same, rest⟩
    obtain ⟨rfl, rfl⟩ := Write.put.inj same
    exact rest
  · exact fun rest => ⟨key, val, rfl, rest⟩

theorem wasPut_delete {history : List Write} {dir ip key : String} :
    WasPut (history ++ [.delete key]) dir ip ↔ WasPut history dir ip := by
  rw [wasPut_append]
  simp

/-! ## What the replica holds -/

section
variable {math : Math} {unmarshalNode : String → Option NodeTelemetry}
  {unmarshalLast : String → Option LastTelemetry} {history : List Write}

/-- The graph is one that calls lead to, with reports from the history, and has every
address that was put. -/
structure TracksGraph (math : Math) (unmarshalNode : String → Option NodeTelemetry)
    (history : List Write) (live : Dict String String) (graph : GraphManager) : Prop where
  calls : ∃ calls, graph = reached math calls ∧ ∀ node, .addNode node ∈ calls →
    ∃ key val, .put key val ∈ history ∧ unmarshalNode val = some node
  nodes : ∀ ip, ip ≠ "" → (ip ∈ graph.nodes ↔ WasPut history routingMiddle ip)
  nameless : "" ∈ graph.nodes → Live live routingMiddle ""

/-- The reports are those of all addresses put. -/
def TracksReports (history : List Write) (nodeLast : Dict String LastTelemetry) : Prop :=
  ∀ ip, ip ∈ nodeLast ↔ ip ≠ "" ∧ WasPut history routingLast ip

/-- What a put delivers: the telemetry of the node that the key names, to one of the
two handlers. -/
theorem step_put {key val : String}
    (valid : Valid unmarshalNode unmarshalLast (history ++ [.put key val])) (cp : ControlPlane) :
    let cp' := cp.step math unmarshalNode unmarshalLast (.put key val)
    (under routingMiddle key = true ∧ ∃ tel, unmarshalNode val = some tel ∧
      tel.publicIP = lastComponent key ∧
      cp' = ⟨cp.live.insert key val, cp.graph.addNode math tel, cp.last⟩) ∨
    (under routingMiddle key = false ∧ under routingLast key = true ∧
      ∃ tel, tel.ip = lastComponent key ∧
      cp' = ⟨cp.live.insert key val, cp.graph,
        { cp.last with
          stats := cp.last.stats.addOrUpdateNode tel, spawned := cp.last.spawned + 1 }⟩) ∨
    (under routingMiddle key = false ∧ under routingLast key = false ∧
      cp' = ⟨cp.live.insert key val, cp.graph, cp.last⟩) := by
  have mem : Write.put key val ∈ history ++ [.put key val] :=
    List.mem_append_right _ List.mem_cons_self
  simp only [ControlPlane.step, watchEvent, ControlPlane.deliver, store]
  cases middle : under routingMiddle key with
  | true =>
    obtain ⟨some, tel, parsed, named⟩ := valid.middle key val mem middle
    refine .inl ⟨rfl, tel, parsed, named, ?_⟩
    by_cases known : key ∈ cp.live
    · simp only [handleRoutingWatchEvent, parsed, if_neg some, if_pos known, if_true]
    · simp only [handleRoutingWatchEvent, parsed, if_neg some, if_neg known, if_true]
  | false =>
    right
    cases last : under routingLast key with
    | true =>
      obtain ⟨some, tel, parsed, named⟩ := valid.last key val mem last
      refine .inl ⟨rfl, rfl, tel, named, ?_⟩
      by_cases known : key ∈ cp.live
      · simp only [handleLastWatchEvent, parsed, if_neg some, if_pos known, if_true,
          Bool.false_eq_true, if_false]
      · simp only [handleLastWatchEvent, parsed, if_neg some, if_neg known, if_true,
          Bool.false_eq_true, if_false]
    | false => exact .inr ⟨rfl, rfl, by simp only [Bool.false_eq_true, if_false]⟩

variable (math unmarshalNode unmarshalLast) in
/-- A deletion of a live key removes the node, or the report, without a name. -/
theorem step_delete (key : String) (cp : ControlPlane) :
    let cp' := cp.step math unmarshalNode unmarshalLast (.delete key)
    (key ∈ cp.live ∧ under routingMiddle key = true ∧
      cp' = ⟨cp.live.erase key, cp.graph.removeNode "", cp.last⟩) ∨
    ((key ∉ cp.live ∨ under routingMiddle key = false) ∧
      (cp' = ⟨cp.live.erase key, cp.graph, cp.last⟩ ∨
        cp' = ⟨cp.live.erase key, cp.graph,
          { cp.last with
            stats := cp.last.stats.delNode "", spawned := cp.last.spawned + 1 }⟩)) := by
  simp only [ControlPlane.step, watchEvent, ControlPlane.deliver, store]
  by_cases known : key ∈ cp.live
  · simp only [if_pos known]
    cases middle : under routingMiddle key with
    | true => exact .inl ⟨known, rfl, by simp only [handleRoutingWatchEvent, if_true]⟩
    | false =>
      refine .inr ⟨.inr rfl, ?_⟩
      cases last : under routingLast key with
      | true =>
        right
        simp only [handleLastWatchEvent, if_true, Bool.false_eq_true, if_false]
      | false =>
        left
        simp only [Bool.false_eq_true, if_false]
  · simp only [if_neg known]
    exact .inr ⟨.inl known, .inl trivial⟩

theorem mem_addNode {g : GraphManager} {tel : NodeTelemetry} {ip : String} :
    ip ∈ (g.addNode math tel).nodes ↔ ip = tel.publicIP ∨ ip ∈ g.nodes := by
  rw [addNode_eq]
  exact AList.mem_insert _

theorem mem_addOrUpdateNode {g : GlobalStats} {tel : LastTelemetry} {ip : String} :
    ip ∈ (g.addOrUpdateNode tel).nodeLast ↔ ip ≠ "" ∧ ip = tel.ip ∨ ip ∈ g.nodeLast := by
  unfold GlobalStats.addOrUpdateNode
  split
  · rename_i unnamed
    rw [unnamed]
    constructor
    · exact .inr
    · rintro (⟨named, rfl⟩ | old)
      · exact absurd rfl named
      · exact old
  · rename_i named
    rw [AList.mem_insert]
    apply or_congr_left
    constructor
    · rintro rfl
      exact ⟨named, rfl⟩
    · exact And.right

theorem Live.insert {live : Dict String String} {dir ip : String} (h : Live live dir ip)
    (key val : String) : Live (live.insert key val) dir ip := by
  obtain ⟨key', mem, rest⟩ := h
  exact ⟨key', (AList.mem_insert _).mpr (.inr mem), rest⟩

theorem Live.erase {live : Dict String String} {dir ip key : String} (h : Live live dir ip)
    (other : key ∉ live ∨ under dir key = false) : Live (live.erase key) dir ip := by
  obtain ⟨key', mem, inside, named⟩ := h
  refine ⟨key', AList.mem_erase.mpr ⟨?_, mem⟩, inside, named⟩
  rintro rfl
  cases other with
  | inl gone => exact gone mem
  | inr outside =>
    rw [outside] at inside
    cases inside

/-! ### The graph -/

section
variable {live : Dict String String} {graph : GraphManager} {key val : String}

theorem TracksGraph.put (h : TracksGraph math unmarshalNode history live graph)
    {tel : NodeTelemetry} (middle : under routingMiddle key = true)
    (parsed : unmarshalNode val = some tel) (named : tel.publicIP = lastComponent key) :
    TracksGraph math unmarshalNode (history ++ [.put key val]) (live.insert key val)
      (graph.addNode math tel) := by
  constructor
  case calls =>
    obtain ⟨calls, same, reports⟩ := h.calls
    refine ⟨calls ++ [.addNode tel], ?_, ?_⟩
    · rw [reached, List.foldl_append, ← reached, ← same]
      rfl
    · intro node mem
      obtain old | new := List.mem_append.mp mem
      · obtain ⟨key', val', put, parsed'⟩ := reports node old
        exact ⟨key', val', List.mem_append_left _ put, parsed'⟩
      · obtain rfl : node = tel := by simpa using new
        exact ⟨key, val, List.mem_append_right _ List.mem_cons_self, parsed⟩
  case nodes =>
    intro ip some
    rw [mem_addNode, wasPut_put, h.nodes ip some, named, or_comm]
    simp only [middle, true_and, eq_comm]
  case nameless =>
    intro unnamed
    cases mem_addNode.mp unnamed with
    | inl self =>
      exact ⟨key, (AList.mem_insert _).mpr (.inl rfl), middle, named.symm.trans self.symm⟩
    | inr old => exact (h.nameless old).insert key val

/-- A write that the graph does not see leaves it tracking. -/
theorem TracksGraph.skip (h : TracksGraph math unmarshalNode history live graph) {w : Write}
    {live' : Dict String String}
    (same : ∀ ip, WasPut (history ++ [w]) routingMiddle ip ↔ WasPut history routingMiddle ip)
    (kept : Live live routingMiddle "" → Live live' routingMiddle "") :
    TracksGraph math unmarshalNode (history ++ [w]) live' graph := by
  constructor
  case calls =>
    obtain ⟨calls, eq, reports⟩ := h.calls
    refine ⟨calls, eq, fun node mem => ?_⟩
    obtain ⟨key', val', put, parsed⟩ := reports node mem
    exact ⟨key', val', List.mem_append_left _ put, parsed⟩
  case nodes => exact fun ip some => (h.nodes ip some).trans (same ip).symm
  case nameless => exact fun unnamed => kept (h.nameless unnamed)

theorem TracksGraph.delete (h : TracksGraph math unmarshalNode history live graph) :
    TracksGraph math unmarshalNode (history ++ [.delete key]) (live.erase key)
      (graph.removeNode "") := by
  constructor
  case calls =>
    obtain ⟨calls, same, reports⟩ := h.calls
    refine ⟨calls ++ [.removeNode ""], ?_, ?_⟩
    · rw [reached, List.foldl_append, ← reached, ← same]
      rfl
    · intro node mem
      obtain ⟨key', val', put, parsed⟩ := reports node (by simpa using mem)
      exact ⟨key', val', List.mem_append_left _ put, parsed⟩
  case nodes =>
    intro ip some
    rw [wasPut_delete, ← h.nodes ip some]
    exact AList.mem_erase.trans (and_iff_right some)
  case nameless => exact fun unnamed => absurd rfl (AList.mem_erase.mp unnamed).1

/-! ### The reports -/

variable {stats : GlobalStats}

theorem TracksReports.put (h : TracksReports history stats.nodeLast) {tel : LastTelemetry}
    (last : under routingLast key = true) (named : tel.ip = lastComponent key) :
    TracksReports (history ++ [.put key val]) (stats.addOrUpdateNode tel).nodeLast := by
  intro ip
  rw [mem_addOrUpdateNode, h ip, wasPut_put, named, ← and_or_left, or_comm]
  simp only [last, true_and, eq_comm]

theorem TracksReports.delete (h : TracksReports history stats.nodeLast) :
    TracksReports (history ++ [.delete key]) (stats.delNode "").nodeLast := by
  intro ip
  rw [wasPut_delete, ← h ip]
  apply AList.mem_erase.trans
  constructor
  · exact And.right
  · exact fun mem => ⟨((h ip).mp mem).1, mem⟩

theorem TracksReports.skip (h : TracksReports history stats.nodeLast) {w : Write}
    (same : ∀ ip, WasPut (history ++ [w]) routingLast ip ↔ WasPut history routingLast ip) :
    TracksReports (history ++ [w]) stats.nodeLast := by
  intro ip
  rw [same ip]
  exact h ip

end

/-! ### Both -/

structure Tracks (math : Math) (unmarshalNode : String → Option NodeTelemetry)
    (history : List Write) (cp : ControlPlane) : Prop where
  graph : TracksGraph math unmarshalNode history cp.live cp.graph
  reports : TracksReports history cp.last.stats.nodeLast

theorem tracks_start : Tracks math unmarshalNode [] .start := by
  have none : ∀ dir ip, ¬ WasPut [] dir ip := by
    rintro dir ip ⟨_, _, mem, _⟩
    cases mem
  refine ⟨⟨⟨[], rfl, fun _ mem => absurd mem List.not_mem_nil⟩, ?_, ?_⟩, ?_⟩
  · exact fun ip _ => iff_of_false (AList.notMem_empty _) (none _ ip)
  · exact fun unnamed => absurd unnamed (AList.notMem_empty _)
  · exact fun ip => iff_of_false (AList.notMem_empty _) fun put => none _ ip put.2

theorem tracks_put {key val : String} {cp : ControlPlane} (h : Tracks math unmarshalNode history cp)
    (valid : Valid unmarshalNode unmarshalLast (history ++ [.put key val])) :
    Tracks math unmarshalNode (history ++ [.put key val])
      (cp.step math unmarshalNode unmarshalLast (.put key val)) := by
  have unseen : ∀ dir, under dir key = false → ∀ ip,
      WasPut (history ++ [.put key val]) dir ip ↔ WasPut history dir ip := by
    intro dir outside ip
    rw [wasPut_put, outside]
    simp only [Bool.false_eq_true, false_and, or_false]
  obtain ⟨middle, tel, parsed, named, eq⟩ | ⟨middle, last, tel, named, eq⟩ | ⟨middle, last, eq⟩ :=
    step_put valid cp
  · rw [eq]
    exact ⟨h.graph.put middle parsed named,
      h.reports.skip (unseen _ (under_middle_not_last middle))⟩
  · rw [eq]
    exact ⟨h.graph.skip (unseen _ middle) fun live => live.insert key val, h.reports.put last named⟩
  · rw [eq]
    exact ⟨h.graph.skip (unseen _ middle) fun live => live.insert key val,
      h.reports.skip (unseen _ last)⟩

theorem tracks_delete {key : String} {cp : ControlPlane}
    (h : Tracks math unmarshalNode history cp) :
    Tracks math unmarshalNode (history ++ [.delete key])
      (cp.step math unmarshalNode unmarshalLast (.delete key)) := by
  obtain ⟨-, -, eq⟩ | ⟨other, eq | eq⟩ := step_delete math unmarshalNode unmarshalLast key cp
  · rw [eq]
    exact ⟨h.graph.delete, h.reports.skip fun _ => wasPut_delete⟩
  · rw [eq]
    exact ⟨h.graph.skip (fun _ => wasPut_delete) fun live => live.erase other,
      h.reports.skip fun _ => wasPut_delete⟩
  · rw [eq]
    exact ⟨h.graph.skip (fun _ => wasPut_delete) fun live => live.erase other, h.reports.delete⟩

theorem tracks_replay (history : List Write)
    (valid : Valid unmarshalNode unmarshalLast history) :
    Tracks math unmarshalNode history (replay math unmarshalNode unmarshalLast history) := by
  induction history using List.reverseRecOn with
  | nil => exact tracks_start
  | append_singleton history w ih =>
    have before : Valid unmarshalNode unmarshalLast history :=
      ⟨fun key val mem => valid.middle key val (List.mem_append_left _ mem),
        fun key val mem => valid.last key val (List.mem_append_left _ mem)⟩
    rw [replay, List.foldl_append]
    cases w with
    | put key val => exact tracks_put (ih before) valid
    | delete key => exact tracks_delete (ih before)

end

/-- The replica holds live nodes, edges and reports only, exactly if every address that
was put, in either directory, is live in the end. -/
theorem follows_iff (math : Math) (unmarshalNode : String → Option NodeTelemetry)
    (unmarshalLast : String → Option LastTelemetry) (history : List Write)
    (valid : Valid unmarshalNode unmarshalLast history) :
    let cp := replay math unmarshalNode unmarshalLast history
    Follows unmarshalNode history cp ↔
      (∀ ip, ip ≠ "" → WasPut history routingMiddle ip → Live cp.live routingMiddle ip) ∧
      ∀ ip, ip ≠ "" → WasPut history routingLast ip → Live cp.live routingLast ip := by
  intro cp
  obtain ⟨graph, reports⟩ : Tracks math unmarshalNode history cp := tracks_replay history valid
  constructor
  · intro follows
    constructor
    · exact fun ip some put => follows.nodes ip ((graph.nodes ip some).mpr put)
    · exact fun ip some put => follows.reports ip ((reports ip).mpr ⟨some, put⟩)
  · rintro ⟨middle, last⟩
    have nodes : ∀ ip ∈ cp.graph.nodes, Live cp.live routingMiddle ip := by
      intro ip mem
      by_cases unnamed : ip = ""
      · subst unnamed
        exact graph.nameless mem
      · exact middle ip unnamed ((graph.nodes ip unnamed).mp mem)
    constructor
    case nodes => exact nodes
    case edges =>
      obtain ⟨calls, same, nodeOf⟩ := graph.calls
      intro e mem
      rw [same] at mem nodes
      obtain ⟨k, found⟩ := Dict.mem_values.mp mem
      have fits : Fits (reached math calls).nodes (IsSource calls) (fun _ => True) k e :=
        fits_reached (fun _ _ _ => trivial) calls k e found
      refine ⟨nodes _ fits.src, fits.dst.imp (nodes _) ?_⟩
      rintro ⟨node, call, origin⟩
      obtain ⟨key, val, put, parsed⟩ := nodeOf node call
      exact ⟨key, val, node, put, parsed, origin⟩
    case reports =>
      intro ip mem
      obtain ⟨some, put⟩ := (reports ip).mp mem
      exact last ip some put

/-! ## A node that goes away -/

def nodeKey : String := "/routing-middle/10.0.0.1"

def nodeReport : String := "\x7b\"public_ip\":\"10.0.0.1\"\x7d"

/-- `json.Unmarshal` of the report. -/
def unmarshalReport (val : String) : Option NodeTelemetry :=
  if val = nodeReport then some ⟨"10.0.0.1", 0, []⟩ else none

def lastKey : String := "/routing-last/10.0.0.2"

def lastReport : String := "\x7b\"ip\":\"10.0.0.2\"\x7d"

def unmarshalLastReport (val : String) : Option LastTelemetry :=
  if val = lastReport then some ⟨[], "10.0.0.2"⟩ else none

theorem valid_report {history : List Write}
    (only : ∀ key val, .put key val ∈ history →
      key = nodeKey ∧ val = nodeReport ∨ key = lastKey ∧ val = lastReport) :
    Valid unmarshalReport unmarshalLastReport history where
  middle := by
    intro key val mem inside
    obtain ⟨rfl, rfl⟩ | ⟨rfl, rfl⟩ := only key val mem
    · exact ⟨by decide +kernel, ⟨"10.0.0.1", 0, []⟩, by decide +kernel, by decide +kernel⟩
    · exact absurd inside (by decide +kernel)
  last := by
    intro key val mem inside
    obtain ⟨rfl, rfl⟩ | ⟨rfl, rfl⟩ := only key val mem
    · exact absurd inside (by decide +kernel)
    · exact ⟨by decide +kernel, ⟨[], "10.0.0.2"⟩, by decide +kernel, by decide +kernel⟩

/-- The report of a node, and the end of its lease. -/
def expired : List Write := [.put nodeKey nodeReport, .delete nodeKey]

/-- The node stays in the graph when its key is gone. -/
theorem follows_not_expired :
    Valid unmarshalReport unmarshalLastReport expired ∧
      ¬ Follows unmarshalReport expired
        (replay unitMath unmarshalReport unmarshalLastReport expired) := by
  constructor
  · apply valid_report
    intro key val mem
    exact .inl (by simpa [expired] using mem)
  · intro follows
    have held : "10.0.0.1" ∈
        (replay unitMath unmarshalReport unmarshalLastReport expired).graph.nodes := by
      decide +kernel
    have gone : (replay unitMath unmarshalReport unmarshalLastReport expired).live.keys = [] := by
      decide +kernel
    obtain ⟨key, mem, -⟩ := follows.nodes _ held
    rw [AList.mem_keys, gone] at mem
    cases mem

/-- The node comes back, after a report of another one on its clients. -/
def renewed : List Write := expired ++ [.put lastKey lastReport, .put nodeKey nodeReport]

theorem follows_renewed :
    Follows unmarshalReport renewed
      (replay unitMath unmarshalReport unmarshalLastReport renewed) := by
  have only : ∀ key val, .put key val ∈ renewed →
      key = nodeKey ∧ val = nodeReport ∨ key = lastKey ∧ val = lastReport := by
    intro key val mem
    simp only [renewed, expired, List.cons_append, List.nil_append, List.mem_cons, Write.put.injEq,
      reduceCtorEq, List.not_mem_nil, or_false, false_or] at mem
    tauto
  apply (follows_iff unitMath unmarshalReport unmarshalLastReport _ (valid_report only)).mpr
  constructor
  · rintro ip - ⟨key, val, mem, inside, named⟩
    obtain ⟨rfl, rfl⟩ | ⟨rfl, rfl⟩ := only key val mem
    · exact ⟨nodeKey, by decide +kernel, inside, named⟩
    · exact absurd inside (by decide +kernel)
  · rintro ip - ⟨key, val, mem, inside, named⟩
    obtain ⟨rfl, rfl⟩ | ⟨rfl, rfl⟩ := only key val mem
    · exact absurd inside (by decide +kernel)
    · exact ⟨lastKey, by decide +kernel, inside, named⟩

end SkyAccel.Control
