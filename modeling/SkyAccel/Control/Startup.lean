import SkyAccel.Lib.Run
import SkyAccel.Control.Watch

/-!
# The start of the control plane

`main.go` reads the nodes under `/routing-middle/` (`GetPrefixAll`), adds them one by one,
and then has a goroutine watch the directory (`WatchPrefix`), while nodes go on putting
their telemetry. Of the store it is assumed that a read returns its state, and that a
watch delivers exactly the events after it is established, in their order.

The read and the watch are separate requests, and the watch names no revision to start
from. A put between them is in neither. `startup_iff` says which runs end with the latest
telemetry of every node all the same.
-/

namespace SkyAccel.Control

inductive Boot
  | booting
  | loading (nodeMap : List ((_ : String) × String))
  | watching
  deriving DecidableEq

/-- The store, the events on their way, and the control plane. `before`, `gap` and `after`
record what was put before the read, between the read and the watch, and since. -/
structure Startup where
  store : Dict String String
  boot : Boot
  queue : List WatchEvent
  graph : GraphManager
  before : List NodeTelemetry
  gap : List NodeTelemetry
  after : List NodeTelemetry

inductive StartupEvent
  | put (val : String)
  | getPrefixAll (nodeMap : List ((_ : String) × String))
  | addNode
  | watchPrefix
  | deliver

namespace Startup

def init : Startup := ⟨∅, .booting, [], newGraphManager, [], [], []⟩

def record (s : Startup) (tel : NodeTelemetry) : Startup :=
  match s.boot with
  | .booting => { s with before := s.before ++ [tel] }
  | .loading _ => { s with gap := s.gap ++ [tel] }
  | .watching => { s with after := s.after ++ [tel] }

section
variable (math : Math) (unmarshalNode : String → Option NodeTelemetry)

/-- The text is one of this telemetry, as `DoClusterWeightedAvg` puts it. -/
def Reads (val : String) (tel : NodeTelemetry) : Prop := val ≠ "" ∧ unmarshalNode val = some tel

/-- A put of telemetry under the node's key. Only an established watch sees it. -/
def put (s : Startup) (val : String) (tel : NodeTelemetry) : Startup :=
  let w := Write.put (routingMiddle ++ tel.publicIP) val
  ({ s with
    store := Control.store s.store w
    queue := match s.boot with
      | .watching => s.queue ++ (watchEvent s.store w).toList
      | _ => s.queue }).record tel

/-- One turn of the loop over the nodes read. -/
def load (g : GraphManager) (nodeJson : String) : GraphManager :=
  match unmarshalNode nodeJson with
  | none => g
  | some tel => g.addNode math tel

def next (s : Startup) : StartupEvent → Option Startup
  | .put val =>
    if val = "" then none else (unmarshalNode val).map (s.put val)
  | .getPrefixAll nodeMap =>
    match s.boot with
    | .booting =>
      if nodeMap.Perm (s.store.entries.filter fun x => under routingMiddle x.1) then
        some { s with boot := .loading nodeMap }
      else none
    | _ => none
  | .addNode =>
    match s.boot with
    | .loading (x :: rest) =>
      some { s with boot := .loading rest, graph := load math unmarshalNode s.graph x.2 }
    | _ => none
  | .watchPrefix =>
    match s.boot with
    | .loading [] => some { s with boot := .watching }
    | _ => none
  | .deliver =>
    match s.queue with
    | [] => none
    | ev :: rest => some { s with
        queue := rest
        graph := handleRoutingWatchEvent math unmarshalNode s.graph ev.eventType ev.val }

end

end Startup

/-- The latest telemetry put for an address. -/
def latest (puts : List NodeTelemetry) (ip : String) : Option NodeTelemetry :=
  Dict.lastOf NodeTelemetry.publicIP puts ip

theorem latest_snoc (puts : List NodeTelemetry) (tel : NodeTelemetry) (ip : String) :
    latest (puts ++ [tel]) ip = if tel.publicIP = ip then some tel else latest puts ip :=
  Dict.lastOf_snoc puts tel ip

theorem latest_append (puts puts' : List NodeTelemetry) (ip : String) :
    latest (puts ++ puts') ip = (latest puts' ip).or (latest puts ip) :=
  Dict.lastOf_append puts puts' ip

theorem publicIP_of_latest {puts : List NodeTelemetry} {ip : String} {tel : NodeTelemetry}
    (h : latest puts ip = some tel) : tel.publicIP = ip :=
  (Dict.of_lastOf h).2

theorem lookup_addNode (math : Math) (g : GraphManager) (tel : NodeTelemetry) (ip : String) :
    (g.addNode math tel).nodes.lookup ip =
      if ip = tel.publicIP then some tel else g.nodes.lookup ip := by
  rw [addNode_eq]
  exact Dict.lookup_insert ip tel.publicIP tel

namespace Startup

section
variable {math : Math} {unmarshalNode : String → Option NodeTelemetry}

/-! ## What a step can do -/

variable (math unmarshalNode) in
inductive Step (s : Startup) : Startup → Prop
  | put {val : String} {tel : NodeTelemetry} : Reads unmarshalNode val tel →
      Step s (s.put val tel)
  | getPrefixAll {nodeMap : List ((_ : String) × String)} : s.boot = .booting →
      nodeMap.Perm (s.store.entries.filter fun x => under routingMiddle x.1) →
      Step s { s with boot := .loading nodeMap }
  | addNode {x : (_ : String) × String} {rest : List ((_ : String) × String)} :
      s.boot = .loading (x :: rest) →
      Step s { s with boot := .loading rest, graph := load math unmarshalNode s.graph x.2 }
  | watchPrefix : s.boot = .loading [] → Step s { s with boot := .watching }
  | deliver {ev : WatchEvent} {rest : List WatchEvent} : s.queue = ev :: rest →
      Step s { s with
        queue := rest
        graph := handleRoutingWatchEvent math unmarshalNode s.graph ev.eventType ev.val }

theorem step_of_next {s s' : Startup} {e : StartupEvent}
    (h : s.next math unmarshalNode e = some s') : Step math unmarshalNode s s' := by
  cases e with
  | put val =>
    rw [next] at h
    split at h
    · cases h
    · rename_i some
      obtain ⟨tel, parsed, rfl⟩ := Option.map_eq_some_iff.mp h
      exact .put ⟨some, parsed⟩
  | getPrefixAll nodeMap =>
    simp only [next] at h
    split at h
    · rename_i booting
      split at h
      · rename_i read
        obtain rfl := Option.some.inj h
        exact .getPrefixAll booting read
      · cases h
    · cases h
  | addNode =>
    simp only [next] at h
    split at h
    · rename_i x rest loading
      obtain rfl := Option.some.inj h
      exact .addNode loading
    · cases h
  | watchPrefix =>
    simp only [next] at h
    split at h
    · rename_i loaded
      obtain rfl := Option.some.inj h
      exact .watchPrefix loaded
    · cases h
  | deliver =>
    simp only [next] at h
    split at h
    · cases h
    · rename_i ev rest queued
      obtain rfl := Option.some.inj h
      exact .deliver queued

/-! ## The invariant -/

variable (unmarshalNode) in
/-- The store holds a text of the latest telemetry of each node, under the node's key. -/
structure Stored (store : Dict String String) (puts : List NodeTelemetry) : Prop where
  sound : ∀ key val, store.lookup key = some val →
    ∃ tel, Reads unmarshalNode val tel ∧ key = routingMiddle ++ tel.publicIP ∧
      latest puts tel.publicIP = some tel
  complete : ∀ ip tel, latest puts ip = some tel →
    ∃ val, Reads unmarshalNode val tel ∧ store.lookup (routingMiddle ++ ip) = some val

variable (unmarshalNode) in
/-- The graph has the nodes read, but for those still to be added. -/
structure Loading (nodeMap : List ((_ : String) × String)) (nodes : Dict String NodeTelemetry)
    (puts : List NodeTelemetry) : Prop where
  ahead : ∀ x ∈ nodeMap, ∃ tel, Reads unmarshalNode x.2 tel ∧ latest puts tel.publicIP = some tel
  sound : ∀ ip tel, nodes.lookup ip = some tel → latest puts ip = some tel
  complete : ∀ ip tel, latest puts ip = some tel →
    nodes.lookup ip = some tel ∨ ∃ x ∈ nodeMap, Reads unmarshalNode x.2 tel

variable (unmarshalNode) in
/-- An event that gives the graph this telemetry. -/
def Brings (ev : WatchEvent) (tel : NodeTelemetry) : Prop :=
  (ev.eventType = .create ∨ ev.eventType = .update) ∧ Reads unmarshalNode ev.val tel

variable (unmarshalNode) in
/-- Until the watch is established nothing is on its way. From then on the graph has what
was read, and of what was put since all but the events on their way. -/
inductive Inv (s : Startup) : Prop
  | booting : s.boot = .booting → s.queue = [] → s.graph.nodes = ∅ → s.gap = [] → s.after = [] →
      Stored unmarshalNode s.store s.before → Inv s
  | loading {nodeMap : List ((_ : String) × String)} : s.boot = .loading nodeMap →
      s.queue = [] → s.after = [] → Loading unmarshalNode nodeMap s.graph.nodes s.before → Inv s
  | watching {seen pending : List NodeTelemetry} : s.boot = .watching →
      s.after = seen ++ pending → List.Forall₂ (Brings unmarshalNode) s.queue pending →
      (∀ ip, s.graph.nodes.lookup ip = (latest seen ip).or (latest s.before ip)) → Inv s

theorem stored_nil : Stored unmarshalNode ∅ [] := by
  constructor
  case sound =>
    intro key val none
    cases none
  case complete =>
    intro ip tel none
    cases none

theorem Stored.put {store : Dict String String} {puts : List NodeTelemetry}
    (h : Stored unmarshalNode store puts) {val : String} {tel : NodeTelemetry}
    (reads : Reads unmarshalNode val tel) :
    Stored unmarshalNode (store.insert (routingMiddle ++ tel.publicIP) val) (puts ++ [tel]) := by
  constructor
  case sound =>
    intro key val' found
    rw [Dict.lookup_insert] at found
    split at found
    · rename_i here
      obtain rfl := Option.some.inj found
      exact ⟨tel, reads, here, by rw [latest_snoc, if_pos rfl]⟩
    · rename_i there
      obtain ⟨tel', reads', key', before⟩ := h.sound key val' found
      have other : tel.publicIP ≠ tel'.publicIP := by
        intro same
        exact there (key'.trans (by rw [same]))
      exact ⟨tel', reads', key', by rw [latest_snoc, if_neg other, before]⟩
  case complete =>
    intro ip tel' last
    rw [latest_snoc] at last
    rw [Dict.lookup_insert]
    split at last
    · rename_i same
      obtain rfl := Option.some.inj last
      exact ⟨val, reads, if_pos (by rw [same])⟩
    · rename_i other
      obtain ⟨val', reads', found⟩ := h.complete ip tel' last
      refine ⟨val', reads', ?_⟩
      rw [if_neg fun same => other ((String.append_right_inj _).mp same).symm]
      exact found

/-- What was read is what was put before. -/
theorem Stored.loading {store : Dict String String} {puts : List NodeTelemetry}
    (h : Stored unmarshalNode store puts) {nodeMap : List ((_ : String) × String)}
    (read : nodeMap.Perm (store.entries.filter fun x => under routingMiddle x.1)) :
    Loading unmarshalNode nodeMap ∅ puts := by
  constructor
  case ahead =>
    intro x mem
    obtain ⟨inside, -⟩ := List.mem_filter.mp (read.mem_iff.mp mem)
    obtain ⟨tel, reads, -, last⟩ := h.sound x.1 x.2 (Dict.lookup_eq_some.mpr inside)
    exact ⟨tel, reads, last⟩
  case sound =>
    intro ip tel found
    cases found
  case complete =>
    intro ip tel last
    obtain ⟨val, reads, found⟩ := h.complete ip tel last
    have stored := Dict.lookup_eq_some.mp found
    refine .inr ⟨⟨_, val⟩, read.mem_iff.mpr (List.mem_filter.mpr ⟨stored, ?_⟩), reads⟩
    rw [under, String.toList_append]
    exact List.isPrefixOf_iff_prefix.mpr (List.prefix_append _ _)

theorem Loading.add {x : (_ : String) × String} {nodeMap : List ((_ : String) × String)}
    {g : GraphManager} {puts : List NodeTelemetry}
    (h : Loading unmarshalNode (x :: nodeMap) g.nodes puts) :
    Loading unmarshalNode nodeMap (load math unmarshalNode g x.2).nodes puts := by
  obtain ⟨tel, reads, last⟩ := h.ahead x List.mem_cons_self
  rw [load, reads.2]
  constructor
  case ahead => exact fun y mem => h.ahead y (List.mem_cons_of_mem _ mem)
  case sound =>
    intro ip tel' found
    rw [lookup_addNode] at found
    split at found
    · rename_i here
      rw [here, last, ← found]
    · exact h.sound ip tel' found
  case complete =>
    intro ip tel' last'
    rw [lookup_addNode]
    by_cases here : ip = tel.publicIP
    · rw [if_pos here, ← last, ← here, last']
      exact .inl rfl
    · rw [if_neg here]
      obtain done | ⟨y, mem, reads'⟩ := h.complete ip tel' last'
      · exact .inl done
      · obtain rfl | later := List.mem_cons.mp mem
        · have same := Option.some.inj (reads.2.symm.trans reads'.2)
          exact absurd (same ▸ publicIP_of_latest last').symm here
        · exact .inr ⟨y, later, reads'⟩

theorem Loading.done {g : GraphManager} {puts : List NodeTelemetry}
    (h : Loading unmarshalNode [] g.nodes puts) (ip : String) :
    g.nodes.lookup ip = latest puts ip := by
  apply Option.ext
  intro tel
  constructor
  · exact h.sound ip tel
  · intro last
    obtain found | ⟨x, none, -⟩ := h.complete ip tel last
    · exact found
    · cases none

theorem brings_watchEvent {val : String} {tel : NodeTelemetry}
    (reads : Reads unmarshalNode val tel) (live : Dict String String) :
    List.Forall₂ (Brings unmarshalNode)
      (watchEvent live (.put (routingMiddle ++ tel.publicIP) val)).toList [tel] := by
  refine .cons ⟨?_, reads⟩ .nil
  split
  · exact .inr rfl
  · exact .inl rfl

theorem handle_brings {ev : WatchEvent} {tel : NodeTelemetry} (h : Brings unmarshalNode ev tel)
    (g : GraphManager) :
    handleRoutingWatchEvent math unmarshalNode g ev.eventType ev.val = g.addNode math tel := by
  obtain ⟨type, some, parsed⟩ := h
  rw [handleRoutingWatchEvent, if_neg some, parsed]
  obtain create | update := type
  · rw [create]
  · rw [update]

theorem Inv.put {s : Startup} (inv : Inv unmarshalNode s) {val : String} {tel : NodeTelemetry}
    (reads : Reads unmarshalNode val tel) : Inv unmarshalNode (s.put val tel) := by
  cases inv with
  | booting boot queue nodes gap after stored =>
    have eq : s.put val tel = { s with
        store := s.store.insert (routingMiddle ++ tel.publicIP) val
        before := s.before ++ [tel] } := by
      simp only [Startup.put, record, boot, Control.store]
    rw [eq]
    exact .booting boot queue nodes gap after (stored.put reads)
  | loading boot queue after loading =>
    have eq : s.put val tel = { s with
        store := s.store.insert (routingMiddle ++ tel.publicIP) val
        gap := s.gap ++ [tel] } := by
      simp only [Startup.put, record, boot, Control.store]
    rw [eq]
    exact .loading boot queue after loading
  | watching boot after queue nodes =>
    have eq : s.put val tel = { s with
        store := s.store.insert (routingMiddle ++ tel.publicIP) val
        queue := s.queue ++
          (watchEvent s.store (.put (routingMiddle ++ tel.publicIP) val)).toList
        after := s.after ++ [tel] } := by
      simp only [Startup.put, record, boot, Control.store]
    rw [eq]
    refine .watching boot ?_ (List.rel_append queue (brings_watchEvent reads s.store)) nodes
    rw [after, List.append_assoc]

theorem inv_step {s s' : Startup} (inv : Inv unmarshalNode s)
    (step : Step math unmarshalNode s s') : Inv unmarshalNode s' := by
  cases step with
  | put reads => exact inv.put reads
  | getPrefixAll booting read =>
    cases inv with
    | booting boot queue nodes gap after stored =>
      refine .loading rfl queue after ?_
      change Loading unmarshalNode _ s.graph.nodes s.before
      rw [nodes]
      exact stored.loading read
    | loading boot => rw [boot] at booting; cases booting
    | watching boot => rw [boot] at booting; cases booting
  | addNode loading =>
    cases inv with
    | booting boot => rw [boot] at loading; cases loading
    | loading boot queue after rest =>
      rw [boot] at loading
      cases loading
      exact .loading rfl queue after rest.add
    | watching boot => rw [boot] at loading; cases loading
  | watchPrefix loaded =>
    cases inv with
    | booting boot => rw [boot] at loaded; cases loaded
    | loading boot queue after rest =>
      rw [boot] at loaded
      cases loaded
      refine .watching rfl (after.trans (List.append_nil []).symm) ?_ rest.done
      change List.Forall₂ _ s.queue []
      rw [queue]
      exact .nil
    | watching boot => rw [boot] at loaded; cases loaded
  | deliver queued =>
    cases inv with
    | booting boot queue => rw [queue] at queued; cases queued
    | loading boot queue => rw [queue] at queued; cases queued
    | watching boot after queue nodes =>
      rw [queued] at queue
      cases queue with
      | cons first rest =>
        refine .watching boot (after.trans (List.append_cons _ _ _)) rest ?_
        intro ip
        change (handleRoutingWatchEvent math unmarshalNode s.graph _ _).nodes.lookup ip = _
        rw [handle_brings first, lookup_addNode, latest_snoc, nodes]
        split
        · rename_i here
          rw [if_pos here.symm, Option.some_or]
        · rename_i there
          rw [if_neg (Ne.symm there)]

end

end Startup

/-- **Which starts end up to date.** When the watch is established and all its events are
processed, every node has its latest telemetry in the graph, exactly if each node that put
telemetry between the read and the watch has put again since, or had put the same before
the read. -/
theorem startup_iff (math : Math) (unmarshalNode : String → Option NodeTelemetry) {s : Startup}
    (run : Run (Moves (Startup.next math unmarshalNode)) (fun _ _ => True) .init s)
    (established : s.boot = .watching) (processed : s.queue = []) :
    (∀ ip tel, latest (s.before ++ s.gap ++ s.after) ip = some tel →
        s.graph.nodes.lookup ip = some tel) ↔
      ∀ ip tel, latest s.gap ip = some tel → latest s.after ip = none →
        latest s.before ip = some tel := by
  have inv : s.Inv unmarshalNode := by
    apply run.invariant (P := Startup.Inv unmarshalNode)
    · exact fun _ _ _ inv _ move => Startup.inv_step inv (Startup.step_of_next move)
    · exact .booting rfl rfl rfl rfl rfl Startup.stored_nil
  cases inv with
  | booting boot => rw [boot] at established; cases established
  | loading boot => rw [boot] at established; cases established
  | watching boot after queue nodes =>
    rw [processed] at queue
    cases queue
    rw [List.append_nil] at after
    simp only [latest_append, nodes, ← after]
    constructor
    · intro all ip tel gap none
      have stays := all ip tel (by rw [none, gap]; rfl)
      rwa [none, Option.none_or] at stays
    · intro again ip tel last
      cases later : latest s.after ip with
      | some tel' =>
        rw [later, Option.some_or] at last
        rw [Option.some_or, last]
      | none =>
        rw [later, Option.none_or] at last
        rw [Option.none_or]
        cases gap : latest s.gap ip with
        | none => rwa [gap, Option.none_or] at last
        | some tel' =>
          rw [gap, Option.some_or] at last
          rw [again ip tel' gap later, last]

/-- Two reports of one node, under different CPU pressure. -/
def twoReports (val : String) : Option NodeTelemetry :=
  if val = "idle" then some ⟨"n", 10, []⟩
  else if val = "busy" then some ⟨"n", 90, []⟩
  else none

/-- A put between the read and the watch is lost: the graph keeps the node's old report. -/
theorem startup_gap_lost :
    ∃ s, Run (Moves (Startup.next unitMath twoReports)) (fun _ _ => True) .init s ∧
      s.boot = .watching ∧ s.queue = [] ∧
      latest (s.before ++ s.gap ++ s.after) "n" = some ⟨"n", 90, []⟩ ∧
      s.graph.nodes.lookup "n" = some ⟨"n", 10, []⟩ := by
  apply Run.exists_of_checked [.put "idle", .getPrefixAll [⟨"/routing-middle/n", "idle"⟩],
    .addNode, .put "busy", .watchPrefix]
  decide +kernel

theorem startup_put_again :
    ∃ s, Run (Moves (Startup.next unitMath twoReports)) (fun _ _ => True) .init s ∧
      latest s.gap "n" = some ⟨"n", 90, []⟩ ∧
      ∀ ip tel, latest (s.before ++ s.gap ++ s.after) ip = some tel →
        s.graph.nodes.lookup ip = some tel := by
  have ran : ∃ s, Run (Moves (Startup.next unitMath twoReports)) (fun _ _ => True) .init s ∧
      s.boot = .watching ∧ s.queue = [] ∧ s.gap = [⟨"n", 90, []⟩] ∧ s.after = [⟨"n", 10, []⟩] := by
    apply Run.exists_of_checked [.put "idle", .getPrefixAll [⟨"/routing-middle/n", "idle"⟩],
      .addNode, .put "busy", .watchPrefix, .put "idle", .deliver]
    decide +kernel
  obtain ⟨s, run, established, processed, gap, after⟩ := ran
  refine ⟨s, run, by rw [gap]; decide +kernel, ?_⟩
  apply (startup_iff unitMath twoReports run established processed).mpr
  intro ip tel put again
  rw [gap] at put
  rw [after] at again
  obtain rfl : tel = ⟨"n", 90, []⟩ := by simpa using (Dict.of_lastOf put).1
  obtain rfl := publicIP_of_latest put
  exact absurd again (by decide +kernel)

end SkyAccel.Control
