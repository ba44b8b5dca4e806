import SkyAccel.Server.RouteCache
import SkyAccel.Server.SharedBatches

/-!
# The destination port of a request

On the wire port 0 marks a response, and the port of a request is read out of the hops of
its path. A documented path names a port at its last hop or leaves it out, in which case
the port of the listener applies. The listeners take the port of the last hop that names
one, and 0 if none does, so a path without a port at its end leads to the documented port
only if the last port on it happens to be the listener's (`request_port_iff`). A frame has the
port that its batch was opened for, which may be that of another request.
-/

namespace SkyAccel.Server

open Aggregator (AggregatorMsg FrameOf Ticket SendInfo)
open Net (ipString itoa parseUint16)
open Strings (join split contains)
open Tunnel

/-! ## The port on the wire -/

/-- The handler treats the frame as a request. -/
def TakesRequestBranch (pkt : List UInt8) : Prop :=
  ∃ header, parseHeader pkt = .ok header ∧ header.port ≠ 0 ∧
    handleQUICPacket pkt = handleRequest pkt header

theorem portField_advanceRawHop (pkt : List UInt8) :
    portField (advanceRawHop pkt) = portField pkt := by
  cases pkt with
  | nil => rfl
  | cons b rest =>
    rw [advanceRawHop]
    split <;> rfl

theorem portField_receive {stream pkt : List UInt8} (h : receive stream = some pkt) :
    portField pkt = portField stream := by
  unfold receive at h
  split at h
  · cases h
  · rename_i long
    simp only at h
    split at h
    · cases h
    · obtain rfl := Option.some.inj h
      have header : 21 ≤ (stream.take headerSize).length := by
        have : headerSize = 24 := rfl
        rw [List.length_take]
        omega
      simp only [portField, Bytes.uint16, List.take_drop, List.append_assoc]
      rw [List.take_append_of_le_length header, List.take_take]
      rfl

/-- Forwarding keeps the port. -/
theorem portField_forwarded {pkt q : List UInt8} {n : Nat} (h : Forwarded pkt n q) :
    portField q = portField pkt := by
  induction h with
  | start => rfl
  | step _ fwd arrived ih =>
    obtain ⟨-, rfl, -⟩ := handleQUICPacket_forward fwd
    rw [portField_receive arrived, portField_advanceRawHop, ih]

theorem length_forwarded {pkt q : List UInt8} {n : Nat} (h : Forwarded pkt n q)
    (long : headerSize ≤ pkt.length) : headerSize ≤ q.length := by
  cases h with
  | start => exact long
  | step _ _ arrived => exact (hopField_receive arrived).2

theorem TakesRequestBranch.port_ne {pkt : List UInt8} (h : TakesRequestBranch pkt)
    (long : headerSize ≤ pkt.length) : portField pkt ≠ 0 := by
  obtain ⟨header, parsed, port, -⟩ := h
  obtain ⟨header', parsed', -, same⟩ := parseHeader_eq long
  obtain rfl := Except.ok.inj (parsed.symm.trans parsed')
  exact same ▸ port

theorem takesRequestBranch_of_port {pkt : List UInt8} (long : headerSize ≤ pkt.length)
    (port : portField pkt ≠ 0) : TakesRequestBranch pkt := by
  obtain ⟨header, parsed, -, same⟩ := parseHeader_eq long
  have request : header.port ≠ 0 := same ▸ port
  refine ⟨header, parsed, request, ?_⟩
  rw [handleQUICPacket, if_neg (not_lt.mpr long), parsed]
  exact if_pos request

/-! ## Documented paths -/

/-- One entry of a path, `IP` or `IP:Port`. -/
structure Hop where
  ip : UInt32
  port : Option UInt16
  deriving DecidableEq

def Hop.text (h : Hop) : String :=
  match h.port with
  | none => ipString h.ip
  | some port => ipString h.ip ++ ":" ++ itoa port.toNat

structure DocumentedPath where
  hops : List Hop
  two : 2 ≤ hops.length
  port_ne : ∀ h ∈ hops, ∀ port ∈ h.port, port ≠ 0

namespace DocumentedPath
variable (p : DocumentedPath)

def texts : List String := p.hops.map Hop.text

/-- The port that the last hop names. -/
def lastPort : Option UInt16 := p.hops.getLast?.bind Hop.port

/-- The port of the last hop that names one. -/
def namedPort : Option UInt16 := (p.hops.filterMap Hop.port).getLast?

/-- Where a request of the listener is to arrive. -/
def documentedPort (listener : UInt16) : UInt16 := p.lastPort.getD listener

theorem texts_ne : p.texts ≠ [] := by
  have := p.two
  exact List.ne_nil_of_length_pos (by rw [texts, List.length_map]; omega)

theorem namedPort_ne {port : UInt16} (named : p.namedPort = some port) : port ≠ 0 := by
  obtain ⟨h, mem, at_⟩ := List.mem_filterMap.mp (List.mem_of_getLast? named)
  exact p.port_ne h mem port at_

theorem namedPort_of_lastPort {port : UInt16} (last : p.lastPort = some port) :
    p.namedPort = some port := by
  obtain ⟨h, atEnd, named⟩ := Option.bind_eq_some_iff.mp last
  obtain ⟨before, hops⟩ := List.getLast?_eq_some_iff.mp atEnd
  rw [namedPort, hops, List.filterMap_append, List.filterMap_cons_some named, List.filterMap_nil,
    List.getLast?_append]
  rfl

end DocumentedPath

/-- The text of a port as `cutPort` leaves it. -/
def portText : Option UInt16 → String
  | none => ""
  | some port => itoa port.toNat

theorem cutPort_text (st : List String × String) (h : Hop) :
    cutPort st h.text = (st.1 ++ [ipString h.ip], h.port.elim st.2 fun port => itoa port.toNat) := by
  obtain ⟨ip, port⟩ := h
  cases port with
  | none =>
    have free : contains (ipString ip) ":" = false :=
      Net.ipString_free ip (c := ':') rfl rfl (by decide)
    simp only [Hop.text, cutPort, free, Bool.false_eq_true, if_false, Option.elim]
  | some port =>
    have colon : contains (ipString ip ++ ":" ++ itoa port.toNat) ":" = true := by
      rw [Strings.contains_iff]
      refine ⟨(ipString ip).toList, (itoa port.toNat).toList, ?_⟩
      rw [String.toList_append, String.toList_append]
    have parts : split (ipString ip ++ ":" ++ itoa port.toNat) ":" =
        [ipString ip, itoa port.toNat] := Net.split_hostPort _ _
    simp only [Hop.text, cutPort, colon, if_true, parts, Option.elim]
    rfl

/-- The loop over the hops takes the addresses, and the last port named. -/
theorem cutPorts_texts (hops : List Hop) :
    cutPorts (hops.map Hop.text) =
      (hops.map fun h => ipString h.ip, portText (hops.filterMap Hop.port).getLast?) := by
  induction hops using List.reverseRecOn with
  | nil => rfl
  | append_singleton hops h ih =>
    rw [cutPorts] at ih ⊢
    rw [List.map_append, List.foldl_append, ih, List.map_singleton, List.foldl_cons, List.foldl_nil,
      cutPort_text, List.map_append, List.filterMap_append]
    cases named : h.port with
    | none =>
      simp only [Option.elim, List.map_singleton, List.filterMap_cons_none named, List.filterMap_nil,
        List.append_nil]
    | some port =>
      simp only [Option.elim, List.map_singleton, List.filterMap_cons_some named,
        List.filterMap_nil, List.getLast?_append, List.getLast?_singleton, Option.some_or]
      rfl

theorem parseUint16_portText (named : Option UInt16) :
    parseUint16 (portText named) = named.getD 0 := by
  cases named with
  | none => decide
  | some port => exact Net.parseUint16_itoa port

/-! ## Requests -/

/-- What a client sends: a connection, of which a line is read, or a datagram. -/
inductive ClientRequest
  | tcp (conn : List UInt8)
  | udp (data : List UInt8)

namespace ClientRequest

def handle (routing : List (List String)) (reqID : UInt32) : ClientRequest → Dispatch
  | .tcp conn => handleConnection routing reqID conn
  | .udp data => handleUDPConnection routing reqID data

/-- The path that the listener takes. -/
def used (paths : List DocumentedPath) : ClientRequest → Option DocumentedPath
  | .tcp _ => (paths.find? fun p => 2 < p.hops.length).or paths.head?
  | .udp _ => paths.head?

end ClientRequest

theorem addToBatch_port {emerge : Bool} {protocol : String} {hops : List String} {reqID : UInt32}
    {data : List UInt8} {msg : AggregatorMsg}
    (h : addToBatch emerge protocol hops reqID data = .add msg) :
    msg.port = parseUint16 (cutPorts hops).2 := by
  unfold addToBatch at h
  split at h
  · cases h
  · injection h with same
    rw [← same]

theorem find_texts (paths : List DocumentedPath) (first : DocumentedPath) :
    (((first :: paths).map DocumentedPath.texts).find? fun hops => 2 < hops.length).getD
      first.texts = (((first :: paths).find? fun p => 2 < p.hops.length).getD first).texts := by
  have length : (fun hops : List String => decide (2 < hops.length)) ∘ DocumentedPath.texts =
      fun p => decide (2 < p.hops.length) := by
    funext p
    simp only [Function.comp, DocumentedPath.texts, List.length_map]
  rw [List.find?_map, length]
  cases (first :: paths).find? fun p => decide (2 < p.hops.length) <;> rfl

/-- The message of a request has the last port that the path names. -/
theorem handle_port {r : ClientRequest} {paths : List DocumentedPath} {reqID : UInt32}
    {msg : AggregatorMsg} (h : r.handle (paths.map DocumentedPath.texts) reqID = .add msg) :
    ∃ p ∈ r.used paths, p ∈ paths ∧ msg.port = p.namedPort.getD 0 := by
  have port : ∀ {emerge protocol data} {p : DocumentedPath},
      addToBatch emerge protocol p.texts reqID data = .add msg → msg.port = p.namedPort.getD 0 := by
    intro emerge protocol data p added
    rw [addToBatch_port added, DocumentedPath.texts, cutPorts_texts, parseUint16_portText]
    rfl
  cases paths with
  | nil =>
    cases r with
    | tcp conn =>
      simp only [ClientRequest.handle, handleConnection, List.map_nil] at h
      split at h <;> cases h
    | udp data => cases h
  | cons first paths =>
    cases r with
    | tcp conn =>
      simp only [ClientRequest.handle, handleConnection] at h
      split at h
      · cases h
      · simp only [List.map_cons] at h
        rw [← List.map_cons, find_texts] at h
        refine ⟨_, ?_, ?_, port h⟩
        · cases found : (first :: paths).find? fun p => decide (2 < p.hops.length) <;>
            simp only [ClientRequest.used, found] <;> rfl
        · cases found : (first :: paths).find? fun p => decide (2 < p.hops.length) with
          | none => exact List.mem_cons_self
          | some p => exact List.mem_of_find?_eq_some found
    | udp data =>
      simp only [ClientRequest.handle, handleUDPConnection, List.map_cons] at h
      split at h
      · split at h <;> cases h
      · exact ⟨first, rfl, List.mem_cons_self, port h⟩

/-! ## The paths of a listener -/

/-- The paths that a proxy may use for its listener: the one of a test route, in either
form, or those of the control plane, which name the port of the origin. -/
inductive Usable (cfg : ProxyConfig) (listener : UInt16) (answer : Answer) :
    List DocumentedPath → Prop
  | test {p : DocumentedPath} :
      (cfg.testPathMap.lookup (listener.toNat : Int) : Option String) = some (join p.texts ",") →
      p.texts[0]? = some cfg.publicIP → Usable cfg listener answer [p]
  | control {paths : List DocumentedPath} {routing : List PathInfo} :
      testRoute cfg listener.toNat = none → answer = .response 200 ⟨routing⟩ →
      routing.map PathInfo.hops = paths.map DocumentedPath.texts →
      (∀ p ∈ paths, p.lastPort.isSome) → Usable cfg listener answer paths

theorem Hop.text_free (h : Hop) : contains h.text "," = false := by
  obtain ⟨ip, port⟩ := h
  have address : contains (ipString ip) "," = false :=
    Net.ipString_free ip (c := ',') rfl rfl (by decide)
  cases port with
  | none => exact address
  | some port =>
    have number : contains (itoa port.toNat) "," = false := Net.itoa_free _ (c := ',') rfl rfl
    rw [Net.contains_char (c := ',') rfl] at address number ⊢
    simp only [Hop.text, String.toList_append, List.mem_append, address, number, or_false, false_or]
    decide

theorem DocumentedPath.split_texts (p : DocumentedPath) : split (join p.texts ",") "," = p.texts := by
  apply Strings.split_join (Net.char_unbordered rfl) (by decide) p.texts_ne
  intro text mem
  obtain ⟨h, -, rfl⟩ := List.mem_map.mp mem
  exact h.text_free

theorem Usable.routing {cfg : ProxyConfig} {listener : UInt16} {answer : Answer}
    {paths : List DocumentedPath} (h : Usable cfg listener answer paths) {info : RoutingInfo}
    (returned : getRoutingFromControlPlane cfg listener.toNat answer = some info) :
    info.routing.map PathInfo.hops = paths.map DocumentedPath.texts := by
  cases h with
  | @test p entry first =>
    have two : 2 ≤ p.texts.length := by
      rw [DocumentedPath.texts, List.length_map]
      exact p.two
    have route : testRoute cfg listener.toNat = some ⟨[⟨p.texts, 0, 0⟩]⟩ := by
      simp only [testRoute, entry, p.split_texts, two, first, and_self, if_true]
    rw [RouteCache.routing_of_testRoute route] at returned
    obtain rfl := Option.some.inj returned
    rfl
  | control none response routes _ =>
    subst response
    simp only [getRoutingFromControlPlane, none, ne_eq, not_true_eq_false, if_false] at returned
    obtain rfl := Option.some.inj returned
    exact routes

/-- The frame is for the documented port, and no node takes it for a response. -/
def ReachesPort (listener : UInt16) (p : DocumentedPath) (frame : List UInt8) : Prop :=
  portField frame = p.documentedPort listener ∧ portField frame ≠ 0 ∧
    ∀ n q, Forwarded frame n q → TakesRequestBranch q

/-- The documented port is the last one named exactly if the last hop names one, or the
last port named is the listener's. -/
theorem DocumentedPath.documentedPort_iff (p : DocumentedPath) {listener : UInt16}
    (listening : listener ≠ 0) :
    p.namedPort.getD 0 = p.documentedPort listener ↔
      p.lastPort.isSome ∨ p.namedPort = some listener := by
  unfold documentedPort
  cases last : p.lastPort with
  | some port =>
    rw [p.namedPort_of_lastPort last]
    exact iff_of_true rfl (.inl rfl)
  | none =>
    simp only [Option.getD_none, Option.isSome_none, Bool.false_eq_true, false_or]
    cases p.namedPort with
    | none => exact iff_of_false (fun zero => listening zero.symm) nofun
    | some port => exact Option.some_inj.symm

theorem DocumentedPath.documentedPort_ne (p : DocumentedPath) {listener : UInt16}
    (listening : listener ≠ 0) : p.documentedPort listener ≠ 0 := by
  unfold documentedPort
  cases last : p.lastPort with
  | some port => exact p.namedPort_ne (p.namedPort_of_lastPort last)
  | none => exact listening

/-- **A request goes to its documented port**, as a request at every node, exactly if the
last hop of its path names a port, or the last port named on the path is the listener's.
This is for frames with the port of the message, whatever the aggregator does. The frames of
an aggregator have it in which each batch has the header of the messages that are added. -/
theorem request_port_iff {agg : Aggregator.Config} {s : Aggregator.State}
    (run : Run (Aggregator.Step agg) (fun _ _ => True) Aggregator.State.init s) {f : SendInfo}
    (sent : f ∈ s.frames) {t : Ticket} (carried : t ∈ f.log) {cfg : ProxyConfig} {listener : UInt16}
    (listening : listener ≠ 0) {answer : Answer} {paths : List DocumentedPath}
    (usable : Usable cfg listener answer paths) {info : RoutingInfo}
    (returned : getRoutingFromControlPlane cfg listener.toNat answer = some info)
    {r : ClientRequest} {reqID : UInt32}
    (emitted : r.handle (info.routing.map PathInfo.hops) reqID = .add t.msg) {p : DocumentedPath}
    (used : r.used paths = some p) :
    (portField f.p = t.msg.port →
      (ReachesPort listener p f.p ↔ p.lastPort.isSome ∨ p.namedPort = some listener)) ∧
    (Run (Aggregator.Step agg) (Aggregator.Agrees agg) Aggregator.State.init s →
      portField f.p = t.msg.port) := by
  have any : Run (Aggregator.Step agg) (fun _ e => ∀ msg ∈ e.message, True)
      Aggregator.State.init s := run.mono fun _ _ _ _ _ => trivial
  obtain ⟨-, q, body, -, -, -, -, -, wire, -⟩ := (Aggregator.from_of_run any sent).opener carried
  rw [usable.routing returned] at emitted
  obtain ⟨p', used', -, port⟩ := handle_port emitted
  obtain rfl := Option.some.inj (used.symm.trans used')
  have long : headerSize ≤ f.p.length := by
    rw [wire, length_wire]
    exact Nat.le_add_right _ _
  refine ⟨fun own => ?_, fun agreed => ?_⟩
  · rw [← p.documentedPort_iff listening, ← port, ← own]
    refine ⟨And.left, fun same => ⟨same, ?_, fun n q forwarded => ?_⟩⟩
    · rw [same]
      exact p.documentedPort_ne listening
    · apply takesRequestBranch_of_port (length_forwarded forwarded long)
      rw [portField_forwarded forwarded, same]
      exact p.documentedPort_ne listening
  · obtain ⟨q, header, -, wire⟩ := (Aggregator.frameOf_of_run agreed sent carried).wire
    obtain ⟨h, parsed, -, same⟩ := parseHeader_eq long
    rw [wire, parseHeader_wire] at parsed
    rw [← same, ← header.port, ← Except.ok.inj parsed]
    rfl

/-! ## Test routes -/

/-- Three nodes, without a port and with one. -/
def barePath : DocumentedPath where
  hops := [⟨167772161, none⟩, ⟨167772162, none⟩, ⟨167772163, none⟩]
  two := by decide
  port_ne := by simp

def portPath (port : UInt16) (port_ne : port ≠ 0) : DocumentedPath where
  hops := [⟨167772161, none⟩, ⟨167772162, none⟩, ⟨167772163, some port⟩]
  two := by simp
  port_ne := by simpa using port_ne

/-- Node 10.0.0.1 with a test route without a port and two with one. -/
def testing : ProxyConfig where
  publicIP := "10.0.0.1"
  testPathMap := (((∅ : Dict Int String).insert 8081 "10.0.0.1,10.0.0.2,10.0.0.3").insert 8082
    "10.0.0.1,10.0.0.2,10.0.0.3:9001").insert 8083 "10.0.0.1,10.0.0.2,10.0.0.3:9002"

def greeting (port : UInt16) : AggregatorMsg where
  emerge := false
  routingKey := "10.0.0.1,10.0.0.2,10.0.0.3"
  protocol := "tcp"
  port := port
  hops := ["10.0.0.1", "10.0.0.2", "10.0.0.3"]
  nextHop := some 167772162
  userID := 7
  data := [104, 105, 10]

/-- Two messages with one routing key arrive and leave in one frame. -/
def twoLines (first second : AggregatorMsg) : List Aggregator.Event :=
  [.receive first, .create [0], .append, .push 0, .unlock, .receive second, .append, .unlock,
    .expire 60000000, .flushBatch, .flush]

/-- The last hop has no port, so the message is for port 0 and its frame is taken for a
response, though the listener's port 8081 applies. A request on 8083 for port 9002 leaves for
port 9001 in the batch of one on 8082. -/
theorem barePath_mistaken :
    (Usable testing 8081 .postFailed [barePath] ∧
      (getRoutingFromControlPlane testing 8081 .postFailed).map
        (fun info => (ClientRequest.tcp [104, 105, 10]).handle (info.routing.map PathInfo.hops) 7) =
          some (.add (greeting 0)) ∧
      barePath.documentedPort 8081 = 8081 ∧
      ∃ s, Run (Aggregator.Step Aggregator.shipped) (Aggregator.Agrees Aggregator.shipped)
          Aggregator.State.init s ∧
        ∃ f ∈ s.frames, ⟨0, greeting 0⟩ ∈ f.log ∧ portField f.p = 0 ∧ ¬ TakesRequestBranch f.p) ∧
    (Usable testing 8083 .postFailed [portPath 9002 (by decide)] ∧
      (getRoutingFromControlPlane testing 8083 .postFailed).map
        (fun info => (ClientRequest.tcp (line 105)).handle (info.routing.map PathInfo.hops) 9) =
          some (.add (lineMessage (portRoute 9002 (by decide)) 9 (line 105))) ∧
      ∃ s, Run (Aggregator.Step Aggregator.shipped) (fun _ _ => True) Aggregator.State.init s ∧
        ∃ f ∈ s.frames, ⟨1, lineMessage (portRoute 9002 (by decide)) 9 (line 105)⟩ ∈ f.log ∧
          portField f.p = 9001) := by
  refine ⟨⟨.test (by decide +kernel) (by decide +kernel), by decide +kernel, rfl, ?_⟩,
    ⟨.test (by decide +kernel) (by decide +kernel), by decide +kernel, ?_⟩⟩
  · obtain ⟨s, run, seen⟩ : ∃ s, Run (Moves (Aggregator.State.next Aggregator.shipped))
        (Aggregator.Agrees Aggregator.shipped) Aggregator.State.init s ∧
        s.frames.map (fun f => (f.log, f.p.length, portField f.p)) =
          [([⟨0, greeting 0⟩], 33, 0)] := by
      apply Run.exists_of_checked [.receive (greeting 0)]
      decide +kernel
    have run := run.imp fun _ _ _ _ => Aggregator.step_of_next Aggregator.shipped
    obtain ⟨f, mem, view⟩ := List.mem_map.mp (seen ▸ List.mem_singleton_self _)
    simp only [Prod.mk.injEq] at view
    obtain ⟨log, long, port⟩ := view
    refine ⟨s, run, f, mem, by simp [log], port, fun taken => ?_⟩
    exact taken.port_ne (by rw [long]; decide) port
  · obtain ⟨s, run, seen⟩ : ∃ s, Run (Moves (Aggregator.State.next Aggregator.shipped))
        (fun _ _ => True) Aggregator.State.init s ∧
        s.frames.map (fun f => (f.log, portField f.p)) =
          [([⟨0, lineMessage (portRoute 9001 (by decide)) 7 (line 104)⟩,
            ⟨1, lineMessage (portRoute 9002 (by decide)) 9 (line 105)⟩], 9001)] := by
      apply Run.exists_of_checked (twoLines (lineMessage (portRoute 9001 (by decide)) 7 (line 104))
        (lineMessage (portRoute 9002 (by decide)) 9 (line 105)))
      decide +kernel
    have run := run.imp fun _ _ _ _ => Aggregator.step_of_next Aggregator.shipped
    obtain ⟨f, mem, view⟩ := List.mem_map.mp (seen ▸ List.mem_singleton_self _)
    simp only [Prod.mk.injEq] at view
    exact ⟨s, run, f, mem, by simp [view.1], view.2⟩

/-- Two requests on 8082 leave in one frame for port 9001. -/
theorem portPath_reaches :
    ∃ (s : Aggregator.State) (f : SendInfo), f ∈ s.frames ∧
      f.log = [⟨0, lineMessage (portRoute 9001 (by decide)) 7 (line 104)⟩,
        ⟨1, lineMessage (portRoute 9001 (by decide)) 9 (line 105)⟩] ∧
      ReachesPort 8082 (portPath 9001 (by decide)) f.p := by
  obtain ⟨s, run, seen⟩ : ∃ s, Run (Moves (Aggregator.State.next Aggregator.shipped))
      (Aggregator.Agrees Aggregator.shipped) Aggregator.State.init s ∧ s.frames.map SendInfo.log =
        [[⟨0, lineMessage (portRoute 9001 (by decide)) 7 (line 104)⟩,
          ⟨1, lineMessage (portRoute 9001 (by decide)) 9 (line 105)⟩]] := by
    apply Run.exists_of_checked (twoLines (lineMessage (portRoute 9001 (by decide)) 7 (line 104))
      (lineMessage (portRoute 9001 (by decide)) 9 (line 105)))
    decide +kernel
  have run := run.imp fun _ _ _ _ => Aggregator.step_of_next Aggregator.shipped
  obtain ⟨f, mem, log⟩ := List.mem_map.mp (seen ▸ List.mem_singleton_self _)
  have usable : Usable testing 8082 .postFailed [portPath 9001 (by decide)] :=
    .test (by decide +kernel) (by decide +kernel)
  have returned : getRoutingFromControlPlane testing 8082 .postFailed =
      some ⟨[⟨["10.0.0.1", "10.0.0.2", "10.0.0.3:9001"], 0, 0⟩]⟩ := by decide +kernel
  have emitted : (ClientRequest.tcp (line 105)).handle
      [["10.0.0.1", "10.0.0.2", "10.0.0.3:9001"]] 9 =
      .add (lineMessage (portRoute 9001 (by decide)) 9 (line 105)) := by decide +kernel
  obtain ⟨reaches, own⟩ := request_port_iff
    (t := ⟨1, lineMessage (portRoute 9001 (by decide)) 9 (line 105)⟩)
    (run.mono fun _ _ _ => trivial) mem (by simp [log]) (by decide) usable returned emitted rfl
  exact ⟨s, f, mem, log, (reaches (own run)).mpr (.inl rfl)⟩

end SkyAccel.Server
