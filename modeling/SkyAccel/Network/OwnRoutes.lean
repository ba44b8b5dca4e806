import SkyAccel.Network.AtMostOnce
import SkyAccel.Server.SharedBatches

/-!
# Every record on its own route

A frame carries records of many clients under one header, batches are shared by requests with
one list of hops, and the way back is put together from the header that came with the request.
Whatever the proxies of a network do, a record is submitted only for the origin of its own
route, at the last node of the route, and the answer is delivered only at the first
(`own_routes`).

The requests are those of a set `R`, and `B` tells what the origins answer. A frame is bound
for a hop of the routes of all its records (`Flight.Bound`), and every node sends it on to the
next hop or ends its way.
-/

namespace SkyAccel.Network

open Aggregator (AggregatorMsg Attributed Claimed Config HeaderOf Keyed Outgoing SendInfo State
  emerges hopSlots records)
open Net (ipString itoa joinHostPort)
open Server (Dispatch Route routingKey_injective)
open Tunnel (BackSourceTask Effect Packet SubPacket backSourceTask encodeAll headerSize isLastHop
  received)

/-! ## Requests -/

/-- The request of a client as a listener puts it on the network. -/
structure Request where
  route : Route
  udp : Bool
  userID : UInt32
  data : List UInt8

namespace Request
variable (x : Request)

def sub : SubPacket := ⟨x.userID, x.data⟩

def message : AggregatorMsg :=
  x.route.message x.udp (if x.udp then "udp" else "tcp") x.userID x.data

/-- What the back-sourcer at the end of the route gets. -/
def task : BackSourceTask := x.route.task x.sub

/-- The nodes of the way back, from the last to the first. -/
def back : List UInt32 := x.route.ips.dropLast.reverse

def reply (resp : List UInt8) : AggregatorMsg := x.route.reply x.userID resp

theorem length_back : x.back.length + 1 = x.route.ips.length := by
  have := x.route.two
  simp only [back, List.length_reverse, List.length_dropLast]
  omega

theorem back_ne : x.back ≠ [] := by
  have := x.length_back
  have := x.route.two
  exact List.ne_nil_of_length_pos (by omega)

end Request

/-- The routes have no more hops than a header and no hop that stands for a free slot, and TCP
requests along one path are for one port. -/
structure Routable (R : Request → Prop) : Prop where
  four : ∀ x, R x → x.route.ips.length ≤ 4
  nonzero : ∀ x, R x → ∀ ip ∈ x.route.ips, ip ≠ 0
  ports : ∀ x y, R x → R y → x.udp = false → y.udp = false → x.route.ips = y.route.ips →
    x.route.port = y.route.port

/-- The messages that an aggregator of a direction gets. -/
inductive Sends (R : Request → Prop) (B : Request → List UInt8 → Prop) :
    Direction → AggregatorMsg → Prop
  | request {x : Request} : R x → Sends R B .request x.message
  | response {x : Request} {resp : List UInt8} : R x → B x resp →
      Sends R B .response (x.reply resp)

section
variable {R : Request → Prop} {B : Request → List UInt8 → Prop} {cfg : Config}

theorem Routable.back (routable : Routable R) {x : Request} (own : R x) :
    x.back.length ≤ 3 ∧ ∀ ip ∈ x.back, ip ≠ 0 := by
  have length := x.length_back
  have four := routable.four x own
  refine ⟨by omega, fun ip mem => ?_⟩
  exact routable.nonzero x own ip (List.mem_of_mem_dropLast (List.mem_reverse.mp mem))

/-- Batches are shared along one path only, which has one port. -/
theorem keyed (routable : Routable R) (d : Direction) : Keyed cfg (Sends R B d) := by
  intro msg msg' sends sends' batched batched' key
  cases sends with
  | @request x own =>
    cases sends' with
    | @request y own' =>
      have tcp : x.udp = false := by
        by_contra udp
        simp [emerges, Request.message, Route.message, udp] at batched
      have tcp' : y.udp = false := by
        by_contra udp
        simp [emerges, Request.message, Route.message, udp] at batched'
      have path : x.route.ips = y.route.ips :=
        routingKey_injective x.route.ips_ne y.route.ips_ne key
      have port := routable.ports x y own own' tcp tcp' path
      refine ⟨?_, fun p header => ?_⟩
      · simp [Request.message, Route.message, Route.inner, path]
      · obtain ⟨pos, slots, number, protocol⟩ := header
        simp only [Request.message, Route.message, path, port, tcp] at slots number protocol
        exact ⟨pos, slots, number, by rw [protocol, Request.message, Route.message, tcp']⟩
  | @response x resp own answered =>
    cases sends' with
    | @response y resp' own' answered' =>
      have path : x.back = y.back := routingKey_injective x.back_ne y.back_ne key
      simp only [Request.back] at path
      refine ⟨?_, fun p header => ?_⟩
      · simp [Request.reply, Route.reply, path]
      · obtain ⟨pos, slots, number, protocol⟩ := header
        simp only [Request.reply, Route.reply, path] at slots number protocol
        exact ⟨pos, slots, number, protocol⟩

end

/-! ## Frames -/

/-- A frame with the header `p` is on its way to `addr`, which is hop `i` of the path. -/
structure Heads (path : List UInt32) (i : Nat) (p : Packet) (addr : UInt32) : Prop where
  first : 1 ≤ i
  slots : p.hopIP = hopSlots (path.map ipString)
  pos : p.hopPos = UInt8.ofNat i
  there : path[i]? = some addr

namespace Heads
variable {path : List UInt32} {i : Nat} {p q : Packet} {addr nextIP : UInt32}

theorem inside (h : Heads path i p addr) : i < path.length := Store.lt_of_some h.there

theorem slot (h : Heads path i p addr) {j : Nat} (low : j < 4) :
    p.hopIP[j] = path[j]?.getD 0 := by
  simp only [h.slots, Aggregator.hopSlots_getElem]

/-- A slot of a header is free where the path has ended. -/
theorem free (h : Heads path i p addr) (nonzero : ∀ ip ∈ path, ip ≠ 0) {j : Nat} (low : j < 4) :
    (p.hopIP[j] == 0) = decide (path.length ≤ j) := by
  rw [h.slot low]
  by_cases ended : path.length ≤ j
  · simp [ended]
  · have inside := Nat.lt_of_not_le ended
    simp [ended, List.getElem?_eq_getElem inside, nonzero _ (List.getElem_mem inside)]

/-- A request is at its last node if the next hop is the last one, the origin. -/
theorem isLastHop_request (h : Heads path i p addr) (four : path.length ≤ 4)
    (nonzero : ∀ ip ∈ path, ip ≠ 0) (more : i + 1 < path.length) :
    isLastHop p 2 2 = some (decide (i + 2 = path.length)) := by
  have first := h.first
  have pos := h.pos
  obtain rfl | rfl : i = 1 ∨ i = 2 := by omega
  · rw [Tunnel.isLastHop_near p (i := 3) pos (by decide) (by decide) (by decide),
      h.free nonzero (by decide), show (UInt8.ofNat 1 == 2) = false by decide, Bool.or_false]
    exact congrArg some (decide_eq_decide.mpr (by omega))
  · have last : 2 + 2 = path.length := by omega
    rw [isLastHop, pos, decide_eq_true last]
    rfl

/-- A response is at its last node if there is no next hop. -/
theorem isLastHop_response (h : Heads path i p addr) (three : path.length ≤ 3)
    (nonzero : ∀ ip ∈ path, ip ≠ 0) :
    isLastHop p 3 1 = some (decide (i + 1 = path.length)) := by
  have first := h.first
  have inside := h.inside
  have pos := h.pos
  obtain rfl | rfl : i = 1 ∨ i = 2 := by omega
  · rw [Tunnel.isLastHop_near p (i := 2) pos (by decide) (by decide) (by decide),
      h.free nonzero (by decide), show (UInt8.ofNat 1 == 3) = false by decide, Bool.or_false]
    exact congrArg some (decide_eq_decide.mpr (by omega))
  · rw [Tunnel.isLastHop_near p (i := 3) pos (by decide) (by decide) (by decide),
      h.free nonzero (by decide), show (UInt8.ofNat 2 == 3) = false by decide, Bool.or_false]
    exact congrArg some (decide_eq_decide.mpr (by omega))

/-- A frame that is sent on is on its way to the next hop. -/
theorem onward (h : Heads path i p addr) (four : path.length ≤ 4) (more : i + 1 < path.length)
    (slot : p.hopIP[(p.hopPos + 1).toNat]? = some nextIP) (slots : q.hopIP = p.hopIP)
    (pos : p.hopPos.toNat < 3 → q.hopPos = p.hopPos + 1) : Heads path (i + 1) q nextIP := by
  have first := h.first
  have next : (p.hopPos + 1).toNat = i + 1 ∧ p.hopPos.toNat < 3 := by
    rw [h.pos]
    obtain rfl | rfl : i = 1 ∨ i = 2 := by omega
    · decide
    · decide
  refine ⟨Nat.le_add_left 1 i, slots.trans h.slots, ?_, ?_⟩
  · rw [pos next.2, h.pos]
    obtain rfl | rfl : i = 1 ∨ i = 2 := by omega
    · decide
    · decide
  · rw [next.1, Vector.getElem?_eq_getElem (by omega), h.slot] at slot
    rw [← slot, List.getElem?_eq_getElem more]
    rfl

end Heads

/-- The header and the address of a frame are those of the route of one of its records. -/
inductive Bears (R : Request → Prop) (B : Request → List UInt8 → Prop) (p : Packet)
    (addr : UInt32) : Direction → SubPacket → Prop
  | request {x : Request} {i : Nat} : R x → p.port = x.route.port →
      Heads x.route.ips i p addr → i + 1 < x.route.ips.length → Bears R B p addr .request x.sub
  | response {x : Request} {resp : List UInt8} {i : Nat} : R x → B x resp → p.port = 0 →
      Heads x.back i p addr → Bears R B p addr .response ⟨x.userID, resp⟩

/-- The frame carries its records, and is bound for a hop of the routes of all of them. -/
def Flight.Bound (R : Request → Prop) (B : Request → List UInt8 → Prop) (f : Flight) : Prop :=
  ∃ p : Packet, p.payloadLen.toNat = (encodeAll f.subs).length ∧
    f.pkt = p.wire (encodeAll f.subs) ∧ ∀ sub ∈ f.subs, Bears R B p f.addr f.dir sub

/-- The node ends the route of a request that the task is made of. -/
def Ends (R : Request → Prop) (addr : UInt32) (task : BackSourceTask) : Prop :=
  ∃ x, R x ∧ 3 ≤ x.route.ips.length ∧ task = x.task ∧ x.back.head? = some addr

/-- The node begins the route of a request that the record answers. -/
def Begins (R : Request → Prop) (B : Request → List UInt8 → Prop) (addr : UInt32)
    (sub : SubPacket) : Prop :=
  ∃ x resp, R x ∧ B x resp ∧ sub = ⟨x.userID, resp⟩ ∧ x.route.ips.head? = some addr

section
variable {R : Request → Prop} {B : Request → List UInt8 → Prop} {cfg : Config} {p q : Packet}
  {addr nextIP : UInt32} {d : Direction} {sub : SubPacket}

theorem second_hop {r : Route} (next : r.inner.head? = some addr) :
    r.ips[1]? = some addr ∧ 2 < r.ips.length := by
  obtain ⟨a, b, ips⟩ | ⟨a, b, c, ips⟩ | ⟨a, b, c, d, ips⟩ | ⟨a, b, c, d, e, rest, ips⟩ := r.shape
  · simp [Route.inner, ips] at next
  · simpa [Route.inner, ips] using next
  · simpa [Route.inner, ips] using next
  · simpa [Route.inner, ips] using next

/-- A frame leaves for the second hop. -/
theorem Sends.bears {msg : AggregatorMsg} (sends : Sends R B d msg) (header : HeaderOf msg p)
    (next : msg.nextHop = some addr) : Bears R B p addr d msg.sub := by
  cases sends with
  | @request x own =>
    obtain ⟨there, more⟩ := second_hop next
    exact .request own header.port ⟨le_refl 1, header.hopIP, header.hopPos, there⟩ more
  | @response x resp own answered =>
    exact .response own answered header.port ⟨le_refl 1, header.hopIP, header.hopPos, next⟩

/-- What holds of a worker whose messages go along routable routes. -/
structure Works (cfg : Config) (Q : AggregatorMsg → Prop) (w : State) : Prop where
  attributed : Attributed cfg Q w
  claimed : Claimed w
  outgoing : Outgoing cfg Q w

theorem Works.step {Q : AggregatorMsg → Prop} {w w' : State} (h : Works cfg Q w)
    (low : headerSize ≤ cfg.bufferSize) (high : cfg.bufferSize ≤ 65559)
    (timeout : 20 < cfg.batchTimeoutMs) {e : Aggregator.Event} (own : ∀ msg ∈ e.message, Q msg)
    (move : Aggregator.Step cfg w e w') : Works cfg Q w' :=
  ⟨h.attributed.step own move, h.claimed.step move,
    h.outgoing.step h.claimed low high timeout own move⟩

/-- A frame without records announces none, and one with records has the header of each. -/
theorem Works.carriesOwn {Q : AggregatorMsg → Prop} {w : State} (h : Works cfg Q w)
    (keyed : Keyed cfg Q) (low : headerSize ≤ cfg.bufferSize) (high : cfg.bufferSize ≤ 65559)
    (timeout : 20 < cfg.batchTimeoutMs) {f : SendInfo} (sent : f ∈ w.frames) :
    f.CarriesOwn Q := by
  by_cases none : f.log = []
  · obtain ⟨-, p, -, -, length, bytes⟩ := h.outgoing.frames f sent
    exact ⟨p, length, bytes, by simp [none]⟩
  · exact (h.attributed.labelled.frames f sent).carriesOwn keyed low high timeout none

theorem bound_of_launch (routable : Routable R) (low : headerSize ≤ cfg.bufferSize)
    (high : cfg.bufferSize ≤ 65559) (timeout : 20 < cfg.batchTimeoutMs) {w : State}
    (h : Works cfg (Sends R B d) w) {frames : List SendInfo} (sent : ∀ f ∈ frames, f ∈ w.sent) :
    ∀ f ∈ launch d frames, f.Bound R B := by
  intro f mem
  obtain ⟨info, listed, made⟩ := List.mem_filterMap.mp mem
  obtain ⟨addr, next, rfl⟩ := Option.map_eq_some_iff.mp made
  obtain ⟨p, length, bytes, own⟩ := h.carriesOwn (keyed routable d) low high timeout
    (List.mem_append_left _ (sent info listed))
  refine ⟨p, length, bytes, fun sub mem => ?_⟩
  obtain ⟨t, logged, rfl⟩ := List.mem_map.mp mem
  obtain ⟨sends, header, hop⟩ := own t logged
  exact sends.bears header (hop.symm.trans next)

/-- Only requests carry a port. -/
theorem Bears.submitted (routable : Routable R) (bears : Bears R B p addr d sub)
    (port : p.port ≠ 0) (last : isLastHop p 2 2 = some true) {originIP : UInt32}
    (slot : p.hopIP[p.hopPos.toNat + 1]? = some originIP) :
    Ends R addr (backSourceTask p (joinHostPort (ipString originIP) (itoa p.port.toNat)) sub) := by
  cases bears with
  | response _ _ zero _ => exact absurd zero port
  | @request x i own same heads more =>
    have four := routable.four x own
    rw [heads.isLastHop_request four (routable.nonzero x own) more] at last
    have ended : i + 2 = x.route.ips.length := by simpa using last
    have first := heads.first
    have pos : p.hopPos.toNat = i := by
      rw [heads.pos]
      obtain rfl | rfl : i = 1 ∨ i = 2 := by omega
      · rfl
      · rfl
    have origin : originIP = x.route.origin := by
      rw [pos, Vector.getElem?_eq_getElem (by omega), heads.slot,
        List.getElem?_eq_getElem more] at slot
      rw [← Option.some.inj slot, Route.origin, List.getLast_eq_getElem]
      simp only [Option.getD_some, show x.route.ips.length - 1 = i + 1 by omega]
    refine ⟨x, own, by omega, ?_, ?_⟩
    · rw [origin, backSourceTask, heads.slots, same, Net.joinHostPort_ipString]
      rfl
    · rw [Request.back, List.head?_reverse, List.getLast?_eq_getElem?, List.length_dropLast,
        List.getElem?_dropLast, if_pos (by omega), ← heads.there,
        show x.route.ips.length - 1 - 1 = i by omega]

theorem Bears.delivered (routable : Routable R) (bears : Bears R B p addr d sub)
    (port : p.port = 0) (last : isLastHop p 3 1 = some true) : Begins R B addr sub := by
  cases bears with
  | @request x i own same _ _ => exact absurd (same.symm.trans port) x.route.port_ne
  | @response x resp i own answered _ heads =>
    obtain ⟨three, nonzero⟩ := routable.back own
    rw [heads.isLastHop_response three nonzero] at last
    have ended : i + 1 = x.back.length := by simpa using last
    refine ⟨x, resp, own, answered, rfl, ?_⟩
    have there := heads.there
    rw [show i = x.back.length - 1 by omega, ← List.getLast?_eq_getElem?, Request.back,
      List.getLast?_reverse] at there
    rw [← there, List.head?_eq_getElem?, List.head?_eq_getElem?, List.getElem?_dropLast,
      if_pos (by have := x.route.two; omega)]

theorem Bears.forwarded (routable : Routable R) (bears : Bears R B p addr d sub)
    (onward : (if p.port ≠ 0 then isLastHop p 2 2 else isLastHop p 3 1) = some false)
    (slot : p.hopIP[(p.hopPos + 1).toNat]? = some nextIP) (port : q.port = p.port)
    (slots : q.hopIP = p.hopIP) (pos : p.hopPos.toNat < 3 → q.hopPos = p.hopPos + 1) :
    Bears R B q nextIP d sub := by
  cases bears with
  | @request x i own same heads more =>
    have four := routable.four x own
    rw [if_pos (same ▸ x.route.port_ne), heads.isLastHop_request four (routable.nonzero x own) more]
      at onward
    have between : i + 2 ≠ x.route.ips.length := by simpa using onward
    exact .request own (port.trans same) (heads.onward four more slot slots pos) (by omega)
  | @response x resp i own answered zero heads =>
    obtain ⟨three, nonzero⟩ := routable.back own
    rw [if_neg (not_not.mpr zero), heads.isLastHop_response three nonzero] at onward
    have between : i + 1 ≠ x.back.length := by simpa using onward
    have inside := heads.inside
    exact .response own answered (port.trans zero)
      (heads.onward (by omega) (by omega) slot slots pos)

end

/-! ## The network -/

/-- The aggregator takes messages in `Q` only. -/
structure Agg.Own (cfg : Config) (Q : AggregatorMsg → Prop) (agg : Agg) : Prop where
  channel : ∀ msg ∈ agg.inputChan, Q msg
  workers : ∀ w ∈ agg.workers, Works cfg Q w

/-- The dispatch puts a request in `R` on the network, if anything. -/
def Puts (R : Request → Prop) (udp : Bool) (out : Dispatch) : Prop :=
  ∀ msg, out = .add msg → ∃ x, R x ∧ x.udp = udp ∧ msg = x.message

namespace System

/-- The listeners take requests in `R`, the origins answer as `B` tells, and a frame arrives
whole unless its stream ends within the header. -/
def Admits (R : Request → Prop) (B : Request → List UInt8 → Prop) (s : System) : Event → Prop
  | .handleConnection _ routing reqID conn =>
    Puts R false (Server.handleConnection routing reqID conn)
  | .handleUDPConnection _ routing reqID data =>
    Puts R true (Server.handleUDPConnection routing reqID data)
  | .arrive k _ len => ∀ f ∈ s.flights[k]?, len ≤ headerSize ∨ f.pkt.length ≤ len
  | .doOriginRequest n k answer => ∀ node ∈ s.nodes[n]?, ∀ task ∈ node.tasks[k]?,
    ∀ resp ∈ answer, ∀ x, R x → task = x.task → B x resp
  | _ => True

/-- Whatever is on its way is on the route of its own request. -/
structure Owned (cfg : Config) (R : Request → Prop) (B : Request → List UInt8 → Prop)
    (s : System) : Prop where
  aggs : ∀ node ∈ s.nodes, ∀ d, (node.agg d).Own cfg (Sends R B d)
  tasks : ∀ node ∈ s.nodes, ∀ task ∈ node.tasks, Ends R node.addr task
  flights : ∀ f ∈ s.flights, f.Bound R B

section
variable {cfg : Config} {R : Request → Prop} {B : Request → List UInt8 → Prop} {s s' : System}
  {n : Nat} {node : Node}

theorem Owned.setNode (h : Owned cfg R B s) (node' : Node)
    (aggs : ∀ d, (node'.agg d).Own cfg (Sends R B d))
    (tasks : ∀ task ∈ node'.tasks, Ends R node'.addr task) :
    Owned cfg R B (s.setNode n node') where
  aggs x mem := by
    obtain mem | rfl := List.mem_or_eq_of_mem_set mem
    · exact h.aggs x mem
    · exact aggs
  tasks x mem := by
    obtain mem | rfl := List.mem_or_eq_of_mem_set mem
    · exact h.tasks x mem
    · exact tasks
  flights := h.flights

theorem Owned.crash (h : Owned cfg R B s) (at_ : s.nodes[n]? = some node) :
    Owned cfg R B (s.crash n node) :=
  have mem := List.mem_of_getElem? at_
  h.setNode _ (h.aggs node mem) (h.tasks node mem)

theorem own_setAgg (h : ∀ d, (node.agg d).Own cfg (Sends R B d)) {d : Direction} {agg : Agg}
    (own : agg.Own cfg (Sends R B d)) :
    ∀ d', ((node.setAgg d agg).agg d').Own cfg (Sends R B d') := by
  intro d'
  rw [setAgg_agg]
  split
  · rename_i same
    exact same ▸ own
  · exact h d'

theorem Owned.addToBatch (h : Owned cfg R B s) (at_ : s.nodes[n]? = some node) {d : Direction}
    {msg : AggregatorMsg} (sends : Sends R B d msg) :
    Owned cfg R B (s.addToBatch n node d msg) := by
  have mem := List.mem_of_getElem? at_
  have own := h.aggs node mem
  refine h.setNode _ (own_setAgg own ⟨fun x listed => ?_, (own d).workers⟩) (h.tasks node mem)
  obtain listed | listed := List.mem_append.mp listed
  · exact (own d).channel x listed
  · rw [List.mem_singleton.mp listed]
    exact sends

theorem Owned.accept (h : Owned cfg R B s) (at_ : s.nodes[n]? = some node) {out : Dispatch}
    {udp : Bool} (puts : Puts R udp out) : Owned cfg R B (s.accept n node out) := by
  cases out with
  | refused => exact h
  | direct originAddr => exact h
  | panic => exact h.crash at_
  | add msg =>
    obtain ⟨x, own, -, rfl⟩ := puts msg rfl
    obtain ⟨aggs, tasks, flights⟩ := h.addToBatch at_ (Sends.request (B := B) own)
    exact ⟨aggs, tasks, flights⟩

theorem Owned.advance (h : Owned cfg R B s) (routable : Routable R)
    (low : headerSize ≤ cfg.bufferSize) (high : cfg.bufferSize ≤ 65559)
    (timeout : 20 < cfg.batchTimeoutMs) (at_ : s.nodes[n]? = some node) {d : Direction} {i : Nat}
    {w w' : State} {inputChan : List AggregatorMsg}
    (working : (node.agg d).workers[i]? = some w)
    (turn : Turn cfg (node.agg d) w inputChan w') :
    Owned cfg R B (s.advance n node d inputChan i w w') := by
  have mem := List.mem_of_getElem? at_
  have own := h.aggs node mem
  have works := (own d).workers w (List.mem_of_getElem? working)
  have after : Works cfg (Sends R B d) w' ∧ ∀ msg ∈ inputChan, Sends R B d msg := by
    cases turn with
    | @receive msg rest _ waiting move =>
      have listed : ∀ x ∈ msg :: inputChan, Sends R B d x := waiting ▸ (own d).channel
      refine ⟨works.step low high timeout ?_ move,
        fun x mem => listed x (List.mem_cons_of_mem _ mem)⟩
      rintro x ⟨⟩
      exact listed msg List.mem_cons_self
    | work plain move =>
      exact ⟨works.step low high timeout (by simp [plain]) move, (own d).channel⟩
  have set : Owned cfg R B (s.setNode n { node.setAgg d ⟨inputChan, (node.agg d).workers.set i w'⟩
      with crashed := w'.crashed }) := by
    refine h.setNode _ (own_setAgg own ⟨after.2, fun x listed => ?_⟩) (h.tasks node mem)
    obtain listed | rfl := List.mem_or_eq_of_mem_set listed
    · exact (own d).workers x listed
    · exact after.1
  refine ⟨set.aggs, set.tasks, fun f flying => ?_⟩
  obtain flying | flying := List.mem_append.mp flying
  · exact h.flights f flying
  · exact bound_of_launch routable low high timeout after.1 (fun f => List.mem_of_mem_drop) f flying

/-- What the node of a frame makes of it is for the requests of its records. -/
theorem Owned.handle (h : Owned cfg R B s) (routable : Routable R)
    (at_ : s.nodes[n]? = some node) {f : Flight} (here : node.addr = f.addr) {p : Packet}
    (length : p.payloadLen.toNat = (encodeAll f.subs).length)
    (bears : ∀ sub ∈ f.subs, Bears R B p f.addr f.dir sub) {out : Effect}
    (handled : Handled p f.subs out) : Owned cfg R B (s.handle n node f out) := by
  have mem := List.mem_of_getElem? at_
  have part := (Tunnel.received_isPrefix f.subs).subset
  cases handled with
  | drop => exact h
  | panic => exact h.crash at_
  | submit port last slot =>
    obtain ⟨aggs, tasks, flights⟩ := h.setNode (n := n) { node with tasks := node.tasks ++ _ }
      (h.aggs node mem) (by
        intro task listed
        obtain listed | listed := List.mem_append.mp listed
        · exact h.tasks node mem task listed
        · obtain ⟨sub, got, rfl⟩ := List.mem_map.mp listed
          exact here ▸ (bears sub (part got)).submitted routable port last slot)
    exact ⟨aggs, tasks, flights⟩
  | deliver port last => exact ⟨h.aggs, h.tasks, h.flights⟩
  | @forward nextIP q onward slot port same slots pos =>
    refine ⟨h.aggs, h.tasks, fun x flying => ?_⟩
    obtain flying | flying := List.mem_append.mp flying
    · exact h.flights x flying
    · rw [List.mem_singleton.mp flying]
      exact ⟨q, same ▸ length, rfl, fun sub listed =>
        (bears sub listed).forwarded routable onward slot port slots pos⟩

theorem Owned.erase (h : Owned cfg R B s) (k : Nat) :
    Owned cfg R B { s with flights := s.flights.eraseIdx k } :=
  ⟨h.aggs, h.tasks, fun f flying => h.flights f (List.mem_of_mem_eraseIdx flying)⟩

theorem Owned.arrive (h : Owned cfg R B s) (routable : Routable R) {k len : Nat} {f : Flight}
    (flying : s.flights[k]? = some f) (at_ : s.nodes[n]? = some node)
    (here : node.addr = f.addr) (whole : len ≤ headerSize ∨ f.pkt.length ≤ len) :
    Owned cfg R B (System.arrive { s with flights := s.flights.eraseIdx k } n node f len) := by
  obtain ⟨p, length, bytes, bears⟩ := h.flights f (List.mem_of_getElem? flying)
  unfold System.arrive
  rw [bytes] at whole ⊢
  obtain none | all := receive_cut length.symm whole
  · rw [none]
    exact h.erase k
  · rw [all]
    exact (h.erase k).handle routable at_ here length bears (handled length)

theorem Owned.reply (h : Owned cfg R B s) (routable : Routable R) {k : Nat}
    (at_ : s.nodes[n]? = some node) {task : BackSourceTask} (waiting : node.tasks[k]? = some task)
    {answer : Option (List UInt8)}
    (answers : ∀ resp ∈ answer, ∀ x, R x → task = x.task → B x resp) :
    Owned cfg R B (System.reply (s.setNode n { node with tasks := node.tasks.eraseIdx k }) n
      { node with tasks := node.tasks.eraseIdx k } task (Server.doOriginRequest task answer)) := by
  have mem := List.mem_of_getElem? at_
  obtain ⟨x, own, three, rfl, -⟩ := h.tasks node mem task (List.mem_of_getElem? waiting)
  have set : Owned cfg R B (s.setNode n { node with tasks := node.tasks.eraseIdx k }) :=
    h.setNode _ (h.aggs node mem) fun task listed =>
      h.tasks node mem task (List.mem_of_mem_eraseIdx listed)
  cases answer with
  | none => exact set
  | some resp =>
    by_cases empty : resp = []
    · have refused : Server.doOriginRequest x.task (some resp) = .refused := if_pos empty
      rw [refused]
      exact set
    · have added : Server.doOriginRequest x.task (some resp) = .add (x.reply resp) :=
        Server.doOriginRequest_task three (routable.four x own) (routable.nonzero x own) x.sub empty
      have here : (s.setNode n { node with tasks := node.tasks.eraseIdx k }).nodes[n]? =
          some { node with tasks := node.tasks.eraseIdx k } := by
        simp [System.setNode, Store.getElem?_set at_]
      rw [added]
      obtain ⟨aggs, tasks, flights⟩ :=
        set.addToBatch here (Sends.response own (answers resp rfl x own rfl))
      exact ⟨aggs, tasks, flights⟩

theorem Owned.step (h : Owned cfg R B s) (routable : Routable R)
    (low : headerSize ≤ cfg.bufferSize) (high : cfg.bufferSize ≤ 65559)
    (timeout : 20 < cfg.batchTimeoutMs) {e : Event} (admits : Admits R B s e)
    (move : Step cfg s e s') : Owned cfg R B s' := by
  cases move with
  | connection _ _ _ at_ => exact h.accept at_ admits
  | datagram _ _ _ at_ => exact h.accept at_ admits
  | turn at_ working turn => exact h.advance routable low high timeout at_ working turn
  | arrive flying at_ here => exact h.arrive routable flying at_ here (admits _ flying)
  | lose _ => exact h.erase _
  | reply at_ waiting => exact h.reply routable at_ waiting (admits _ at_ _ waiting)

theorem Owned.init (addrs : List UInt32) (workers : Nat) :
    Owned cfg R B (init addrs workers) := by
  have empty : ∀ node ∈ (System.init addrs workers).nodes, node.tasks = [] ∧ ∀ d, node.agg d =
      ⟨[], List.replicate workers State.init⟩ := by
    intro node mem
    obtain ⟨addr, -, rfl⟩ := List.mem_map.mp mem
    exact ⟨rfl, fun _ => rfl⟩
  constructor
  case aggs =>
    intro node mem d
    rw [(empty node mem).2]
    refine ⟨by simp, fun w listed => ?_⟩
    rw [List.eq_of_mem_replicate listed]
    exact ⟨.init, .init, .init⟩
  case tasks =>
    intro node mem
    simp [(empty node mem).1]
  case flights => simp [System.init]

/-- What a step submits and delivers, it does where a frame arrives. -/
structure Ended (R : Request → Prop) (B : Request → List UInt8 → Prop) (s : System) (e : Event)
    (s' : System) : Prop where
  submitted : ∀ task ∈ s'.submitted.drop s.submitted.length, ∃ k n len node,
    e = .arrive k n len ∧ s.nodes[n]? = some node ∧ Ends R node.addr task
  delivered : ∀ sub ∈ s'.delivered.drop s.delivered.length, ∃ k n len node,
    e = .arrive k n len ∧ s.nodes[n]? = some node ∧ Begins R B node.addr sub

theorem Ended.of_eq {e : Event} (submitted : s'.submitted = s.submitted)
    (delivered : s'.delivered = s.delivered) : Ended R B s e s' := by
  constructor <;> simp [submitted, delivered]

theorem Owned.ended (h : Owned cfg R B s) (routable : Routable R) {e : Event}
    (admits : Admits R B s e) (move : Step cfg s e s') : Ended R B s e s' := by
  cases move with
  | connection routing reqID conn _ =>
    cases Server.handleConnection routing reqID conn <;> exact .of_eq rfl rfl
  | datagram routing reqID data _ =>
    cases Server.handleUDPConnection routing reqID data <;> exact .of_eq rfl rfl
  | turn _ _ _ => exact .of_eq rfl rfl
  | lose _ => exact .of_eq rfl rfl
  | @reply n k node task answer _ _ =>
    cases Server.doOriginRequest task answer <;> exact .of_eq rfl rfl
  | @arrive k n len node f flying at_ here =>
    obtain ⟨p, length, bytes, bears⟩ := h.flights f (List.mem_of_getElem? flying)
    have part := (Tunnel.received_isPrefix f.subs).subset
    have whole := admits f flying
    unfold System.arrive
    rw [bytes] at whole ⊢
    obtain none | all := receive_cut length.symm whole
    · rw [none]
      exact .of_eq rfl rfl
    · rw [all]
      change Ended R B s _ (System.handle { s with flights := s.flights.eraseIdx k } n node f
        (Tunnel.handleQUICPacket (p.wire (encodeAll f.subs))))
      have out := handled length
      generalize Tunnel.handleQUICPacket (p.wire (encodeAll f.subs)) = effect at out ⊢
      cases out with
      | drop | panic | forward => exact .of_eq rfl rfl
      | submit port last slot =>
        refine ⟨fun task listed => ?_, by simp [System.handle, System.setNode]⟩
        obtain ⟨sub, got, rfl⟩ : ∃ sub ∈ received f.subs, _ = task := by
          simpa [System.handle] using listed
        exact ⟨k, n, len, node, rfl, at_,
          here ▸ (bears sub (part got)).submitted routable port last slot⟩
      | deliver port last =>
        refine ⟨by simp [System.handle], fun sub listed => ?_⟩
        have got : sub ∈ received f.subs := by simpa [System.handle] using listed
        exact ⟨k, n, len, node, rfl, at_,
          here ▸ (bears sub (part got)).delivered routable port last⟩

end

/-- The TCP requests along one route. -/
def Along (r : Route) (x : Request) : Prop := x.route = r ∧ x.udp = false

/-- The origin answers with the user's number. -/
def echo (userID : UInt32) : List UInt8 := [userID.toUInt8, 10]

/-- The listeners take TCP requests along one route, and the origin echoes. -/
def Echoes (r : Route) (s : System) : Event → Prop
  | .handleConnection _ routing reqID conn =>
    Server.handleConnection routing reqID conn = .add (r.message false "tcp" reqID conn)
  | .handleUDPConnection _ _ _ _ => False
  | .arrive k _ len => ∀ f ∈ s.flights[k]?, len ≤ headerSize ∨ f.pkt.length ≤ len
  | .doOriginRequest n k answer => ∀ node ∈ s.nodes[n]?, ∀ task ∈ node.tasks[k]?,
    ∀ resp ∈ answer, resp = echo task.userID
  | _ => True

instance (r : Route) (s : System) : (e : Event) → Decidable (s.Echoes r e)
  | .handleConnection _ _ _ _ => inferInstanceAs (Decidable (_ = _))
  | .handleUDPConnection _ _ _ _ => isFalse id
  | .arrive k _ _ => inferInstanceAs (Decidable (∀ f ∈ s.flights[k]?, _ ∨ _))
  | .doOriginRequest n k answer => inferInstanceAs (Decidable (∀ node ∈ s.nodes[n]?,
      ∀ task ∈ node.tasks[k]?, ∀ resp ∈ answer, resp = echo task.userID))
  | .receive _ _ _ | .work _ _ _ _ | .lose _ => isTrue trivial

theorem Echoes.admits {r : Route} {s : System} {e : Event} (h : s.Echoes r e) :
    s.Admits (Along r) (fun x resp => resp = echo x.userID) e := by
  cases e with
  | handleConnection n routing reqID conn =>
    intro msg made
    obtain rfl := Dispatch.add.inj (h.symm.trans made)
    exact ⟨⟨r, false, reqID, conn⟩, ⟨rfl, rfl⟩, rfl, rfl⟩
  | handleUDPConnection => exact h.elim
  | arrive => exact h
  | doOriginRequest n k answer =>
    intro node at_ task waiting resp given x own same
    rw [h node at_ task waiting resp given, same]
    rfl
  | receive | work | lose => trivial

end System

end SkyAccel.Network
