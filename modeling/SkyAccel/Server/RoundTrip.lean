import SkyAccel.Server.Request
import SkyAccel.Tunnel.Journey

/-!
# Requests reach their origin, and answers come back

A frame under the header of a request ends at the last node of its route, with all
its records, exactly for a route that the four hop slots hold and records that the
length field can count (`delivers_iff`). `roundTrip_iff` adds the way back.
-/

namespace SkyAccel.Server

open Aggregator
open Net (ipString itoa joinHostPort)
open Tunnel

/-- The table entry that the last node picks for the protocol of a message. -/
def backSourcer (protocol : String) : String := if protocol = "tcp" then "tcp" else "udp"

/-- The frame visits the nodes between the first hop and the origin in order, and the
last of them submits its records, each once and in order, for the origin of the route. -/
def Delivers (r : Route) (msg : AggregatorMsg) (subs : List SubPacket) (frame : List UInt8) : Prop :=
  travel msg.nextHop frame = (r.inner, .submitted (backSourcer msg.protocol) (subs.map r.task))

theorem hopSlots_toList (ips : List UInt32) : (hopSlots (ips.map ipString)).toList =
    [ips[0]?.getD 0, ips[1]?.getD 0, ips[2]?.getD 0, ips[3]?.getD 0] := by
  rw [vector_four (hopSlots _)]
  simp only [hopSlots_getElem]
  rfl

section
variable {cfg : Config} {r : Route} {msg : AggregatorMsg} {subs : List SubPacket}
  {frame : List UInt8} {p : Packet}

/-- The records parsed from a frame are those it was built from under a condition on
their lengths. -/
theorem frame_records (sent : FrameOf cfg msg subs frame) :
    ∃ p body, HeaderOf msg p ∧ frame = p.wire body ∧ body.length = p.payloadLen.toNat ∧
      (subPackets body.length body = subs ↔ msg.data ≠ [] ∧ (encodeAll subs).length < 65536) := by
  obtain ⟨p, header, field, rfl⟩ := sent.wire
  have length : ((encodeAll subs).take ((encodeAll subs).length % 65536)).length =
      (encodeAll subs).length % 65536 := by
    rw [List.length_take, min_eq_left (Nat.mod_le _ _)]
  exact ⟨p, _, header, rfl, length.trans field.symm, sent.parsed_iff length.ge⟩

/-- At the last node the records become the tasks of the route. -/
theorem arrival_iff (header : HeaderOf msg p) (hops : msg.hops = r.ips.map ipString)
    (port : msg.port = r.port) (some : subs ≠ []) (recs : List SubPacket) :
    arrival p recs r.origin = .submitted (backSourcer msg.protocol) (subs.map r.task) ↔
      recs = subs ∧ r.origin ≠ 0 := by
  have tasks : backSourceTask p (joinHostPort (ipString r.origin) (itoa p.port.toNat)) = r.task := by
    funext sub
    rw [backSourceTask, header.hopIP, header.port, hops, port, Net.joinHostPort_ipString]
    rfl
  have name : protocal p = backSourcer msg.protocol := by
    rw [protocal, header.protocol, protocolByte, backSourcer]
    split <;> rfl
  rw [arrival, tasks, name]
  by_cases lost : recs = [] ∨ r.origin = 0
  · rw [if_pos lost]
    simp only [reduceCtorEq, false_iff]
    rintro ⟨rfl, ne⟩
    exact lost.elim some ne
  · rw [if_neg lost]
    simp only [Outcome.submitted.injEq, true_and, (List.map_injective_iff.mpr r.task_injective).eq_iff]
    exact ⟨fun h => ⟨h, fun zero => lost (.inr zero)⟩, And.left⟩

/-- Requests are delivered along three or four hops, to an origin that is not 0.0.0.0,
as records that are not empty and together fit the length field. -/
theorem delivers_iff {emerge : Bool} {protocol : String} {userID : UInt32} {data : List UInt8}
    (sent : FrameOf cfg (r.message emerge protocol userID data) subs frame) :
    Delivers r (r.message emerge protocol userID data) subs frame ↔
      (3 ≤ r.ips.length ∧ r.ips.length ≤ maxHops) ∧ r.origin ≠ 0 ∧ data ≠ [] ∧
        (encodeAll subs).length < 65536 := by
  have some := List.ne_nil_of_mem sent.mem
  obtain ⟨p, body, header, rfl, length, parsed⟩ := frame_records sent
  have arrived : arrival p (subPackets body.length body) r.origin =
      .submitted (backSourcer protocol) (subs.map r.task) ↔
      r.origin ≠ 0 ∧ data ≠ [] ∧ (encodeAll subs).length < 65536 := by
    refine (arrival_iff header rfl rfl some _).trans ?_
    rw [parsed]
    exact and_comm
  have port : p.port ≠ 0 := header.port ▸ r.port_ne
  have slot : ∀ i (hi : i < 4), p.hopIP[i] = r.ips[i]?.getD 0 := by
    intro i hi
    have slots : p.hopIP = hopSlots (r.ips.map ipString) := header.hopIP
    simp only [slots, hopSlots_getElem]
  have route := travel_request p length header.hopPos port
  simp only [slot] at route
  rw [Delivers]
  show travel r.inner.head? _ = _ ↔ _
  have inner : r.inner = r.ips.tail.dropLast := rfl
  rcases r.shape with ⟨a, b, ips⟩ | ⟨a, b, c, ips⟩ | ⟨a, b, c, d, ips⟩ | ⟨a, b, c, d, e, rest, ips⟩
  · -- the second hop has the port, so there is no next hop
    rw [inner, ips]
    simp [travel]
  · have origin := r.origin_eq [a, b] ips
    have visits : r.inner = [b] := by rw [inner, ips]; rfl
    have third : r.ips[2]?.getD 0 = r.origin := by rw [origin, ips]; rfl
    have free : r.ips[3]?.getD 0 = 0 := by rw [ips]; rfl
    have count : r.ips.length = 3 := by rw [ips]; rfl
    rw [visits, List.head?_cons, route, if_pos free, third, Prod.mk.injEq, count]
    exact (and_iff_right rfl).trans (arrived.trans (and_iff_right (by decide)).symm)
  · have origin := r.origin_eq [a, b, c] ips
    have visits : r.inner = [b, c] := by rw [inner, ips]; rfl
    have third : r.ips[2]?.getD 0 = c := by rw [ips]; rfl
    have last : r.ips[3]?.getD 0 = r.origin := by rw [origin, ips]; rfl
    have count : r.ips.length = 4 := by rw [ips]; rfl
    rw [visits, List.head?_cons, route, third, last, count]
    by_cases zero : r.origin = 0
    · rw [if_pos zero]
      simp [zero]
    · rw [if_neg zero, Prod.mk.injEq]
      exact (and_iff_right rfl).trans (arrived.trans (and_iff_right (by decide)).symm)
  · -- at most two nodes are visited
    have visits : r.inner = b :: c :: d :: (e :: rest).dropLast := by rw [inner, ips]; rfl
    have count : ¬ r.ips.length ≤ maxHops := by
      rw [ips]
      simp [maxHops]
    have many : ¬ (r.inner.length = 1 ∨ r.inner.length = 2) := by
      rw [visits]
      simp
    simp only [count, and_false, false_and, iff_false]
    rw [visits, List.head?_cons, route, ← visits]
    intro same
    refine many ?_
    split at same
    · exact .inl (congrArg (fun t => t.1.length) same).symm
    · exact .inr (congrArg (fun t => t.1.length) same).symm

end

/-! ## The way back -/

section
variable {cfg : Config} {r : Route} {subs : List SubPacket} {frame : List UInt8}

/-- The slots of a route that fits are its hops, up to free ones. -/
theorem slots_filter (three : 3 ≤ r.ips.length) (four : r.ips.length ≤ maxHops)
    (nonzero : ∀ ip ∈ r.ips, ip ≠ 0) (sub : SubPacket) :
    (r.task sub).hopIP.toList.reverse.filter (· ≠ 0) = r.ips.reverse := by
  have slots : (r.task sub).hopIP.toList = _ := hopSlots_toList r.ips
  rw [slots]
  rcases r.shape_of_fits three four with ⟨a, b, c, ips⟩ | ⟨a, b, c, d, ips⟩
  · rw [ips] at nonzero ⊢
    simp only [List.forall_mem_cons, List.not_mem_nil, false_imp_iff, implies_true, and_true]
      at nonzero
    obtain ⟨ha, hb, hc⟩ := nonzero
    simp [ha, hb, hc]
  · rw [ips] at nonzero ⊢
    simp only [List.forall_mem_cons, List.not_mem_nil, false_imp_iff, implies_true, and_true]
      at nonzero
    obtain ⟨ha, hb, hc, hd⟩ := nonzero
    simp [ha, hb, hc, hd]

/-- The back-sourcer answers a task of the route along its nodes in reverse order. -/
theorem doOriginRequest_task (three : 3 ≤ r.ips.length) (four : r.ips.length ≤ maxHops)
    (nonzero : ∀ ip ∈ r.ips, ip ≠ 0) (sub : SubPacket) {resp : List UInt8} (ne : resp ≠ []) :
    doOriginRequest (r.task sub) (some resp) = .add (r.reply sub.userID resp) := by
  have many : 1 < r.ips.reverse.length := by
    rw [List.length_reverse]
    omega
  obtain ⟨next, second⟩ : ∃ next, r.ips.dropLast.reverse[1]? = some next := by
    refine ⟨_, List.getElem?_eq_getElem ?_⟩
    rw [List.length_reverse, List.length_dropLast]
    omega
  have user : (r.task sub).userID = sub.userID := rfl
  simp only [doOriginRequest, if_neg ne, slots_filter three four nonzero, if_pos many,
    List.tail_reverse, second, Route.reply, user]

/-- An answer travels back over the nodes before the last one. -/
theorem reply_delivered_iff (three : 3 ≤ r.ips.length) (four : r.ips.length ≤ maxHops)
    (nonzero : ∀ ip ∈ r.ips, ip ≠ 0) {userID : UInt32} {resp : List UInt8} (ne : resp ≠ [])
    (sent : FrameOf cfg (r.reply userID resp) subs frame) :
    travel (r.reply userID resp).nextHop frame =
        (r.ips.dropLast.dropLast.reverse, .delivered subs) ↔
      (encodeAll subs).length < 65536 := by
  obtain ⟨p, body, header, rfl, length, parsed⟩ := frame_records sent
  have delivered : delivery (subPackets body.length body) = .delivered subs ↔
      (encodeAll subs).length < 65536 := by
    have own : (r.reply userID resp).data = resp := rfl
    simp only [own, ne_eq, ne, not_false_eq_true, true_and] at parsed
    rw [← parsed, delivery]
    by_cases none : subPackets body.length body = []
    · rw [if_pos none, none]
      simp only [reduceCtorEq, false_iff]
      exact Ne.symm (List.ne_nil_of_mem sent.mem)
    · rw [if_neg none, Outcome.delivered.injEq]
  have slot : ∀ i (hi : i < 4), p.hopIP[i] = r.ips.dropLast.reverse[i]?.getD 0 := by
    intro i hi
    have slots : p.hopIP = hopSlots (r.ips.dropLast.reverse.map ipString) := header.hopIP
    simp only [slots, hopSlots_getElem]
  have route := travel_response p length header.hopPos header.port
  simp only [slot] at route
  show travel r.ips.dropLast.reverse[1]? _ = _ ↔ _
  rcases r.shape_of_fits three four with ⟨a, b, c, ips⟩ | ⟨a, b, c, d, ips⟩
  · have back : r.ips.dropLast.reverse = [b, a] := by rw [ips]; rfl
    have visits : r.ips.dropLast.dropLast.reverse = [a] := by rw [ips]; rfl
    rw [back] at route
    rw [back, visits, List.getElem?_cons_succ, List.getElem?_cons_zero, route, Prod.mk.injEq,
      ← delivered]
    exact and_iff_right rfl
  · have back : r.ips.dropLast.reverse = [c, b, a] := by rw [ips]; rfl
    have visits : r.ips.dropLast.dropLast.reverse = [b, a] := by rw [ips]; rfl
    have ha : ¬ [c, b, a][2]?.getD 0 = 0 := nonzero a (by rw [ips]; exact List.mem_cons_self)
    rw [back] at route
    rw [back, visits, List.getElem?_cons_succ, List.getElem?_cons_zero, route, if_neg ha,
      Prod.mk.injEq, ← delivered]
    exact and_iff_right rfl

end

/-- A request along the route and an answer to it, in one frame each: the request is
submitted for the origin, the back-sourcer answers it, and the answer is delivered at
the first hop. -/
structure RoundTrip (r : Route) (emerge : Bool) (protocol : String) (userID : UInt32)
    (data resp : List UInt8) (subs : List SubPacket) (frame : List UInt8) (subs' : List SubPacket)
    (frame' : List UInt8) : Prop where
  asked : addToBatch emerge protocol r.hops userID data =
    .add (r.message emerge protocol userID data)
  request : ⟨userID, data⟩ ∈ subs
  submitted : Delivers r (r.message emerge protocol userID data) subs frame
  answered : doOriginRequest (r.task ⟨userID, data⟩) (some resp) = .add (r.reply userID resp)
  answer : ⟨userID, resp⟩ ∈ subs'
  delivered : travel (r.reply userID resp).nextHop frame' =
    (r.ips.dropLast.dropLast.reverse, .delivered subs')

/-- A request and its answer make the round trip exactly if the request is not empty
and the records of each frame fit its length field. -/
theorem roundTrip_iff {cfg cfg' : Config} {r : Route} (three : 3 ≤ r.ips.length)
    (four : r.ips.length ≤ maxHops) (nonzero : ∀ ip ∈ r.ips, ip ≠ 0) {emerge : Bool}
    {protocol : String} {userID : UInt32} {data resp : List UInt8} (ne : resp ≠ [])
    {subs subs' : List SubPacket} {frame frame' : List UInt8}
    (sent : FrameOf cfg (r.message emerge protocol userID data) subs frame)
    (sent' : FrameOf cfg' (r.reply userID resp) subs' frame') :
    RoundTrip r emerge protocol userID data resp subs frame subs' frame' ↔
      data ≠ [] ∧ (encodeAll subs).length < 65536 ∧ (encodeAll subs').length < 65536 := by
  have origin : r.origin ≠ 0 := nonzero _ (List.getLast_mem r.ips_ne)
  have there := delivers_iff sent
  have back := reply_delivered_iff three four nonzero ne sent'
  constructor
  · intro trip
    obtain ⟨-, -, some, fits⟩ := there.mp trip.submitted
    exact ⟨some, fits, back.mp trip.delivered⟩
  · rintro ⟨some, fits, fits'⟩
    exact ⟨r.addToBatch_hops _ _ _ _, sent.mem, there.mpr ⟨⟨three, four⟩, origin, some, fits⟩,
      doOriginRequest_task three four nonzero _ ne, sent'.mem, back.mpr fits'⟩

/-- The first `n` of the addresses 10.0.0.1 to 10.0.0.5, with port 80 at the last. -/
def lineRoute (n : Nat) (two : 2 ≤ n) : Route where
  ips := [167772161, 167772162, 167772163, 167772164, 167772165].take n
  port := 80
  two := by
    rw [List.length_take]
    exact le_min two (by decide)
  port_ne := by decide

/-- A request and an answer of two bytes, sent at once along four hops. -/
theorem roundTrip_four_hops : RoundTrip (lineRoute 4 (by decide)) false "tcp" 7 [104, 10] [111, 107]
    [⟨7, [104, 10]⟩] [1, 10, 0, 0, 1, 10, 0, 0, 2, 10, 0, 0, 3, 10, 0, 0, 4, 0, 8, 0, 80, 6, 0, 0,
      0, 0, 0, 7, 0, 2, 104, 10]
    [⟨7, [111, 107]⟩] [1, 10, 0, 0, 3, 10, 0, 0, 2, 10, 0, 0, 1, 0, 0, 0, 0, 0, 8, 0, 0, 17, 0, 0,
      0, 0, 0, 7, 0, 2, 111, 107] := by
  refine (roundTrip_iff (by decide) (by decide) (by simp [lineRoute]) (by decide)
    (show FrameOf shipped _ _ _ from ?_) (show FrameOf shipped _ _ _ from ?_)).mpr (by decide)
  · exact .emerge (by decide) (by decide +kernel)
  · exact .emerge (by decide) (by decide +kernel)

/-- The UDP listener sends an empty datagram off, and the last node finds no record in
its frame. -/
theorem empty_datagram_dropped :
    handleUDPConnection [(lineRoute 3 (by decide)).hops] 7 [] =
        .add ((lineRoute 3 (by decide)).message true "udp" 7 []) ∧
      ∃ frame, FrameOf shipped ((lineRoute 3 (by decide)).message true "udp" 7 []) [⟨7, []⟩] frame ∧
        travel ((lineRoute 3 (by decide)).message true "udp" 7 []).nextHop frame =
          ([167772162], .dropped) ∧
        ∀ resp subs' frame', ¬ RoundTrip (lineRoute 3 (by decide)) true "udp" 7 [] resp
          [⟨7, []⟩] frame subs' frame' := by
  refine ⟨by decide +kernel, [1, 10, 0, 0, 1, 10, 0, 0, 2, 10, 0, 0, 3, 0, 0, 0, 0, 0, 6, 0, 80, 17,
    0, 0, 0, 0, 0, 7, 0, 0], .emerge (by decide) (by decide +kernel), by decide +kernel, ?_⟩
  intro resp subs' frame' trip
  exact absurd trip.submitted (by rw [Delivers]; decide +kernel)

end SkyAccel.Server
