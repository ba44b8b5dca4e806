import SkyAccel.Tunnel.Handler

/-!
# The journey of a frame

A frame is sent to a first node, and every node that forwards it sends it to the
next. `journey` lists the nodes that receive it, with what becomes of it at the
last one. For a frame built at position 1 the four hop slots decide its route
(`travel_request`, `travel_response`).
-/

namespace SkyAccel.Tunnel

open Net (ipString itoa joinHostPort)

/-- What becomes of a frame. `unsent` is a send to a nil IP, and `endless` a frame
that is still forwarded when the fuel is spent. -/
inductive Outcome
  | unsent
  | dropped
  | crashed
  | endless
  | submitted (protocol : String) (tasks : List BackSourceTask)
  | delivered (subs : List SubPacket)
  deriving DecidableEq

/-- The nodes that receive the bytes sent to `addr`, in order, and the outcome. -/
def journey : Nat → UInt32 → List UInt8 → List UInt32 × Outcome
  | 0, _, _ => ([], .endless)
  | fuel + 1, addr, stream =>
    match receive stream with
    | none => ([addr], .dropped)
    | some pkt =>
      match handleQUICPacket pkt with
      | .drop => ([addr], .dropped)
      | .panic => ([addr], .crashed)
      | .submit protocol tasks => ([addr], .submitted protocol tasks)
      | .deliver subs => ([addr], .delivered subs)
      | .forward nextIP sent => (addr :: (journey fuel nextIP sent).1, (journey fuel nextIP sent).2)

/-- The journey of a frame that `flush` hands to `SendPacket`. -/
def travel (nextHop : Option UInt32) (frame : List UInt8) : List UInt32 × Outcome :=
  match nextHop with
  | none => ([], .unsent)
  | some addr => journey maxHops addr frame

/-! ## One node -/

section
variable (p : Packet) {body : List UInt8} {fuel : Nat} {addr : UInt32}

theorem receive_wire (h : body.length = p.payloadLen.toNat) :
    receive (p.wire body) = some (p.wire body) := by
  have long : ¬ (p.wire body).length < headerSize := by
    rw [length_wire]
    omega
  have there : ¬ (body = [] ∧ body.length ≠ 0) := by
    rintro ⟨rfl, some⟩
    exact some rfl
  rw [receive, if_neg long]
  simp only [uint16_wire, drop_wire, take_wire, ← h, if_neg there, List.take_length, Nat.sub_self,
    List.replicate_zero, List.append_nil]
  rfl

theorem handleQUICPacket_wire : handleQUICPacket (p.wire body) =
    if p.port ≠ 0 then handleRequest (p.wire body) p.header
    else handleResponse (p.wire body) p.header := by
  have long : ¬ (p.wire body).length < headerSize := by
    rw [length_wire]
    omega
  rw [handleQUICPacket, if_neg long, parseHeader_wire]
  rfl

theorem isLastHop_near {b last ahead : UInt8} {i : Nat} (pos : p.hopPos = b)
    (near : b.toNat + ahead.toNat < maxHops) (index : (b + ahead).toNat = i) (hi : i < 4) :
    isLastHop p last ahead = some (p.hopIP[i] == 0 || b == last) := by
  rw [isLastHop, pos, if_pos near, index, Vector.getElem?_eq_getElem hi, Option.map_some]

/-- What the last node of a request makes of its records. -/
def arrival (subs : List SubPacket) (originIP : UInt32) : Outcome :=
  if subs = [] ∨ originIP = 0 then .dropped
  else .submitted (protocal p)
    (subs.map (backSourceTask p (joinHostPort (ipString originIP) (itoa p.port.toNat))))

/-- What the last node of a response makes of its records. -/
def delivery (subs : List SubPacket) : Outcome :=
  if subs = [] then .dropped else .delivered subs

theorem ipString_eq_zero {ip : UInt32} : ipString ip = "0.0.0.0" ↔ ip = 0 := by
  have zero : ipString 0 = "0.0.0.0" := by decide +kernel
  constructor
  · intro h
    exact Net.ipString_injective (h.trans zero.symm)
  · rintro rfl
    exact zero

theorem journey_request_last (h : body.length = p.payloadLen.toNat) (port : p.port ≠ 0)
    (last : isLastHop p 2 2 = some true) {b : UInt8} {i : Nat} (pos : p.hopPos = b)
    (index : b.toNat + 1 = i) (hi : i < 4) :
    journey (fuel + 1) addr (p.wire body) =
      ([addr], arrival p (subPackets body.length body) p.hopIP[i]) := by
  obtain ⟨q, parsed⟩ := parse_wire p h
  have last' : isLastHop p.header 2 2 = some true := last
  have slot : p.header.hopIP[p.header.hopPos.toNat + 1]? = some p.hopIP[i] := by
    show p.hopIP[p.hopPos.toNat + 1]? = some p.hopIP[i]
    rw [pos, index, Vector.getElem?_eq_getElem hi]
  rw [journey, receive_wire p h]
  simp only [handleQUICPacket_wire, if_pos port, handleRequest, last', parsed, slot,
    ipString_eq_zero, arrival]
  by_cases none : subPackets body.length body = []
  · simp only [none, if_true, true_or]
  · by_cases zero : p.hopIP[i] = 0
    · simp only [none, zero, if_true, if_false, or_true]
    · simp only [none, zero, if_false, or_self]
      rfl

theorem journey_response_last (h : body.length = p.payloadLen.toNat) (port : p.port = 0)
    (last : isLastHop p 3 1 = some true) :
    journey (fuel + 1) addr (p.wire body) = ([addr], delivery (subPackets body.length body)) := by
  obtain ⟨q, parsed⟩ := parse_wire p h
  have last' : isLastHop p.header 3 1 = some true := last
  rw [journey, receive_wire p h]
  simp only [handleQUICPacket_wire, if_neg (not_not.mpr port), handleResponse, last', parsed, delivery]
  by_cases none : subPackets body.length body = []
  · simp only [none, if_true]
  · simp only [none, if_false]

/-- A node that is not the last sends the frame on to the next slot, one position
further. -/
theorem journey_forward (h : body.length = p.payloadLen.toNat)
    (last : (if p.port ≠ 0 then isLastHop p 2 2 else isLastHop p 3 1) = some false) {b : UInt8}
    {i : Nat} (pos : p.hopPos = b) (index : b.toNat + 1 = i) (hi : i < 4) :
    journey (fuel + 1) addr (p.wire body) =
      (addr :: (journey fuel p.hopIP[i] ({ p with hopPos := p.hopPos + 1 }.wire body)).1,
        (journey fuel p.hopIP[i] ({ p with hopPos := p.hopPos + 1 }.wire body)).2) := by
  have next : (p.hopPos + 1).toNat = i := by
    rw [pos, UInt8.toNat_add]
    have : (1 : UInt8).toNat = 1 := rfl
    omega
  have fwd : ∀ q : Packet, q.hopPos = p.hopPos → q.hopIP = p.hopIP →
      forwardPacket (p.wire body) q =
        .forward p.hopIP[i] ({ p with hopPos := p.hopPos + 1 }.wire body) := by
    intro q same slots
    rw [forwardPacket, same, next, slots, Vector.getElem?_eq_getElem hi,
      advanceRawHop_wire p (by rw [pos]; omega)]
  have handled : handleQUICPacket (p.wire body) =
      .forward p.hopIP[i] ({ p with hopPos := p.hopPos + 1 }.wire body) := by
    rw [handleQUICPacket_wire]
    by_cases port : p.port = 0
    · rw [if_neg (not_not.mpr port)] at last ⊢
      have last' : isLastHop p.header 3 1 = some false := last
      rw [handleResponse, last']
      exact fwd _ rfl rfl
    · rw [if_pos port] at last ⊢
      have last' : isLastHop p.header 2 2 = some false := last
      rw [handleRequest, last']
      exact fwd _ rfl rfl
  rw [journey, receive_wire p h]
  simp only [handled]

/-! ## From position 1 -/

/-- A request ends at the first node if the last slot is free, else at the second. -/
theorem travel_request (h : body.length = p.payloadLen.toNat) (pos : p.hopPos = 1)
    (port : p.port ≠ 0) (addr : UInt32) :
    travel (some addr) (p.wire body) =
      if p.hopIP[3] = 0 then ([addr], arrival p (subPackets body.length body) p.hopIP[2])
      else ([addr, p.hopIP[2]], arrival p (subPackets body.length body) p.hopIP[3]) := by
  have first : isLastHop p 2 2 = some (p.hopIP[3] == 0) := by
    rw [isLastHop_near p (i := 3) pos (by decide) (by decide) (by decide)]
    exact congrArg some (Bool.or_false _)
  by_cases free : p.hopIP[3] = 0
  · rw [if_pos free]
    rw [free] at first
    exact journey_request_last p h port first pos rfl (by decide)
  · have more : isLastHop p 2 2 = some false := by
      rw [first]
      simpa using free
    have two : p.hopPos + 1 = 2 := by
      rw [pos]
      rfl
    have second : isLastHop { p with hopPos := p.hopPos + 1 } 2 2 = some true := by
      rw [isLastHop, two]
      rfl
    rw [if_neg free, travel, maxHops,
      journey_forward p h (by rw [if_pos port]; exact more) (i := 2) pos rfl (by decide),
      journey_request_last { p with hopPos := p.hopPos + 1 } h port second (i := 3) two rfl
        (by decide)]
    rfl

/-- A response is forwarded along the slots until one is free. -/
theorem travel_response (h : body.length = p.payloadLen.toNat) (pos : p.hopPos = 1)
    (port : p.port = 0) (addr : UInt32) :
    travel (some addr) (p.wire body) =
      (addr :: (if p.hopIP[2] = 0 then [] else if p.hopIP[3] = 0 then [p.hopIP[2]]
        else [p.hopIP[2], p.hopIP[3]]), delivery (subPackets body.length body)) := by
  have two : p.hopPos + 1 = 2 := by
    rw [pos]
    rfl
  have first : isLastHop p 3 1 = some (p.hopIP[2] == 0) := by
    rw [isLastHop_near p (i := 2) pos (by decide) (by decide) (by decide)]
    exact congrArg some (Bool.or_false _)
  have second : isLastHop { p with hopPos := p.hopPos + 1 } 3 1 = some (p.hopIP[3] == 0) := by
    rw [isLastHop_near _ (i := 3) two (by decide) (by decide) (by decide)]
    exact congrArg some (Bool.or_false _)
  have third : isLastHop { p with hopPos := p.hopPos + 1 + 1 } 3 1 = some true := by
    rw [isLastHop, two]
    rfl
  by_cases short : p.hopIP[2] = 0
  · rw [if_pos short]
    rw [short] at first
    exact journey_response_last p h port first
  · have more : isLastHop p 3 1 = some false := by
      rw [first]
      simpa using short
    rw [if_neg short, travel, maxHops,
      journey_forward p h (by rw [if_neg (not_not.mpr port)]; exact more) (i := 2) pos rfl
        (by decide)]
    by_cases long : p.hopIP[3] = 0
    · rw [if_pos long]
      rw [long] at second
      rw [journey_response_last { p with hopPos := p.hopPos + 1 } h port second]
    · have more' : isLastHop { p with hopPos := p.hopPos + 1 } 3 1 = some false := by
        rw [second]
        simpa using long
      rw [if_neg long, journey_forward { p with hopPos := p.hopPos + 1 } h
          (by rw [if_neg (not_not.mpr port)]; exact more') (i := 3) two rfl (by decide),
        journey_response_last { p with hopPos := p.hopPos + 1 + 1 } h port third]

end

end SkyAccel.Tunnel
