import SkyAccel.Aggregator.Message
import SkyAccel.Tunnel.Handler

/-!
# Requests and replies

How the listeners of `server/` turn client data and a path into a message for the
aggregator, and how `backsourcer.go` answers. A route is a path as the control plane
gives it: IPv4 addresses, the last one with the port of the origin.
-/

namespace SkyAccel.Server

open Aggregator (AggregatorMsg hopIPToNet hopSlots)
open Net (ipString itoa parseUint16)
open Strings (join split contains)
open Tunnel (BackSourceTask SubPacket)

/-- What becomes of a request or an answer: an error is reported, an index is out of
range, the listener talks to the origin itself, or a message goes to the aggregator. -/
inductive Dispatch
  | refused
  | panic
  | direct (originAddr : String)
  | add (msg : AggregatorMsg)
  deriving DecidableEq

/-- One turn of the loop over the hops, which cuts a port off. -/
def cutPort (st : List String × String) (h : String) : List String × String :=
  if contains h ":" then (st.1 ++ [(split h ":").getD 0 ""], (split h ":").getD 1 "")
  else (st.1 ++ [h], st.2)

def cutPorts (hops : List String) : List String × String := hops.foldl cutPort ([], "")

/-- The end of both listeners: the message for a path. -/
def addToBatch (emerge : Bool) (protocol : String) (hops : List String) (reqID : UInt32)
    (data : List UInt8) : Dispatch :=
  match hops[1]? with
  | none => .panic
  | some hop =>
    .add {
      emerge := emerge
      routingKey := join (cutPorts hops).1 ","
      protocol := protocol
      port := parseUint16 (cutPorts hops).2
      hops := (cutPorts hops).1
      nextHop := hopIPToNet hop
      userID := reqID
      data := data }

/-- `Reader.ReadBytes`; the end of the input before the delimiter is an error. -/
def readBytes (delim : UInt8) (conn : List UInt8) : Option (List UInt8) :=
  if delim ∈ conn then some (conn.takeWhile (· ≠ delim) ++ [delim]) else none

/-- `handleConnection` with the hops of the paths in its routing info. -/
def handleConnection (routing : List (List String)) (reqID : UInt32) (conn : List UInt8) :
    Dispatch :=
  match readBytes 10 conn with
  | none => .refused
  | some data =>
    match routing with
    | [] => .refused
    | first :: _ =>
      addToBatch false "tcp" ((routing.find? fun hops => 2 < hops.length).getD first) reqID data

/-- `handleUDPConnection`, which takes the first path whatever its length. -/
def handleUDPConnection (routing : List (List String)) (reqID : UInt32) (data : List UInt8) :
    Dispatch :=
  match routing with
  | [] => .refused
  | hops :: _ =>
    if hops.length ≤ 2 then
      match hops.getLast? with
      | none => .panic
      | some originAddr => .direct originAddr
    else addToBatch true "udp" hops reqID data

/-- `BackSourcer.doOriginRequest`; `answer` is what the origin sends, `none` for an error. -/
def doOriginRequest (task : BackSourceTask) (answer : Option (List UInt8)) : Dispatch :=
  match answer with
  | none => .refused
  | some resp =>
    if resp = [] then .refused
    else
      let hops := task.hopIP.toList.reverse.filter (· ≠ 0)
      let hops := if 1 < hops.length then hops.tail else hops
      let hopStrs := hops.map ipString
      match hops[1]? with
      | none => .panic
      | some nextHop =>
        .add {
          emerge := false
          routingKey := join hopStrs ","
          protocol := ""
          port := 0
          hops := hopStrs
          nextHop := some nextHop
          userID := task.userID
          data := resp }

theorem readBytes_ne_nil {delim : UInt8} {conn data : List UInt8}
    (h : readBytes delim conn = some data) : data ≠ [] := by
  unfold readBytes at h
  split at h
  · obtain rfl := Option.some.inj h
    simp
  · cases h

/-! ## Routes -/

/-- A path of at least two hops whose last one carries a port. -/
structure Route where
  ips : List UInt32
  port : UInt16
  two : 2 ≤ ips.length
  port_ne : port ≠ 0

namespace Route
variable (r : Route)

theorem ips_ne : r.ips ≠ [] := List.ne_nil_of_length_pos (by have := r.two; omega)

def origin : UInt32 := r.ips.getLast r.ips_ne

/-- The address of the origin, which is the text of the last hop. -/
def originAddr : String := ipString r.origin ++ ":" ++ itoa r.port.toNat

def hops : List String := r.ips.dropLast.map ipString ++ [r.originAddr]

/-- The nodes between the first hop and the origin. -/
def inner : List UInt32 := r.ips.tail.dropLast

/-- The message that asks for `data` along the route. -/
def message (emerge : Bool) (protocol : String) (userID : UInt32) (data : List UInt8) :
    AggregatorMsg where
  emerge := emerge
  routingKey := join (r.ips.map ipString) ","
  protocol := protocol
  port := r.port
  hops := r.ips.map ipString
  nextHop := r.inner.head?
  userID := userID
  data := data

/-- The task that a record of a request becomes at the last node. -/
def task (sub : SubPacket) : BackSourceTask :=
  ⟨hopSlots (r.ips.map ipString), r.port, sub.userID, r.originAddr, sub.data⟩

/-- The message that carries `resp` back, from the last node to the first. -/
def reply (userID : UInt32) (resp : List UInt8) : AggregatorMsg where
  emerge := false
  routingKey := join (r.ips.dropLast.reverse.map ipString) ","
  protocol := ""
  port := 0
  hops := r.ips.dropLast.reverse.map ipString
  nextHop := r.ips.dropLast.reverse[1]?
  userID := userID
  data := resp

theorem task_injective : Function.Injective r.task := by
  rintro ⟨userID, data⟩ ⟨userID', data'⟩ h
  injection h with _ _ hu _ hd
  exact congrArg₂ SubPacket.mk hu hd

theorem ips_eq : r.ips = r.ips.dropLast ++ [r.origin] := (List.dropLast_append_getLast r.ips_ne).symm

theorem origin_eq (ips : List UInt32) {ip : UInt32} (h : r.ips = ips ++ [ip]) : r.origin = ip := by
  simp only [origin, h, List.getLast_append_singleton]

/-- A route has two hops, fills the slots from the third on, or is too long for them. -/
theorem shape : (∃ a b, r.ips = [a, b]) ∨ (∃ a b c, r.ips = [a, b, c]) ∨
    (∃ a b c d, r.ips = [a, b, c, d]) ∨ ∃ a b c d e rest, r.ips = a :: b :: c :: d :: e :: rest := by
  have two := r.two
  match h : r.ips, two with
  | [a, b], _ => exact .inl ⟨a, b, rfl⟩
  | [a, b, c], _ => exact .inr (.inl ⟨a, b, c, rfl⟩)
  | [a, b, c, d], _ => exact .inr (.inr (.inl ⟨a, b, c, d, rfl⟩))
  | a :: b :: c :: d :: e :: rest, _ => exact .inr (.inr (.inr ⟨a, b, c, d, e, rest, rfl⟩))

theorem shape_of_fits (three : 3 ≤ r.ips.length) (four : r.ips.length ≤ 4) :
    (∃ a b c, r.ips = [a, b, c]) ∨ ∃ a b c d, r.ips = [a, b, c, d] := by
  rcases r.shape with ⟨a, b, ips⟩ | h | h | ⟨a, b, c, d, e, rest, ips⟩
  · simp [ips] at three
  · exact .inl h
  · exact .inr h
  · simp only [ips, List.length_cons] at four
    omega

theorem foldl_cutPort (ips : List UInt32) (st : List String × String) :
    (ips.map ipString).foldl cutPort st = (st.1 ++ ips.map ipString, st.2) := by
  induction ips generalizing st with
  | nil => simp
  | cons ip ips ih =>
    have free : contains (ipString ip) ":" = false :=
      Net.ipString_free ip (c := ':') rfl rfl (by decide)
    rw [List.map_cons, List.foldl_cons, cutPort, free, ih]
    simp

theorem cutPorts_hops : cutPorts r.hops = (r.ips.map ipString, itoa r.port.toNat) := by
  have colon : contains r.originAddr ":" = true := by
    rw [Strings.contains_iff]
    refine ⟨(ipString r.origin).toList, (itoa r.port.toNat).toList, ?_⟩
    rw [originAddr, String.toList_append, String.toList_append]
  have parts : split r.originAddr ":" = [ipString r.origin, itoa r.port.toNat] :=
    Net.split_hostPort _ _
  rw [cutPorts, hops, List.foldl_append, foldl_cutPort, List.foldl_cons, List.foldl_nil, cutPort,
    if_pos colon, parts]
  conv_rhs => rw [ips_eq, List.map_append]
  rfl

/-- The second hop is parsed with its port when it is the last one. -/
theorem nextHop_eq : ∃ hop, r.hops[1]? = some hop ∧ hopIPToNet hop = r.inner.head? := by
  obtain ⟨ips, port, two, port_ne⟩ := r
  match ips, two with
  | [a, b], _ =>
    refine ⟨_, rfl, ?_⟩
    exact Net.parseIPTo4_hostPort b _ (Net.itoa_free _ (c := '.') rfl rfl)
  | a :: b :: c :: rest, _ =>
    exact ⟨_, rfl, Net.parseIPTo4_ipString b⟩

theorem addToBatch_hops (emerge : Bool) (protocol : String) (userID : UInt32) (data : List UInt8) :
    addToBatch emerge protocol r.hops userID data =
      .add (r.message emerge protocol userID data) := by
  obtain ⟨hop, second, next⟩ := r.nextHop_eq
  rw [addToBatch, second]
  simp only [cutPorts_hops, Net.parseUint16_itoa, next]
  rfl

end Route

/-- The route of which `handleConnection` takes the hops: the first with a node in
between, or else the first. -/
def selectRoute (routes : List Route) : Option Route :=
  (routes.find? fun r => 2 < r.ips.length).or routes.head?

theorem Route.length_hops (r : Route) : r.hops.length = r.ips.length := by
  have := r.two
  simp only [Route.hops, List.length_append, List.length_map, List.length_dropLast,
    List.length_singleton]
  omega

theorem handleConnection_eq {routes : List Route} {r : Route} (selected : selectRoute routes = some r)
    {reqID : UInt32} {conn : List UInt8} {msg : AggregatorMsg}
    (accepted : handleConnection (routes.map Route.hops) reqID conn = .add msg) :
    ∃ data, readBytes 10 conn = some data ∧ msg = r.message false "tcp" reqID data := by
  unfold handleConnection at accepted
  cases read : readBytes 10 conn with
  | none =>
    rw [read] at accepted
    cases accepted
  | some data =>
    rw [read] at accepted
    cases routes with
    | nil => cases accepted
    | cons first rest =>
      have same : (((first :: rest).map Route.hops).find? fun hops => 2 < hops.length).getD
          first.hops = r.hops := by
        rw [List.find?_map]
        have shape : ((fun hops : List String => decide (2 < hops.length)) ∘ Route.hops) =
            fun r => decide (2 < r.ips.length) := by
          funext r
          simp only [Function.comp, Route.length_hops]
        rw [shape]
        unfold selectRoute at selected
        cases found : (first :: rest).find? fun r => decide (2 < r.ips.length) with
        | none =>
          rw [found] at selected
          obtain rfl := Option.some.inj selected
          rfl
        | some r' =>
          rw [found] at selected
          obtain rfl := Option.some.inj selected
          rfl
      simp only [List.map_cons] at accepted same
      rw [same, Route.addToBatch_hops] at accepted
      exact ⟨data, rfl, by injection accepted with h; exact h.symm⟩

end SkyAccel.Server
