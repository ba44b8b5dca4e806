import SkyAccel.Lib.Net
import SkyAccel.Tunnel.Packet

/-!
# What a node does with a frame

`handleQUICPacket` of `tunnel-handler.go`, with the framing of a tunnel stream in
front of it (`receive`, the goroutine of `handleConn`). An index outside the four
hop slots is the effect `panic`. Positions are bytes: `HopPos+1` and `HopPos+2` wrap
around where the source adds bytes, and do not where it widens to `int` first.
-/

namespace SkyAccel.Tunnel

open Bytes (uint16)
open Net (ipString itoa joinHostPort)

structure BackSourceTask where
  hopIP : Vector UInt32 4
  port : UInt16
  userID : UInt32
  originAddr : String
  reqData : List UInt8
  deriving DecidableEq

/-- What handling one frame leads to. -/
inductive Effect
  | drop
  | submit (protocol : String) (tasks : List BackSourceTask)
  | deliver (subs : List SubPacket)
  | forward (nextIP : UInt32) (pkt : List UInt8)
  | panic
  deriving DecidableEq

/-- The frame read from a stream: the header, then as many bytes as it announces.
A payload that ends early is filled up with zeros, one that is missing altogether
is an error. -/
def receive (stream : List UInt8) : Option (List UInt8) :=
  if stream.length < headerSize then none
  else
    let payloadLen := (uint16 (stream.drop 17)).toNat
    let content := stream.drop headerSize
    if content = [] ∧ payloadLen ≠ 0 then none
    else some (stream.take headerSize ++ content.take payloadLen ++
      List.replicate (payloadLen - content.length) 0)

/-- `HopPos` is the last position, or the slot `ahead` is free. `none` is an index
out of range. -/
def isLastHop (header : Packet) (last ahead : UInt8) : Option Bool :=
  if header.hopPos.toNat + ahead.toNat < maxHops then
    header.hopIP[(header.hopPos + ahead).toNat]?.map fun ip => ip == 0 || header.hopPos == last
  else some (header.hopPos == last)

def forwardPacket (pkt : List UInt8) (header : Packet) : Effect :=
  match header.hopIP[(header.hopPos + 1).toNat]? with
  | none => .panic
  | some nextIP => .forward nextIP (advanceRawHop pkt)

def backSourceTask (header : Packet) (originAddr : String) (sub : SubPacket) : BackSourceTask :=
  ⟨header.hopIP, header.port, sub.userID, originAddr, sub.data⟩

def protocal (header : Packet) : String := if header.protocol = 17 then "udp" else "tcp"

/-- The branch for requests, which carry the port of the origin. -/
def handleRequest (pkt : List UInt8) (header : Packet) : Effect :=
  match isLastHop header 2 2 with
  | none => .panic
  | some false => forwardPacket pkt header
  | some true =>
    match parse pkt pkt.length with
    | .error _ => .drop
    | .ok (_, subs) =>
      if subs = [] then .drop
      else
        match header.hopIP[header.hopPos.toNat + 1]? with
        | none => .panic
        | some originIP =>
          if ipString originIP = "0.0.0.0" then .drop
          else
            let originAddr := joinHostPort (ipString originIP) (itoa header.port.toNat)
            .submit (protocal header) (subs.map (backSourceTask header originAddr))

/-- The branch for responses, whose port is 0. -/
def handleResponse (pkt : List UInt8) (header : Packet) : Effect :=
  match isLastHop header 3 1 with
  | none => .panic
  | some false => forwardPacket pkt header
  | some true =>
    match parse pkt pkt.length with
    | .error _ => .drop
    | .ok (_, subs) => if subs = [] then .drop else .deliver subs

def handleQUICPacket (pkt : List UInt8) : Effect :=
  if pkt.length < headerSize then .drop
  else
    match parseHeader pkt with
    | .error _ => .drop
    | .ok header => if header.port ≠ 0 then handleRequest pkt header else handleResponse pkt header

/-! ## The position and the port on the wire -/

def hopField (pkt : List UInt8) : UInt8 := pkt.headD 0

def portField (pkt : List UInt8) : UInt16 := uint16 (pkt.drop 19)

theorem parseHeader_eq {pkt : List UInt8} (h : headerSize ≤ pkt.length) :
    ∃ header, parseHeader pkt = .ok header ∧ header.hopPos = hopField pkt ∧
      header.port = portField pkt := by
  refine ⟨_, if_neg (by omega), ?_, ?_⟩
  · cases pkt with
    | nil => simp [headerSize] at h
    | cons b rest => rfl
  · simp only [Packet.readHeader, portField, uint16]
    rw [List.drop_take, List.take_take]
    rfl

theorem getElem?_eq_none_iff (v : Vector UInt32 4) (i : Nat) : v[i]? = none ↔ 4 ≤ i := by
  simp

theorem isLastHop_ne_none {header : Packet} {last ahead : UInt8} (h : ahead.toNat < 4) :
    isLastHop header last ahead ≠ none := by
  unfold isLastHop
  by_cases near : header.hopPos.toNat + ahead.toNat < maxHops
  · have small : header.hopPos.toNat + ahead.toNat < 4 := near
    have index : (header.hopPos + ahead).toNat = header.hopPos.toNat + ahead.toNat := by
      rw [UInt8.toNat_add]
      omega
    rw [if_pos near, Ne, Option.map_eq_none_iff, getElem?_eq_none_iff, index]
    omega
  · rw [if_neg near]
    simp

/-- Forwarding indexes out of range exactly from a position after the third slot,
short of the wrap-around. -/
theorem forwardPacket_panic {pkt : List UInt8} {header : Packet} :
    forwardPacket pkt header = .panic ↔ 3 ≤ header.hopPos ∧ header.hopPos ≠ 255 := by
  have index : header.hopIP[(header.hopPos + 1).toNat]? = none ↔
      3 ≤ header.hopPos ∧ header.hopPos ≠ 255 := by
    rw [getElem?_eq_none_iff]
    generalize header.hopPos = b
    revert b
    decide +kernel
  rw [← index, forwardPacket]
  cases header.hopIP[(header.hopPos + 1).toNat]? <;> simp

/-- From the third position on, whether a position is the last is decided by the
position alone. -/
theorem isLastHop_far {header : Packet} {last ahead : UInt8}
    (far : ¬ header.hopPos.toNat + ahead.toNat < maxHops) :
    isLastHop header last ahead = some (header.hopPos == last) := if_neg far

theorem handleRequest_panic {pkt : List UInt8} {header : Packet} :
    handleRequest pkt header = .panic ↔ 3 ≤ header.hopPos ∧ header.hopPos ≠ 255 := by
  unfold handleRequest
  cases last : isLastHop header 2 2 with
  | none => exact absurd last (isLastHop_ne_none (by decide))
  | some b =>
    cases b with
    | false => exact forwardPacket_panic
    | true =>
      -- the last node of a request has a position below 3
      have near : header.hopPos.toNat ≤ 2 := by
        by_contra far
        rw [isLastHop_far (by show ¬ header.hopPos.toNat + 2 < 4; omega)] at last
        have : header.hopPos = 2 := by simpa using last
        rw [this] at far
        exact far (by decide)
      have noPanic : header.hopIP[header.hopPos.toNat + 1]? ≠ none := by
        rw [Ne, getElem?_eq_none_iff]
        omega
      have below : ¬ (3 ≤ header.hopPos ∧ header.hopPos ≠ 255) := by
        rintro ⟨h, -⟩
        have : 3 ≤ header.hopPos.toNat := UInt8.le_iff_toNat_le.mp h
        omega
      simp only [below, iff_false]
      cases parse pkt pkt.length with
      | error err => simp
      | ok parsed =>
        obtain ⟨p, subs⟩ := parsed
        simp only
        by_cases none : subs = []
        · simp [none]
        · cases slot : header.hopIP[header.hopPos.toNat + 1]? with
          | none => exact absurd slot noPanic
          | some originIP =>
            simp only [if_neg none]
            split <;> simp

theorem handleResponse_panic {pkt : List UInt8} {header : Packet} :
    handleResponse pkt header = .panic ↔ 4 ≤ header.hopPos ∧ header.hopPos ≠ 255 := by
  unfold handleResponse
  cases last : isLastHop header 3 1 with
  | none => exact absurd last (isLastHop_ne_none (by decide))
  | some b =>
    cases b with
    | false =>
      have notThree : header.hopPos ≠ 3 := by
        intro h
        rw [isLastHop_far (by rw [h]; decide)] at last
        simp [h] at last
      simp only [forwardPacket_panic]
      generalize header.hopPos = b at notThree
      revert b
      decide +kernel
    | true =>
      have near : header.hopPos.toNat ≤ 3 := by
        by_contra far
        rw [isLastHop_far (by show ¬ header.hopPos.toNat + 1 < 4; omega)] at last
        have : header.hopPos = 3 := by simpa using last
        rw [this] at far
        exact far (by decide)
      have below : ¬ (4 ≤ header.hopPos ∧ header.hopPos ≠ 255) := by
        rintro ⟨h, -⟩
        have : 4 ≤ header.hopPos.toNat := UInt8.le_iff_toNat_le.mp h
        omega
      simp only [below, iff_false]
      cases parse pkt pkt.length with
      | error err => simp
      | ok parsed =>
        simp only
        split <;> simp

theorem handleQUICPacket_panic {pkt : List UInt8} :
    handleQUICPacket pkt = .panic ↔ headerSize ≤ pkt.length ∧ hopField pkt ≠ 255 ∧
      (if portField pkt = 0 then 4 else 3) ≤ hopField pkt := by
  unfold handleQUICPacket
  by_cases short : pkt.length < headerSize
  · rw [if_pos short]
    simp only [reduceCtorEq, false_iff]
    exact fun h => absurd short (not_lt.mpr h.1)
  · obtain ⟨header, eq, hpos, hport⟩ := parseHeader_eq (not_lt.mp short)
    simp only [if_neg short, eq, ← hport, ← hpos, not_lt.mp short, true_and]
    by_cases port : header.port = 0
    · rw [if_neg (not_not.mpr port), if_pos port, handleResponse_panic, and_comm]
    · rw [if_pos port, if_neg port, handleRequest_panic, and_comm]

/-- Exactly these frames make the handler index outside the hop slots: a request
from position 3 on and a response from position 4 on, except the position 255,
whose successor is 0. -/
theorem handleQUICPacket_safe_iff (pkt : List UInt8) :
    handleQUICPacket pkt ≠ .panic ↔
      (headerSize ≤ pkt.length → hopField pkt = 255 ∨
        (portField pkt ≠ 0 ∧ hopField pkt ≤ 2) ∨ (portField pkt = 0 ∧ hopField pkt ≤ 3)) := by
  rw [Ne, handleQUICPacket_panic, not_and]
  refine imp_congr_right fun _ => ?_
  by_cases port : portField pkt = 0
  · simp only [port, if_true, ne_eq, not_true_eq_false, false_and, false_or, true_and]
    generalize hopField pkt = b
    revert b
    decide +kernel
  · simp only [port, if_false, ne_eq, not_false_eq_true, true_and, false_and, or_false]
    generalize hopField pkt = b
    revert b
    decide +kernel

/-- A request frame of 24 bytes at position 3 crashes the node. -/
theorem handleQUICPacket_panics :
    handleQUICPacket ([3] ++ List.replicate 18 0 ++ [0, 80, 6, 0, 0]) = .panic := by
  decide +kernel

/-! ## Chains of forwardings -/

/-- `Forwarded pkt n q`: the frame `q` reaches a node after `n` forwardings of `pkt`.
The handler does the same at every node, so the addresses play no part. -/
inductive Forwarded (pkt : List UInt8) : Nat → List UInt8 → Prop
  | start : Forwarded pkt 0 pkt
  | step {n : Nat} {q sent q' : List UInt8} {nextIP : UInt32} :
      Forwarded pkt n q → handleQUICPacket q = .forward nextIP sent → receive sent = some q' →
      Forwarded pkt (n + 1) q'

/-- Every forwarding of the frame raises its position, and there are fewer than
`maxHops` of them. -/
def Terminates (pkt : List UInt8) : Prop :=
  ∀ n q nextIP sent, Forwarded pkt n q → handleQUICPacket q = .forward nextIP sent →
    n < maxHops - 1 ∧ hopField q < hopField sent

theorem forwardPacket_eq {pkt sent : List UInt8} {header : Packet} {nextIP : UInt32}
    (h : forwardPacket pkt header = .forward nextIP sent) : sent = advanceRawHop pkt := by
  unfold forwardPacket at h
  split at h
  · cases h
  · injection h with _ same
    exact same.symm

/-- A frame that is forwarded has a header, and its position is below 3 or 255. -/
theorem handleQUICPacket_forward {pkt sent : List UInt8} {nextIP : UInt32}
    (h : handleQUICPacket pkt = .forward nextIP sent) :
    headerSize ≤ pkt.length ∧ sent = advanceRawHop pkt ∧
      (hopField pkt < 3 ∨ hopField pkt = 255) := by
  have safe : handleQUICPacket pkt ≠ .panic := by rw [h]; simp
  unfold handleQUICPacket at h
  by_cases short : pkt.length < headerSize
  · rw [if_pos short] at h; cases h
  · have long := not_lt.mp short
    obtain ⟨header, eq, hpos, hport⟩ := parseHeader_eq long
    have range := fun far => safe (handleQUICPacket_panic.mpr ⟨long, far⟩)
    simp only [if_neg short, eq] at h
    by_cases port : header.port = 0
    · rw [if_neg (not_not.mpr port)] at h
      unfold handleResponse at h
      split at h
      · cases h
      · rename_i last
        refine ⟨long, forwardPacket_eq h, ?_⟩
        have notThree : hopField pkt ≠ 3 := by
          intro three
          rw [isLastHop_far (by rw [hpos, three]; decide), hpos, three] at last
          cases last
        rw [← hport, if_pos port] at range
        generalize hopField pkt = b at range notThree
        revert b
        decide +kernel
      · split at h
        · cases h
        · split at h <;> cases h
    · rw [if_pos port] at h
      unfold handleRequest at h
      split at h
      · cases h
      · refine ⟨long, forwardPacket_eq h, ?_⟩
        rw [← hport, if_neg port] at range
        generalize hopField pkt = b at range
        revert b
        decide +kernel
      · split at h
        · cases h
        · split at h
          · cases h
          · split at h
            · cases h
            · split at h <;> cases h

theorem low_position {b : UInt8} (h : b < 3) :
    b.toNat < 3 ∧ (b + 1).toNat = b.toNat + 1 ∧ b < b + 1 ∧ b + 1 ≠ 255 := by
  revert b
  decide +kernel

theorem hopField_advanceRawHop {pkt : List UInt8} (long : headerSize ≤ pkt.length) :
    hopField (advanceRawHop pkt) =
      if hopField pkt < 3 then hopField pkt + 1 else hopField pkt := by
  cases pkt with
  | nil => simp [headerSize] at long
  | cons b rest =>
    have head : ∀ c, hopField (c :: rest) = c := fun _ => rfl
    have three : b.toNat < maxHops - 1 ↔ b < 3 := (UInt8.lt_iff_toNat_lt (b := 3)).symm
    by_cases h : b < 3
    · rw [advanceRawHop, if_pos ⟨long, three.mpr h⟩, head, head, if_pos h]
    · rw [advanceRawHop, if_neg fun low => h (three.mp low.2), head, if_neg h]

/-- The framing keeps the position. -/
theorem hopField_receive {stream pkt : List UInt8} (h : receive stream = some pkt) :
    hopField pkt = hopField stream ∧ headerSize ≤ pkt.length := by
  unfold receive at h
  split at h
  · cases h
  · rename_i long
    simp only at h
    split at h
    · cases h
    · obtain rfl := Option.some.inj h
      constructor
      · cases stream with
        | nil => simp [headerSize] at long
        | cons b rest => rfl
      · simp only [List.length_append, List.length_take]
        omega

/-- After `n` forwardings from a position other than 255 the position is at least
`n`, and below 255. -/
theorem Forwarded.position {pkt q : List UInt8} {n : Nat} (h : Forwarded pkt n q)
    (start : headerSize ≤ pkt.length → hopField pkt ≠ 255) :
    (headerSize ≤ q.length → hopField q ≠ 255) ∧ n ≤ (hopField q).toNat := by
  induction h with
  | start => exact ⟨start, Nat.zero_le _⟩
  | step _ fwd arrived ih =>
    obtain ⟨long, rfl, low⟩ := handleQUICPacket_forward fwd
    have below := low.resolve_right (ih.1 long)
    have advanced := hopField_advanceRawHop long
    rw [if_pos below] at advanced
    rw [(hopField_receive arrived).1, advanced]
    obtain ⟨-, next, -, top⟩ := low_position below
    have count := ih.2
    exact ⟨fun _ => top, by omega⟩

/-- Forwarding terminates exactly for the frames whose position is not 255. -/
theorem terminates_iff (pkt : List UInt8) :
    Terminates pkt ↔ ¬ (headerSize ≤ pkt.length ∧ hopField pkt = 255) := by
  constructor
  · rintro terminates ⟨long, top⟩
    -- the successor of 255 is slot 0, and the position stays what it is
    obtain ⟨header, eq, hpos, hport⟩ := parseHeader_eq long
    have wraps : header.hopIP[(header.hopPos + 1).toNat]? = some header.hopIP[0] := by
      rw [hpos, top]
      rfl
    have far : ∀ last ahead : UInt8, last ≠ 255 →
        ¬ header.hopPos.toNat + ahead.toNat < maxHops → isLastHop header last ahead = some false := by
      intro last ahead ne h
      rw [isLastHop_far h, hpos, top]
      simpa using Ne.symm ne
    have fwd : handleQUICPacket pkt = .forward header.hopIP[0] (advanceRawHop pkt) := by
      have away : ∀ ahead : UInt8, ¬ header.hopPos.toNat + ahead.toNat < maxHops := by
        intro ahead
        rw [hpos, top]
        show ¬ 255 + ahead.toNat < 4
        omega
      simp only [handleQUICPacket, if_neg (not_lt.mpr long), eq, handleRequest, handleResponse,
        far 2 2 (by decide) (away 2), far 3 1 (by decide) (away 1), forwardPacket, wraps, ite_self]
    have := (terminates 0 pkt _ _ .start fwd).2
    rw [hopField_advanceRawHop long, top] at this
    exact absurd this (by decide)
  · intro start n q nextIP sent run fwd
    obtain ⟨notTop, count⟩ := run.position fun long top => start ⟨long, top⟩
    obtain ⟨long, rfl, low⟩ := handleQUICPacket_forward fwd
    have below := low.resolve_right (notTop long)
    rw [hopField_advanceRawHop long, if_pos below]
    obtain ⟨small, -, grows, -⟩ := low_position below
    exact ⟨by show n < 3; omega, grows⟩

/-- A response frame at position 255 that names one node. -/
def circulating : List UInt8 := [255, 10, 0, 0, 1] ++ List.replicate 19 0

/-- It comes back unchanged after every number of forwardings. -/
theorem circulating_not_terminates :
    (∀ n, Forwarded circulating n circulating) ∧ ¬ Terminates circulating := by
  have again : handleQUICPacket circulating = .forward 167772161 circulating := by decide +kernel
  constructor
  · intro n
    induction n with
    | zero => exact .start
    | succ n ih => exact ih.step again (by decide +kernel)
  · intro terminates
    have := (terminates 0 _ _ _ .start again).2
    exact absurd this (by decide)

end SkyAccel.Tunnel
