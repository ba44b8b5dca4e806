import SkyAccel.Lib.Net
import SkyAccel.Tunnel.Packet

/-!
# Messages to the aggregator and the packets made for them

The parts of `aggregator/aggregator.go` that do not depend on the worker's state:
whether a message is sent at once, the size of its buffer, and the packet that is
prepared from its hops, port and protocol.
-/

namespace SkyAccel.Aggregator

open Tunnel

/-- The settings a worker reads. `batchNumMap` gives the number of batches for a port. -/
structure Config where
  bufferSize : Nat
  batchTimeoutMs : Int
  batchNumMap : UInt16 → Option Int

/-- The aggregator and the listener of the shipped `config.yaml`. -/
def shipped : Config where
  bufferSize := 5120
  batchTimeoutMs := 50
  batchNumMap := fun port => if port = 8081 then some 10 else none

/-- `aggregatorMsg`; `hops` are those of its `routingInfo`, and `nextHop` is `none`
for a nil IP. -/
structure AggregatorMsg where
  emerge : Bool
  routingKey : String
  protocol : String
  port : UInt16
  hops : List String
  nextHop : Option UInt32
  userID : UInt32
  data : List UInt8
  deriving DecidableEq

/-- `util.HopIPToNet`. -/
def hopIPToNet (ipStr : String) : Option UInt32 := Net.parseIPTo4 ipStr

/-- The record that a message carries. -/
def AggregatorMsg.sub (msg : AggregatorMsg) : SubPacket := ⟨msg.userID, msg.data⟩

variable (cfg : Config) (msg : AggregatorMsg)

/-- A message that `handleMsg` makes urgent by itself, with a buffer of its own size. -/
def immediate : Bool := msg.data.length < 128 || cfg.batchTimeoutMs ≤ 20

def buffSize : Nat :=
  if immediate cfg msg then headerSize + 4 + 2 + msg.data.length else cfg.bufferSize

def emerges : Bool := msg.emerge || immediate cfg msg

/-- One turn of the loop over the hops of a message. -/
def setHop (p : Packet) (hop : String × Nat) : Packet := p.setHopIP hop.2 (hopIPToNet hop.1)

def setHops (p : Packet) (hops : List String) : Packet := hops.zipIdx.foldl setHop p

/-- A packet with the hops, port and protocol of a message, at position 1. -/
def preparePacket (size : Nat) : Packet :=
  (((setHops (newPacket size) msg.hops).setPort msg.port).setProtocol msg.protocol).setHopPos 1

/-- The frame of a message that is sent at once, if it fits its buffer. -/
def emergeFrame : Option (List UInt8) :=
  ((preparePacket msg (buffSize cfg msg)).appendUserPacket msg.userID msg.data).map fun pkt =>
    pkt.serializeHead.frame

/-- The packets of a batch opened for `msg`, with the records pending in them: a
worker appends records, and serialises and clears the packet when it times out.
Shorter messages are not batched. -/
inductive BatchPacket : Packet → List SubPacket → Prop
  | opened : BatchPacket (preparePacket msg cfg.bufferSize) []
  | append {p p' : Packet} {subs : List SubPacket} {userID : UInt32} {data : List UInt8} :
      BatchPacket p subs → 128 ≤ data.length → p.appendUserPacket userID data = some p' →
      BatchPacket p' (subs ++ [⟨userID, data⟩])
  | flushed {p : Packet} {subs : List SubPacket} :
      BatchPacket p subs → BatchPacket { p.serializeHead with wp := headerSize } []

/-- `FrameOf subs frame`: the frame has the hops, port and protocol of `msg` and carries the
records `subs`, among them its own. `handleMsg` also appends to a batch that was opened for
another port or protocol under the same hops; the frames of such a batch are none of these. -/
inductive FrameOf : List SubPacket → List UInt8 → Prop
  | emerge {frame : List UInt8} : emerges cfg msg = true → emergeFrame cfg msg = some frame →
      FrameOf [msg.sub] frame
  | batch {p : Packet} {subs : List SubPacket} : emerges cfg msg = false →
      BatchPacket cfg msg p subs → msg.sub ∈ subs → FrameOf subs p.serializeHead.frame

/-! ## The header of a prepared packet -/

def protocolByte (protocol : String) : UInt8 := if protocol = "tcp" then 6 else 17

/-- The slots after setting the hops, over slots that are free. -/
def hopSlots (hops : List String) : Vector UInt32 4 :=
  (setHops (newPacket 0) hops).hopIP

theorem foldl_setHop_eq (l : List (String × Nat)) (p : Packet) :
    l.foldl setHop p = { p with hopIP := (l.foldl setHop p).hopIP } := by
  induction l generalizing p with
  | nil => rfl
  | cons h l ih =>
    rw [List.foldl_cons, ih]
    rfl

theorem foldl_setHop_hopIP (l : List (String × Nat)) {p q : Packet} (same : p.hopIP = q.hopIP) :
    (l.foldl setHop p).hopIP = (l.foldl setHop q).hopIP := by
  induction l generalizing p q with
  | nil => exact same
  | cons h l ih =>
    rw [List.foldl_cons, List.foldl_cons]
    apply ih
    simp only [setHop, Packet.setHopIP, same]

theorem preparePacket_eq (size : Nat) : preparePacket msg size =
    { newPacket size with
      hopPos := 1, hopIP := hopSlots msg.hops, port := msg.port
      protocol := protocolByte msg.protocol } := by
  have slots : (setHops (newPacket size) msg.hops).hopIP = hopSlots msg.hops :=
    foldl_setHop_hopIP (p := newPacket size) (q := newPacket 0) _ rfl
  rw [preparePacket, setHops, foldl_setHop_eq, ← setHops, slots]
  rfl

variable {cfg msg}

theorem preparePacket_holds {size : Nat} (h : headerSize ≤ size) :
    Holds (preparePacket msg size) [] := by
  rw [preparePacket_eq]
  obtain ⟨h₁, h₂, h₃, h₄, h₅, h₆⟩ := newPacket_holds h
  exact ⟨h₁, h₂, h₃, h₄, h₅, h₆⟩

/-- The header fields of `p` are those of the message. -/
structure HeaderOf (msg : AggregatorMsg) (p : Packet) : Prop where
  hopPos : p.hopPos = 1
  hopIP : p.hopIP = hopSlots msg.hops
  port : p.port = msg.port
  protocol : p.protocol = protocolByte msg.protocol

theorem preparePacket_header (size : Nat) : HeaderOf msg (preparePacket msg size) := by
  rw [preparePacket_eq]
  exact ⟨rfl, rfl, rfl, rfl⟩

section
variable {p p' : Packet} {subs : List SubPacket} {userID : UInt32} {data : List UInt8}

theorem HeaderOf.append (h : HeaderOf msg p) (accepted : p.appendUserPacket userID data = some p') :
    HeaderOf msg p' := by
  rw [appendUserPacket_eq accepted]
  exact ⟨h.hopPos, h.hopIP, h.port, h.protocol⟩

theorem emergeFrame_fits {frame : List UInt8} (built : emergeFrame cfg msg = some frame) :
    headerSize + (6 + msg.data.length) ≤ buffSize cfg msg := by
  obtain ⟨p, accepted, -⟩ := Option.map_eq_some_iff.mp built
  have fits := appendUserPacket_fits accepted
  rw [preparePacket_eq] at fits
  exact fits

/-! ## The life of a batch -/

theorem BatchPacket.header (h : BatchPacket cfg msg p subs) : HeaderOf msg p := by
  induction h with
  | opened => exact preparePacket_header _
  | append _ _ accepted ih => exact ih.append accepted
  | flushed _ ih => exact ⟨ih.hopPos, ih.hopIP, ih.port, ih.protocol⟩

/-- A packet belongs to every message that has its header. -/
theorem BatchPacket.of_header {msg' : AggregatorMsg} (h : BatchPacket cfg msg p subs)
    (header : HeaderOf msg' p) : BatchPacket cfg msg' p subs := by
  have same : preparePacket msg cfg.bufferSize = preparePacket msg' cfg.bufferSize := by
    have own := h.header
    rw [preparePacket_eq, preparePacket_eq, ← own.hopIP, ← own.port, ← own.protocol, header.hopIP,
      header.port, header.protocol]
  clear header
  induction h with
  | opened =>
    rw [same]
    exact .opened
  | append _ enough accepted ih => exact ih.append enough accepted
  | flushed _ ih => exact ih.flushed

theorem BatchPacket.size (h : BatchPacket cfg msg p subs) :
    p.buffSize = cfg.bufferSize ∧ headerSize ≤ p.wp := by
  induction h with
  | opened =>
    rw [preparePacket_eq]
    exact ⟨rfl, le_refl _⟩
  | append _ _ accepted ih =>
    rw [appendUserPacket_eq accepted]
    exact ⟨ih.1, ih.2.trans (Nat.le_add_right _ _)⟩
  | flushed _ ih => exact ⟨ih.1, le_refl _⟩

/-- A buffer without room for the header takes no records. -/
theorem BatchPacket.room (h : BatchPacket cfg msg p subs) (some : subs ≠ []) :
    headerSize ≤ cfg.bufferSize := by
  cases h with
  | opened => exact absurd rfl some
  | append before _ accepted =>
    obtain ⟨size, start⟩ := before.size
    have fits := appendUserPacket_fits accepted
    omega
  | flushed _ => exact absurd rfl some

theorem BatchPacket.holds (h : BatchPacket cfg msg p subs) (room : headerSize ≤ cfg.bufferSize) :
    Holds p subs ∧ (subs ≠ [] → p.payloadLen = UInt16.ofNat (encodeAll subs).length) := by
  induction h with
  | opened => exact ⟨preparePacket_holds room, fun some => absurd rfl some⟩
  | append _ _ accepted ih =>
    obtain ⟨holds, length⟩ := ih.1.append accepted
    exact ⟨holds, fun _ => length⟩
  | flushed _ ih => exact ⟨ih.1.serializeHead.reset, fun some => absurd rfl some⟩

theorem BatchPacket.long (h : BatchPacket cfg msg p subs) : ∀ s ∈ subs, 128 ≤ s.data.length := by
  induction h with
  | opened => exact fun s hs => absurd hs List.not_mem_nil
  | append _ enough _ ih =>
    intro s hs
    rcases List.mem_append.mp hs with hs | hs
    · exact ih s hs
    · rw [List.mem_singleton.mp hs]
      exact enough
  | flushed _ _ => exact fun s hs => absurd hs List.not_mem_nil

end

/-! ## Frames on the wire -/

section
variable {subs : List SubPacket} {frame : List UInt8}

theorem FrameOf.mem (h : FrameOf cfg msg subs frame) : msg.sub ∈ subs := by
  cases h with
  | emerge _ _ => exact List.mem_singleton_self _
  | batch _ _ mem => exact mem

/-- A frame has the header of its message. It carries the encoding of its records,
as far as the length modulo 2¹⁶ goes. -/
theorem FrameOf.wire (h : FrameOf cfg msg subs frame) :
    ∃ p, HeaderOf msg p ∧ p.payloadLen.toNat = (encodeAll subs).length % 65536 ∧
      frame = p.wire ((encodeAll subs).take ((encodeAll subs).length % 65536)) := by
  cases h with
  | emerge _ built =>
    have room : headerSize ≤ buffSize cfg msg :=
      (Nat.le_add_right _ _).trans (emergeFrame_fits built)
    obtain ⟨p, accepted, rfl⟩ := Option.map_eq_some_iff.mp built
    obtain ⟨holds, length⟩ := (preparePacket_holds room).append accepted
    exact ⟨p, (preparePacket_header _).append accepted, holds.frame_cut length⟩
  | @batch p _ _ life mem =>
    have some := List.ne_nil_of_mem mem
    obtain ⟨holds, length⟩ := life.holds (life.room some)
    exact ⟨p, life.header, holds.frame_cut (length some)⟩

/-- What parsing a frame gives is what it was built from exactly if its own record
is not empty and the records do not outgrow the length field. -/
theorem FrameOf.parsed_iff (h : FrameOf cfg msg subs frame) {fuel : Nat}
    (hf : (encodeAll subs).length % 65536 ≤ fuel) :
    subPackets fuel ((encodeAll subs).take ((encodeAll subs).length % 65536)) = subs ↔
      msg.data ≠ [] ∧ (encodeAll subs).length < 65536 := by
  by_cases fits : (encodeAll subs).length < 65536
  · have short : ∀ s ∈ subs, s.data.length < 65536 := by
      intro s hs
      have := length_le_encodeAll hs
      omega
    rw [Nat.mod_eq_of_lt fits] at hf ⊢
    rw [List.take_length, subPackets_encode short hf]
    simp only [fits, and_true]
    cases h with
    | emerge _ _ =>
      have own : msg.sub.data = msg.data := rfl
      by_cases none : msg.data = []
      · simp [received, own, none]
      · simp [received, own, none]
    | batch _ life mem =>
      have full : ∀ s ∈ subs, s.data ≠ [] := by
        intro s hs
        exact List.ne_nil_of_length_pos (by have := life.long s hs; omega)
      have all : received subs = subs :=
        received_eq_self fun s last => full s (List.mem_of_getLast? last)
      simp only [all, true_iff]
      exact full _ mem
  · have cut : subPackets fuel ((encodeAll subs).take ((encodeAll subs).length % 65536)) ≠ subs :=
      subPackets_cut (.inr (by omega))
    simp only [cut, fits, and_false]

end

/-! ## The slots of addresses written out -/

theorem setHop_getElem (p : Packet) (ip : UInt32) (k i : Nat) (hi : i < 4) :
    (setHop p (Net.ipString ip, k)).hopIP[i] = if k = i then ip else p.hopIP[i] := by
  have parsed : hopIPToNet (Net.ipString ip) = some ip := Net.parseIPTo4_ipString ip
  simp only [setHop, Packet.setHopIP, parsed]
  exact Vector.getElem_setIfInBounds hi

theorem foldl_setHop_getElem (ips : List UInt32) (k i : Nat) (hi : i < 4) (p : Packet) :
    (((ips.map Net.ipString).zipIdx k).foldl setHop p).hopIP[i] =
      if k ≤ i then ips[i - k]?.getD p.hopIP[i] else p.hopIP[i] := by
  induction ips generalizing k p with
  | nil => simp
  | cons a ips ih =>
    rw [List.map_cons, List.zipIdx_cons, List.foldl_cons, ih, setHop_getElem]
    rcases Nat.lt_trichotomy k i with h | h | h
    · obtain ⟨m, hm⟩ : ∃ m, i - k = m + 1 := ⟨i - k - 1, by omega⟩
      have hm' : i - (k + 1) = m := by omega
      have later : ¬ k = i := by omega
      rw [if_pos (Nat.succ_le_of_lt h), if_neg later, if_pos h.le, hm, hm', List.getElem?_cons_succ]
    · subst h
      have past : ¬ k + 1 ≤ k := by omega
      rw [if_neg past, if_pos rfl, if_pos (le_refl _), Nat.sub_self]
      rfl
    · have past : ¬ k + 1 ≤ i := by omega
      have other : ¬ k = i := by omega
      have above : ¬ k ≤ i := by omega
      rw [if_neg past, if_neg other, if_neg above]

/-- Slot `i` holds the `i`-th address of a list written out, and the others are free. -/
theorem hopSlots_getElem (ips : List UInt32) (i : Nat) (hi : i < 4) :
    (hopSlots (ips.map Net.ipString))[i] = ips[i]?.getD 0 := by
  have free : (newPacket 0).hopIP[i] = 0 := Vector.getElem_replicate hi
  have slots := foldl_setHop_getElem ips 0 i hi (newPacket 0)
  rw [if_pos (Nat.zero_le i), Nat.sub_zero, free] at slots
  exact slots

end SkyAccel.Aggregator
