import SkyAccel.Tunnel.Journey

/-!
# Records through a frame

A packet is filled, serialized and, as `checkTimeout` does it, emptied by moving
its write position back. `Filling` follows the records it accepts. Only an accepted
append writes the length field, so parsing gives back the records of the last
filling in which one was accepted (`parse_filling`).
-/

namespace SkyAccel.Tunnel

open Bytes (putUint16 putUint32 uint16 uint32)

/-- The header fields that the users of a packet set. -/
def Packet.fields (p : Packet) : UInt8 × Vector UInt32 4 × UInt16 × UInt8 :=
  (p.hopPos, p.hopIP, p.port, p.protocol)

/-! ## Packets in use -/

inductive Use
  | append (userID : UInt32) (data : List UInt8)
  | serializeHead
  | reset

/-- A packet in use, with the records accepted `since` the write position was last
reset, and the records of the `last` filling in which one was accepted. -/
structure Filling where
  pkt : Packet
  since : List SubPacket
  last : List SubPacket

namespace Filling

def start (buffSizes : Nat) (hopPos : UInt8) (hopIP : Vector UInt32 4) (port : UInt16)
    (protocol : UInt8) : Filling where
  pkt := { newPacket buffSizes with
    hopPos := hopPos, hopIP := hopIP, port := port, protocol := protocol }
  since := []
  last := []

def step (f : Filling) : Use → Filling
  | .append userID data =>
    match f.pkt.appendUserPacket userID data with
    | none => f
    | some pkt => ⟨pkt, f.since ++ [⟨userID, data⟩], f.since ++ [⟨userID, data⟩]⟩
  | .serializeHead => { f with pkt := f.pkt.serializeHead }
  | .reset => { f with pkt := { f.pkt with wp := headerSize }, since := [] }

def run (f : Filling) (uses : List Use) : Filling := uses.foldl step f

/-- The packet holds the records of this filling, and its length field and the bytes
after the header are those of the last one. -/
structure Sound (f : Filling) : Prop where
  now : Holds f.pkt f.since
  kept : Holds { f.pkt with wp := headerSize + (encodeAll f.last).length } f.last
  length : f.pkt.payloadLen = UInt16.ofNat (encodeAll f.last).length
  same : f.since ≠ [] → f.last = f.since

theorem sound_start {buffSizes : Nat} (room : headerSize ≤ buffSizes) (hopPos : UInt8)
    (hopIP : Vector UInt32 4) (port : UInt16) (protocol : UInt8) :
    (start buffSizes hopPos hopIP port protocol).Sound := by
  have empty := newPacket_holds room
  have same : Holds (start buffSizes hopPos hopIP port protocol).pkt [] :=
    ⟨empty.size, empty.room, empty.wp, empty.fits, empty.body, empty.pad⟩
  exact ⟨same, same, rfl, fun h => absurd rfl h⟩

/-- A refused append changes nothing, and an accepted one is the whole new state. -/
theorem step_append {f : Filling} (userID : UInt32) (data : List UInt8) :
    f.pkt.appendUserPacket userID data = none ∧ f.step (.append userID data) = f ∨
      ∃ pkt, f.pkt.appendUserPacket userID data = some pkt ∧
        f.step (.append userID data) =
          ⟨pkt, f.since ++ [⟨userID, data⟩], f.since ++ [⟨userID, data⟩]⟩ := by
  cases answer : f.pkt.appendUserPacket userID data with
  | none => exact .inl ⟨rfl, by simp only [step, answer]⟩
  | some pkt => exact .inr ⟨pkt, rfl, by simp only [step, answer]⟩

theorem sound_step {f : Filling} (h : f.Sound) (use : Use) : (f.step use).Sound := by
  cases use with
  | append userID data =>
    obtain ⟨-, same⟩ | ⟨pkt, accepted, same⟩ := step_append (f := f) userID data
    · rw [same]
      exact h
    · obtain ⟨holds, length⟩ := h.now.append accepted
      have wp := holds.wp
      rw [same]
      constructor
      case now => exact holds
      case kept =>
        simp only [← wp]
        exact holds
      case length => exact length
      case same => exact fun _ => rfl
  | serializeHead => exact ⟨h.now.serializeHead, h.kept.serializeHead, h.length, h.same⟩
  | reset => exact ⟨h.now.reset, h.kept, h.length, fun ne => absurd rfl ne⟩

theorem sound_run {f : Filling} (h : f.Sound) (uses : List Use) : (f.run uses).Sound := by
  induction uses generalizing f with
  | nil => exact h
  | cons use uses ih => exact ih (sound_step h use)

/-- No use of a packet touches its buffer size or the fields its users set. -/
theorem step_fields (f : Filling) (use : Use) :
    (f.step use).pkt.fields = f.pkt.fields ∧ (f.step use).pkt.buffSize = f.pkt.buffSize := by
  cases use with
  | append userID data =>
    obtain ⟨-, same⟩ | ⟨pkt, accepted, same⟩ := step_append (f := f) userID data
    · rw [same]
      exact ⟨rfl, rfl⟩
    · rw [same]
      simp only
      rw [appendUserPacket_eq accepted]
      exact ⟨rfl, rfl⟩
  | serializeHead => exact ⟨rfl, rfl⟩
  | reset => exact ⟨rfl, rfl⟩

theorem run_fields (f : Filling) (uses : List Use) :
    (f.run uses).pkt.fields = f.pkt.fields ∧ (f.run uses).pkt.buffSize = f.pkt.buffSize := by
  induction uses generalizing f with
  | nil => exact ⟨rfl, rfl⟩
  | cons use uses ih =>
    obtain ⟨fields, size⟩ := step_fields f use
    obtain ⟨fields', size'⟩ := ih (f.step use)
    exact ⟨fields'.trans fields, size'.trans size⟩

/-- The records kept are among the ones appended. -/
theorem step_mem {f : Filling} {P : SubPacket → Prop} {use : Use}
    (new : ∀ userID data, use = .append userID data → P ⟨userID, data⟩)
    (old : (∀ s ∈ f.since, P s) ∧ ∀ s ∈ f.last, P s) :
    (∀ s ∈ (f.step use).since, P s) ∧ ∀ s ∈ (f.step use).last, P s := by
  cases use with
  | append userID data =>
    obtain ⟨-, same⟩ | ⟨pkt, -, same⟩ := step_append (f := f) userID data
    · rw [same]
      exact old
    · have both : ∀ s ∈ f.since ++ [⟨userID, data⟩], P s := by
        intro s hs
        obtain before | rfl := by simpa using hs
        · exact old.1 s before
        · exact new _ _ rfl
      rw [same]
      exact ⟨both, both⟩
  | serializeHead => exact old
  | reset => exact ⟨fun _ none => absurd none List.not_mem_nil, old.2⟩

theorem run_mem {f : Filling} {P : SubPacket → Prop} {uses : List Use}
    (new : ∀ userID data, .append userID data ∈ uses → P ⟨userID, data⟩)
    (old : (∀ s ∈ f.since, P s) ∧ ∀ s ∈ f.last, P s) : ∀ s ∈ (f.run uses).last, P s := by
  induction uses generalizing f with
  | nil => exact old.2
  | cons use uses ih =>
    apply ih
    · exact fun userID data mem => new userID data (List.mem_cons_of_mem _ mem)
    · apply step_mem _ old
      rintro userID data rfl
      exact new userID data List.mem_cons_self

section
variable {f : Filling}

/-- In a buffer whose payload a 16-bit length can count, the frame is the header with
the records of the last filling. -/
theorem Sound.frame (h : f.Sound) (small : f.pkt.buffSize ≤ 65559) :
    f.pkt.payloadLen.toNat = (encodeAll f.last).length ∧
      f.pkt.serializeHead.frame = f.pkt.wire (encodeAll f.last) := by
  have fits : headerSize + (encodeAll f.last).length ≤ f.pkt.buffSize := h.kept.fits
  have whole : (encodeAll f.last).length % 65536 = (encodeAll f.last).length := by
    apply Nat.mod_eq_of_lt
    have : headerSize = 24 := rfl
    omega
  obtain ⟨length, frame⟩ := h.kept.frame_cut h.length
  rw [whole] at length frame
  rw [List.take_length] at frame
  exact ⟨length, frame⟩

theorem Sound.short (h : f.Sound) (small : f.pkt.buffSize ≤ 65559) :
    ∀ s ∈ f.last, s.data.length < 65536 := by
  intro s hs
  have fits : headerSize + (encodeAll f.last).length ≤ f.pkt.buffSize := h.kept.fits
  have := length_le_encodeAll hs
  have : headerSize = 24 := rfl
  omega

end

/-- A refused append leaves the packet as it was. A frame gives its header fields back,
and the records of the last filling in which one was accepted. These are the ones
accepted since the last reset exactly if there are any, or none was ever accepted. -/
theorem parse_filling (buffSizes : Nat) (room : headerSize ≤ buffSizes)
    (small : buffSizes ≤ 65559) (hopPos : UInt8) (hopIP : Vector UInt32 4) (port : UInt16)
    (protocol : UInt8) (uses : List Use)
    (nonempty : ∀ userID data, Use.append userID data ∈ uses → data ≠ []) :
    let f := (start buffSizes hopPos hopIP port protocol).run uses
    let sent := f.pkt.serializeHead
    (∀ userID data, f.pkt.appendUserPacket userID data = none →
      (f.step (.append userID data)).pkt = f.pkt) ∧
    (∃ header, parseHeader sent.frame = .ok header ∧
      header.fields = (hopPos, hopIP, port, protocol)) ∧
    (∃ q, parse sent.frame sent.totalBytes = .ok (q, f.last) ∧
      q.fields = (hopPos, hopIP, port, protocol)) ∧
    (f.last = f.since ↔ f.since ≠ [] ∨ f.last = []) := by
  intro f sent
  have sound : f.Sound := sound_run (sound_start room hopPos hopIP port protocol) uses
  obtain ⟨fields, size⟩ := run_fields (start buffSizes hopPos hopIP port protocol) uses
  have small' : f.pkt.buffSize ≤ 65559 := size.trans_le small
  obtain ⟨length, frame⟩ := sound.frame small'
  have total : sent.totalBytes = (f.pkt.wire (encodeAll f.last)).length := by
    rw [length_wire, ← length]
    rfl
  have full : ∀ s ∈ f.last, s.data ≠ [] := by
    apply run_mem (P := fun s => s.data ≠ []) nonempty
    exact ⟨fun _ none => absurd none List.not_mem_nil, fun _ none => absurd none List.not_mem_nil⟩
  have all : received f.last = f.last := by
    apply received_eq_self
    intro s last
    exact full s (List.mem_of_getLast? last)
  refine ⟨?_, ⟨f.pkt.header, ?_, fields⟩, ⟨f.pkt.parsed (encodeAll f.last), ?_, fields⟩, ?_⟩
  · intro userID data refused
    simp only [step, refused]
  · rw [frame, parseHeader_wire]
  · rw [frame, total, parse_wire_eq _ length.symm,
      subPackets_encode (sound.short small') (le_refl _), all]
  · constructor
    · intro same
      by_cases none : f.since = []
      · exact .inr (same.trans none)
      · exact .inl none
    · intro h
      by_cases none : f.since = []
      · rw [none]
        exact h.resolve_left (not_not.mpr none)
      · exact sound.same none

/-- A packet emptied after one record and not filled again still sends that record. -/
theorem parse_filling_stale :
    let f := (start 64 1 #v[1, 2, 0, 0] 80 6).run
      [.append 7 [65], .serializeHead, .reset, .append 8 (List.replicate 40 66)]
    f.since = [] ∧ (parse f.pkt.serializeHead.frame f.pkt.serializeHead.totalBytes).map Prod.snd =
      .ok [⟨7, [65]⟩] := by
  decide +kernel

/-- A record, one that does not fit, a reset, and another record. -/
def reused : List Use :=
  [.append 7 [65], .append 8 (List.replicate 40 66), .serializeHead, .reset, .append 9 [67, 68]]

theorem parse_filling_reused :
    let f := (start 64 1 #v[1, 2, 0, 0] 80 6).run reused
    ∃ q, parse f.pkt.serializeHead.frame f.pkt.serializeHead.totalBytes =
      .ok (q, [⟨9, [67, 68]⟩]) ∧ q.fields = (1, #v[1, 2, 0, 0], 80, 6) := by
  have last : ((start 64 1 #v[1, 2, 0, 0] 80 6).run reused).last = [⟨9, [67, 68]⟩] := by
    decide +kernel
  have nonempty : ∀ userID data, Use.append userID data ∈ reused → data ≠ [] := by
    intro userID data appended
    simp only [reused, List.mem_cons, Use.append.injEq, List.not_mem_nil, reduceCtorEq, or_false,
      false_or] at appended
    obtain ⟨-, rfl⟩ | ⟨-, rfl⟩ | ⟨-, rfl⟩ := appended
    · decide
    · decide
    · decide
  have parsed := (parse_filling 64 (by decide) (by decide) 1 #v[1, 2, 0, 0] 80 6 reused
    nonempty).2.2.1
  rw [last] at parsed
  exact parsed

end Filling

end SkyAccel.Tunnel
