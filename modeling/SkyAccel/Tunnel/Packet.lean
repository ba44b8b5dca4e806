import SkyAccel.Lib.Bytes

/-!
# Tunnel packets

`tunnel-packet/tunnel-packet.go`: a frame is a header of 24 bytes followed by user
records, each a user ID, a 16-bit length and the data. `Holds p subs` says that the
written part of a packet is the encoding of `subs`. Appending extends it, a frame
is the header followed by that encoding (`frame_eq`), and parsing reads the records
back, except an empty one at the end (`subPackets_encode`).
-/

namespace SkyAccel.Tunnel

open Bytes (putUint16 putUint32 uint16 uint32 writeAt)

def headerSize : Nat := 24

def maxHops : Nat := 4

structure Packet where
  buf : List UInt8
  buffSize : Nat
  hopPos : UInt8
  hopIP : Vector UInt32 4
  payloadLen : UInt16
  port : UInt16
  protocol : UInt8
  wp : Nat
  deriving DecidableEq

structure SubPacket where
  userID : UInt32
  data : List UInt8
  deriving DecidableEq

def newPacket (buffSizes : Nat) : Packet where
  buf := List.replicate buffSizes 0
  buffSize := buffSizes
  hopPos := 0
  hopIP := Vector.replicate 4 0
  payloadLen := 0
  port := 0
  protocol := 0
  wp := headerSize

namespace Packet
variable (p : Packet)

/-- The address is what `To4` gives, `none` being a nil IP. -/
def setHopIP (hopIdx : Nat) (ip : Option UInt32) : Packet :=
  { p with
    hopIP := match ip with
      | some ip4 => p.hopIP.setIfInBounds hopIdx ip4
      | none => p.hopIP }

def setHopPos (pos : UInt8) : Packet :=
  if pos.toNat < maxHops then { p with hopPos := pos } else p

def setPort (port : UInt16) : Packet := { p with port := port }

def setProtocol (protocol : String) : Packet :=
  { p with protocol := if protocol = "tcp" then 6 else 17 }

/-- Append a record; `none` is the answer `false`, which leaves the packet as it was. -/
def appendUserPacket (userID : UInt32) (data : List UInt8) : Option Packet :=
  if p.buffSize < p.wp + (4 + 2 + data.length) then none
  else
    let buf := writeAt p.buf p.wp (putUint32 userID)
    let buf := writeAt buf (p.wp + 4) (putUint16 (UInt16.ofNat data.length))
    let buf := writeAt buf (p.wp + 4 + 2) data
    let wp := p.wp + 4 + 2 + data.length
    some { p with buf := buf, wp := wp, payloadLen := UInt16.ofNat (wp - headerSize) }

/-- The bytes `SerializeHead` writes; the last two of the header stay as they are. -/
def headBytes : List UInt8 :=
  p.hopPos :: (p.hopIP.toList.flatMap putUint32 ++ putUint16 p.payloadLen ++ putUint16 p.port ++
    [p.protocol])

def serializeHead : Packet := { p with buf := writeAt p.buf 0 p.headBytes }

def totalBytes : Nat := headerSize + p.payloadLen.toNat

/-- `p.Buf[:p.TotalBytes()]`. -/
def frame : List UInt8 := p.buf.take p.totalBytes

/-- A frame with the header of `p`, its two unused bytes 0, and the payload `body`. -/
def wire (body : List UInt8) : List UInt8 := p.headBytes ++ [0, 0] ++ body

/-- The header fields, read from the first bytes of a slice. -/
def readHeader (b : List UInt8) : Packet :=
  { p with
    hopPos := b.headD 0
    hopIP := #v[uint32 (b.drop 1), uint32 (b.drop 5), uint32 (b.drop 9), uint32 (b.drop 13)]
    payloadLen := uint16 (b.drop 17)
    port := uint16 (b.drop 19)
    protocol := (b.drop 21).headD 0 }

end Packet

def parseHeader (raw : List UInt8) : Except String Packet :=
  if raw.length < headerSize then .error "invalid packet header: length too short"
  else
    let p : Packet := { newPacket 0 with buf := raw.take headerSize, wp := 0 }
    .ok (p.readHeader p.buf)

/-- The loop of `Parse` over the payload. Reading from an exhausted reader is an
error even for an empty record, and a record cut short is filled up with zeros. -/
def subPackets : Nat → List UInt8 → List SubPacket
  | 0, _ => []
  | fuel + 1, r =>
    if r.length < 4 then []
    else if (r.drop 4).length < 2 then []
    else
      let subLen := (uint16 (r.drop 4)).toNat
      let rest := r.drop 6
      if rest = [] then []
      else
        ⟨uint32 r, rest.take subLen ++ List.replicate (subLen - rest.length) 0⟩ ::
          subPackets fuel (rest.drop subLen)

/-- `Parse`, for a buffer with room for the header. -/
def parse (raw : List UInt8) (bufferSize : Nat) : Except String (Packet × List SubPacket) :=
  if raw.length < headerSize then .error "raw data too short"
  else
    let p := newPacket bufferSize
    let p := { p with buf := writeAt p.buf 0 raw }
    let p := p.readHeader p.buf
    let payloadEnd := headerSize + p.payloadLen.toNat
    if raw.length < payloadEnd ∨ bufferSize < payloadEnd then .error "invalid payload length"
    else
      let payload := (p.buf.take payloadEnd).drop headerSize
      .ok (p, subPackets payload.length payload)

def advanceRawHop (pkt : List UInt8) : List UInt8 :=
  match pkt with
  | pos :: rest =>
    if headerSize ≤ pkt.length ∧ pos.toNat < maxHops - 1 then (pos + 1) :: rest else pkt
  | [] => []

/-! ## The encoding of records -/

def SubPacket.encode (s : SubPacket) : List UInt8 :=
  putUint32 s.userID ++ putUint16 (UInt16.ofNat s.data.length) ++ s.data

def encodeAll (subs : List SubPacket) : List UInt8 := subs.flatMap SubPacket.encode

@[simp] theorem SubPacket.length_encode (s : SubPacket) : s.encode.length = 6 + s.data.length := by
  simp only [SubPacket.encode, List.length_append, Bytes.length_putUint32, Bytes.length_putUint16]

@[simp] theorem encodeAll_nil : encodeAll [] = [] := rfl

@[simp] theorem encodeAll_cons (s : SubPacket) (subs : List SubPacket) :
    encodeAll (s :: subs) = s.encode ++ encodeAll subs := rfl

@[simp] theorem encodeAll_append (subs subs' : List SubPacket) :
    encodeAll (subs ++ subs') = encodeAll subs ++ encodeAll subs' := List.flatMap_append

theorem length_le_encodeAll {s : SubPacket} {subs : List SubPacket} (h : s ∈ subs) :
    6 + s.data.length ≤ (encodeAll subs).length := by
  obtain ⟨before, after, rfl⟩ := List.append_of_mem h
  rw [encodeAll_append, encodeAll_cons, List.length_append, List.length_append,
    SubPacket.length_encode]
  omega

/-- What parsing recovers: all records but an empty one at the end. -/
def received : List SubPacket → List SubPacket
  | [] => []
  | [s] => if s.data = [] then [] else [s]
  | s :: t :: subs => s :: received (t :: subs)

theorem received_eq_self {subs : List SubPacket}
    (h : ∀ s, subs.getLast? = some s → s.data ≠ []) : received subs = subs := by
  induction subs with
  | nil => rfl
  | cons s subs ih =>
    cases subs with
    | nil => exact if_neg (h s rfl)
    | cons t subs => rw [received, ih fun u hu => h u (by simpa using hu)]

theorem subPackets_encode {subs : List SubPacket} (short : ∀ s ∈ subs, s.data.length < 65536)
    {fuel : Nat} (hf : (encodeAll subs).length ≤ fuel) :
    subPackets fuel (encodeAll subs) = received subs := by
  induction subs generalizing fuel with
  | nil => cases fuel <;> rfl
  | cons s subs ih =>
    rw [encodeAll_cons, List.length_append, SubPacket.length_encode] at hf
    obtain ⟨fuel, rfl⟩ : ∃ n, fuel = n + 1 := ⟨fuel - 1, by omega⟩
    have size := short s List.mem_cons_self
    have length : (uint16 ((encodeAll (s :: subs)).drop 4)).toNat = s.data.length := by
      rw [encodeAll_cons, SubPacket.encode, List.append_assoc, List.append_assoc,
        List.drop_left' (Bytes.length_putUint32 _), Bytes.uint16_putUint16, UInt16.toNat_ofNat']
      omega
    have user : uint32 (encodeAll (s :: subs)) = s.userID := by
      rw [encodeAll_cons, SubPacket.encode, List.append_assoc, List.append_assoc,
        Bytes.uint32_putUint32]
    have body : (encodeAll (s :: subs)).drop 6 = s.data ++ encodeAll subs := by
      rw [encodeAll_cons, SubPacket.encode, List.append_assoc (putUint32 _ ++ _)]
      exact List.drop_left' (by simp)
    have long : 6 ≤ (encodeAll (s :: subs)).length := by
      rw [encodeAll_cons, List.length_append, SubPacket.length_encode]
      omega
    rw [subPackets, if_neg (by omega), if_neg (by rw [List.length_drop]; omega)]
    simp only [length, user, body]
    by_cases last : s.data ++ encodeAll subs = []
    · obtain ⟨hs, hrest⟩ := List.append_eq_nil_iff.mp last
      have none : subs = [] := by
        cases subs with
        | nil => rfl
        | cons t subs =>
          have := congrArg List.length hrest
          rw [encodeAll_cons, List.length_append, SubPacket.length_encode, List.length_nil] at this
          omega
      rw [if_pos last, none, received, if_pos hs]
    · have pad : s.data.length - (s.data ++ encodeAll subs).length = 0 := by
        rw [List.length_append]; omega
      rw [if_neg last, List.take_left, List.drop_left, pad, List.replicate_zero, List.append_nil,
        ih (fun t ht => short t (List.mem_cons_of_mem _ ht)) (by omega)]
      cases subs with
      | nil =>
        have ne : s.data ≠ [] := by simpa using last
        rw [received, received, if_neg ne]
      | cons t subs => rfl

/-- A record read has the length that its length field announces. -/
theorem subPackets_cons {fuel : Nat} {r : List UInt8} {s : SubPacket} {subs : List SubPacket}
    (h : subPackets fuel r = s :: subs) :
    6 < r.length ∧ s.data.length = (uint16 (r.drop 4)).toNat ∧
      ∃ fuel', subs = subPackets fuel' ((r.drop 6).drop s.data.length) := by
  cases fuel with
  | zero => cases h
  | succ fuel =>
    rw [subPackets] at h
    split at h
    · cases h
    · split at h
      · cases h
      · simp only at h
        split at h
        · cases h
        · rename_i some
          obtain ⟨rfl, rfl⟩ := List.cons.inj h
          have long := List.length_pos_of_ne_nil some
          have size : (List.take (uint16 (r.drop 4)).toNat (r.drop 6) ++
              List.replicate ((uint16 (r.drop 4)).toNat - (r.drop 6).length) 0).length =
              (uint16 (r.drop 4)).toNat := by
            rw [List.length_append, List.length_take, List.length_replicate]
            omega
          rw [List.length_drop] at long
          exact ⟨by omega, size, fuel, by simp only [size]⟩

/-- An encoding cut as far as a length field that overflowed cuts it does not give
all records back: reading the last one takes bytes that are no longer there. -/
theorem subPackets_cut {subs : List SubPacket} {m fuel : Nat}
    (cut : m = 0 ∧ subs ≠ [] ∨ m + 65536 ≤ (encodeAll subs).length) :
    subPackets fuel ((encodeAll subs).take m) ≠ subs := by
  induction subs generalizing m fuel with
  | nil => simp at cut
  | cons s subs ih =>
    intro same
    obtain ⟨long, size, fuel', rest⟩ := subPackets_cons same
    rw [List.length_take] at long
    have beyond : m + 65536 ≤ (encodeAll (s :: subs)).length := by
      refine cut.resolve_left ?_
      rintro ⟨rfl, -⟩
      omega
    rw [encodeAll_cons, List.length_append, SubPacket.length_encode] at beyond
    have field := UInt16.toNat_lt (uint16 (((encodeAll (s :: subs)).take m).drop 4))
    have after : (((encodeAll (s :: subs)).take m).drop 6).drop s.data.length =
        (encodeAll subs).take (m - (6 + s.data.length)) := by
      rw [List.drop_drop, List.drop_take, encodeAll_cons,
        List.drop_left' (SubPacket.length_encode s)]
    rw [after] at rest
    refine ih ?_ rest.symm
    by_cases inside : 6 + s.data.length ≤ m
    · exact .inr (by omega)
    · refine .inl ⟨by omega, ?_⟩
      rintro rfl
      rw [encodeAll_nil, List.length_nil] at beyond
      omega

/-! ## Packets that hold records -/

/-- The written part of the packet is the encoding of `subs`. -/
structure Holds (p : Packet) (subs : List SubPacket) : Prop where
  size : p.buf.length = p.buffSize
  room : headerSize ≤ p.buffSize
  wp : p.wp = headerSize + (encodeAll subs).length
  fits : p.wp ≤ p.buffSize
  body : (p.buf.take p.wp).drop headerSize = encodeAll subs
  pad : (p.buf.take headerSize).drop 22 = [0, 0]

theorem newPacket_holds {n : Nat} (h : headerSize ≤ n) : Holds (newPacket n) [] where
  size := List.length_replicate
  room := h
  wp := rfl
  fits := h
  body := by
    rw [encodeAll_nil, List.drop_eq_nil_iff, List.length_take]
    exact min_le_left _ _
  pad := by
    have : headerSize = 24 := rfl
    simp only [newPacket, List.take_replicate, List.drop_replicate]
    rw [show min headerSize n - 22 = 2 by omega]
    rfl

section
variable {p p' : Packet} {subs : List SubPacket}

/-- Clearing the write position empties the packet. -/
theorem Holds.reset (h : Holds p subs) : Holds { p with wp := headerSize } [] where
  size := h.size
  room := h.room
  wp := rfl
  fits := h.room
  body := by
    rw [encodeAll_nil, List.drop_eq_nil_iff, List.length_take]
    exact min_le_left _ _
  pad := h.pad

theorem Holds.take_wp (h : Holds p subs) :
    p.buf.take p.wp = p.buf.take headerSize ++ encodeAll subs := by
  have cut := List.take_append_drop headerSize (p.buf.take p.wp)
  have wp := h.wp
  rw [h.body, List.take_take, min_eq_left (by omega)] at cut
  exact cut.symm

theorem appendUserPacket_eq_none {userID : UInt32} {data : List UInt8} :
    p.appendUserPacket userID data = none ↔ p.buffSize < p.wp + (6 + data.length) := by
  unfold Packet.appendUserPacket
  by_cases h : p.buffSize < p.wp + (4 + 2 + data.length)
  · simp [h]
  · simp [h]

theorem appendUserPacket_fits {userID : UInt32} {data : List UInt8}
    (accepted : p.appendUserPacket userID data = some p') :
    p.wp + (6 + data.length) ≤ p.buffSize := by
  by_contra full
  rw [appendUserPacket_eq_none.mpr (by omega)] at accepted
  cases accepted

/-- An append keeps the header fields other than the length. -/
theorem appendUserPacket_eq {userID : UInt32} {data : List UInt8}
    (accepted : p.appendUserPacket userID data = some p') :
    p' = { p with
      buf := p'.buf, wp := p.wp + (6 + data.length)
      payloadLen := UInt16.ofNat (p.wp + (6 + data.length) - headerSize) } := by
  have fits := appendUserPacket_fits accepted
  unfold Packet.appendUserPacket at accepted
  rw [if_neg (by omega)] at accepted
  have end' : p.wp + 4 + 2 + data.length = p.wp + (6 + data.length) := by omega
  obtain rfl := Option.some.inj accepted
  simp only [end']

/-- The three writes of a record are one. -/
theorem writeAt_record {buf : List UInt8} {i : Nat} (s : SubPacket)
    (h : i + s.encode.length ≤ buf.length) :
    writeAt (writeAt (writeAt buf i (putUint32 s.userID)) (i + 4)
      (putUint16 (UInt16.ofNat s.data.length))) (i + 4 + 2) s.data = writeAt buf i s.encode := by
  rw [SubPacket.length_encode] at h
  have h₁ : i + (putUint32 s.userID).length ≤ buf.length := by
    rw [Bytes.length_putUint32]; omega
  have l₁ := Bytes.length_writeAt h₁
  have t₁ := Bytes.take_writeAt h₁
  have d₁ := Bytes.drop_writeAt h₁
  rw [Bytes.length_putUint32] at t₁ d₁
  have h₂ : i + 4 + (putUint16 (UInt16.ofNat s.data.length)).length ≤
      (writeAt buf i (putUint32 s.userID)).length := by
    rw [Bytes.length_putUint16, l₁]; omega
  have l₂ := Bytes.length_writeAt h₂
  have t₂ := Bytes.take_writeAt h₂
  have d₂ := Bytes.drop_writeAt h₂
  rw [Bytes.length_putUint16] at t₂ d₂
  have h₃ : i + 4 + 2 + s.data.length ≤ (writeAt (writeAt buf i (putUint32 s.userID)) (i + 4)
      (putUint16 (UInt16.ofNat s.data.length))).length := by
    rw [l₂, l₁]; omega
  have tail : ∀ k, i + 4 + 2 ≤ k → (writeAt (writeAt buf i (putUint32 s.userID)) (i + 4)
      (putUint16 (UInt16.ofNat s.data.length))).drop k = buf.drop k := by
    intro k hk
    obtain ⟨m, rfl⟩ := Nat.exists_eq_add_of_le hk
    rw [← List.drop_drop, d₂, ← List.drop_drop (i := 2), d₁, List.drop_drop, List.drop_drop]
    congr 1
    omega
  rw [Bytes.writeAt_eq h₃, t₂, t₁, tail _ (by omega),
    Bytes.writeAt_eq (by rw [SubPacket.length_encode]; omega), SubPacket.encode]
  simp only [List.append_assoc, List.length_append, Bytes.length_putUint32, Bytes.length_putUint16,
    Nat.add_assoc]

/-- A record accepted stands after the others, and the length field is that of
all of them, modulo its 16 bits. -/
theorem Holds.append (h : Holds p subs) {userID : UInt32} {data : List UInt8}
    (accepted : p.appendUserPacket userID data = some p') :
    Holds p' (subs ++ [⟨userID, data⟩]) ∧
      p'.payloadLen = UInt16.ofNat (encodeAll (subs ++ [⟨userID, data⟩])).length := by
  have fits := appendUserPacket_fits accepted
  have hwp := h.wp
  have hsize := h.size
  have inside : p.wp + (SubPacket.encode ⟨userID, data⟩).length ≤ p.buf.length := by
    rw [SubPacket.length_encode]
    simp only
    omega
  have total : (encodeAll (subs ++ [⟨userID, data⟩])).length =
      (encodeAll subs).length + (6 + data.length) := by simp
  have same : p' = { p with
      buf := writeAt p.buf p.wp (SubPacket.encode ⟨userID, data⟩)
      wp := p.wp + 4 + 2 + data.length
      payloadLen := UInt16.ofNat (p.wp + 4 + 2 + data.length - headerSize) } := by
    unfold Packet.appendUserPacket at accepted
    rw [if_neg (by omega)] at accepted
    rw [← writeAt_record ⟨userID, data⟩ inside]
    exact (Option.some.inj accepted).symm
  have upTo : (writeAt p.buf p.wp (SubPacket.encode ⟨userID, data⟩)).take
      (p.wp + 4 + 2 + data.length) =
      p.buf.take headerSize ++ (encodeAll subs ++ SubPacket.encode ⟨userID, data⟩) := by
    have cut := Bytes.take_writeAt inside
    rw [SubPacket.length_encode, h.take_wp, List.append_assoc] at cut
    rw [← cut]
    congr 1
    simp only
    omega
  have head : (p.buf.take headerSize).length = headerSize := by
    rw [List.length_take]
    have := h.room
    omega
  subst same
  refine ⟨⟨?_, h.room, ?_, ?_, ?_, ?_⟩, ?_⟩
  · rw [Bytes.length_writeAt inside]; exact hsize
  · rw [total]; simp only; omega
  · simp only; omega
  · simp only [upTo]
    rw [List.drop_left' head, encodeAll_append, encodeAll_cons, encodeAll_nil, List.append_nil]
  · have first : (writeAt p.buf p.wp (SubPacket.encode ⟨userID, data⟩)).take headerSize =
        p.buf.take headerSize := by
      rw [Bytes.writeAt_eq inside, List.append_assoc, List.take_append_of_le_length]
      · rw [List.take_take, min_eq_left (by omega)]
      · rw [List.length_take]; omega
    simp only [first]
    exact h.pad
  · rw [total]
    simp only
    congr 1
    omega

/-! ## Frames -/

theorem vector_four (v : Vector UInt32 4) : v = #v[v[0], v[1], v[2], v[3]] := by
  ext i hi
  match i, hi with
  | 0, _ => rfl
  | 1, _ => rfl
  | 2, _ => rfl
  | 3, _ => rfl

theorem headBytes_eq (p : Packet) : p.headBytes =
    p.hopPos :: (putUint32 p.hopIP[0] ++ (putUint32 p.hopIP[1] ++ (putUint32 p.hopIP[2] ++
      (putUint32 p.hopIP[3] ++ (putUint16 p.payloadLen ++ (putUint16 p.port ++
        [p.protocol])))))) := by
  rw [Packet.headBytes, vector_four p.hopIP]
  simp

@[simp] theorem length_headBytes (p : Packet) : p.headBytes.length = 22 := by
  simp [headBytes_eq]

/-- Reading a header gives the fields it was written from. -/
theorem readHeader_headBytes (q p : Packet) (rest : List UInt8) :
    q.readHeader (p.headBytes ++ rest) =
      { q with
        hopPos := p.hopPos, hopIP := p.hopIP, payloadLen := p.payloadLen, port := p.port
        protocol := p.protocol } := by
  have skip : ∀ {k : Nat} {x l : List UInt8} (b : List UInt8) (n : Nat),
      b.drop k = x ++ l → x.length = n → b.drop (k + n) = l := by
    intro k x l b n hb hx
    rw [← List.drop_drop, hb, List.drop_left' hx]
  set b := p.headBytes ++ rest with hb
  have d₁ : b.drop 1 = putUint32 p.hopIP[0] ++ (putUint32 p.hopIP[1] ++ (putUint32 p.hopIP[2] ++
      (putUint32 p.hopIP[3] ++ (putUint16 p.payloadLen ++ (putUint16 p.port ++
        (p.protocol :: rest)))))) := by
    rw [hb, headBytes_eq]
    simp
  have d₅ := skip b 4 d₁ (Bytes.length_putUint32 _)
  have d₉ := skip b 4 d₅ (Bytes.length_putUint32 _)
  have d₁₃ := skip b 4 d₉ (Bytes.length_putUint32 _)
  have d₁₇ := skip b 4 d₁₃ (Bytes.length_putUint32 _)
  have d₁₉ := skip b 2 d₁₇ (Bytes.length_putUint16 _)
  have d₂₁ := skip b 2 d₁₉ (Bytes.length_putUint16 _)
  have first : b.headD 0 = p.hopPos := by
    rw [hb, headBytes_eq]
    rfl
  simp only [Packet.readHeader, d₁, d₅, d₉, d₁₃, d₁₇, d₁₉, d₂₁, first, Bytes.uint32_putUint32,
    Bytes.uint16_putUint16, List.headD_cons]
  rw [← vector_four p.hopIP]

theorem Holds.buf_serializeHead (h : Holds p subs) :
    p.serializeHead.buf = p.headBytes ++ p.buf.drop 22 := by
  have room : 24 ≤ p.buf.length := h.size ▸ h.room
  have inside : 0 + p.headBytes.length ≤ p.buf.length := by
    rw [length_headBytes]; omega
  rw [Packet.serializeHead, Bytes.writeAt_eq inside, length_headBytes]
  rfl

/-- Writing the header leaves the records. -/
theorem Holds.serializeHead (h : Holds p subs) : Holds p.serializeHead subs := by
  have room : 24 ≤ p.buf.length := h.size ▸ h.room
  have buf := h.buf_serializeHead
  have tail : ∀ k, 22 ≤ k → p.serializeHead.buf.drop k = p.buf.drop k := by
    intro k hk
    obtain ⟨m, rfl⟩ := Nat.exists_eq_add_of_le hk
    rw [buf, ← List.drop_drop, List.drop_left' (length_headBytes p), List.drop_drop]
  refine ⟨?_, h.room, h.wp, h.fits, ?_, ?_⟩
  · rw [buf, List.length_append, length_headBytes, List.length_drop]
    have size : p.buf.length = p.serializeHead.buffSize := h.size
    omega
  · have body := h.body
    rw [List.drop_take] at body ⊢
    rw [tail headerSize (by decide)]
    exact body
  · have pad := h.pad
    rw [List.drop_take] at pad ⊢
    rw [tail 22 (le_refl _)]
    exact pad

/-- A frame carries the records as far as the length field goes. -/
theorem Holds.frame_eq (h : Holds p subs) (le : p.payloadLen.toNat ≤ (encodeAll subs).length) :
    p.serializeHead.frame = p.wire ((encodeAll subs).take p.payloadLen.toNat) := by
  have room : 24 ≤ p.buf.length := h.size ▸ h.room
  have padded : p.buf.drop 22 = [0, 0] ++ p.buf.drop 24 := by
    have cut : (p.buf.drop 22).take 2 = [0, 0] := by
      rw [List.take_drop]
      exact h.pad
    rw [← List.take_append_drop 2 (p.buf.drop 22), cut, List.drop_drop]
  have records : p.buf.drop 24 = encodeAll subs ++ p.buf.drop p.wp := by
    have hwp := h.wp
    have body := h.body
    rw [List.drop_take] at body
    conv_lhs => rw [← List.take_append_drop (p.wp - headerSize) (p.buf.drop 24)]
    rw [← body, List.drop_drop]
    congr 2
    have : headerSize = 24 := rfl
    omega
  have buf : p.serializeHead.buf =
      p.headBytes ++ ([0, 0] ++ (encodeAll subs ++ p.buf.drop p.wp)) := by
    rw [h.buf_serializeHead, padded, records]
  have total : p.serializeHead.totalBytes =
      p.headBytes.length + ([0, 0] : List UInt8).length + p.payloadLen.toNat := by
    rw [length_headBytes]
    rfl
  rw [Packet.frame, buf, total, ← List.append_assoc, ← List.append_assoc, ← List.length_append,
    List.append_assoc (p.headBytes ++ [0, 0]), List.take_length_add_append,
    List.take_append_of_le_length le, Packet.wire]

theorem Holds.frame_cut (h : Holds p subs)
    (length : p.payloadLen = UInt16.ofNat (encodeAll subs).length) :
    p.payloadLen.toNat = (encodeAll subs).length % 65536 ∧
      p.serializeHead.frame = p.wire ((encodeAll subs).take ((encodeAll subs).length % 65536)) := by
  have field : p.payloadLen.toNat = (encodeAll subs).length % 65536 := by
    rw [length, UInt16.toNat_ofNat']
  refine ⟨field, ?_⟩
  rw [h.frame_eq (field ▸ Nat.mod_le _ _), field]

end

section
variable (p : Packet) {body : List UInt8}

@[simp] theorem length_wire : (p.wire body).length = headerSize + body.length := by
  simp only [Packet.wire, List.length_append, length_headBytes]
  rfl

theorem take_wire : (p.wire body).take headerSize = p.headBytes ++ [0, 0] :=
  List.take_left' (by simp [headerSize])

theorem drop_wire : (p.wire body).drop headerSize = body :=
  List.drop_left' (by simp [headerSize])

/-- The packet that `ParseHeader` makes of a frame of `p`. -/
def Packet.header : Packet := { p with buf := p.headBytes ++ [0, 0], buffSize := 0, wp := 0 }

theorem parseHeader_wire : parseHeader (p.wire body) = .ok p.header := by
  have long : ¬ (p.wire body).length < headerSize := by
    rw [length_wire]
    omega
  rw [parseHeader, if_neg long]
  simp only [take_wire, readHeader_headBytes]
  rfl

theorem uint16_wire : uint16 ((p.wire body).drop 17) = p.payloadLen := by
  have read := readHeader_headBytes p p ([0, 0] ++ body)
  rw [← List.append_assoc] at read
  exact congrArg Packet.payloadLen read

/-- The packet that `Parse` makes of a frame of `p`. -/
def Packet.parsed (body : List UInt8) : Packet :=
  { p with buf := p.wire body, buffSize := (p.wire body).length, wp := headerSize }

theorem parse_wire_eq (h : body.length = p.payloadLen.toNat) :
    parse (p.wire body) (p.wire body).length =
      .ok (p.parsed body, subPackets body.length body) := by
  have buf : writeAt (newPacket (p.wire body).length).buf 0 (p.wire body) = p.wire body := by
    have size : (newPacket (p.wire body).length).buf.length = (p.wire body).length :=
      List.length_replicate
    rw [Bytes.writeAt_eq (by rw [size, Nat.zero_add]), Nat.zero_add, List.drop_of_length_le size.le]
    exact List.append_nil _
  have long : ¬ (p.wire body).length < headerSize := by
    rw [length_wire]
    omega
  have whole : headerSize + p.payloadLen.toNat = (p.wire body).length := by
    rw [length_wire, h]
  rw [parse, if_neg long]
  simp only [buf]
  have header := readHeader_headBytes
    { newPacket (p.wire body).length with buf := p.wire body } p ([0, 0] ++ body)
  rw [← List.append_assoc, ← Packet.wire] at header
  simp only [header, whole, lt_irrefl, or_self, if_false, List.take_length, drop_wire]
  rfl

/-- A frame of the announced length parses to the records of its payload. -/
theorem parse_wire (h : body.length = p.payloadLen.toNat) :
    ∃ q, parse (p.wire body) (p.wire body).length = .ok (q, subPackets body.length body) :=
  ⟨_, parse_wire_eq p h⟩

theorem advanceRawHop_wire (low : p.hopPos.toNat < 3) :
    advanceRawHop (p.wire body) = { p with hopPos := p.hopPos + 1 }.wire body := by
  have long : headerSize ≤ (p.wire body).length := by
    rw [length_wire]
    omega
  exact if_pos ⟨long, low⟩

end

end SkyAccel.Tunnel
