import SkyAccel.Tunnel.Codec

/-!
# Streams that end early

`receive` fills the payload of a stream that ends early up with zeros. What a node
then hands to the back-sourcer or to the waiting requests is a beginning of the
records sent exactly if the bytes lost were zeros anyway (`handed_filling_iff`).
-/

namespace SkyAccel.Tunnel

open Bytes (putUint16 putUint32 uint16 uint32)

/-! ## Reading a payload of the right length -/

theorem received_cons {s : SubPacket} {subs : List SubPacket} (h : s.data ++ encodeAll subs ≠ []) :
    received (s :: subs) = s :: received subs := by
  cases subs with
  | nil =>
    have full : s.data ≠ [] := by simpa using h
    exact if_neg full
  | cons t subs => rfl

/-- A payload whose first record is not cut short reads as `s` first exactly if the
encoding of `s` stands at its beginning. -/
theorem head_eq_iff {s : SubPacket} (short : s.data.length < 65536) {w : List UInt8}
    (long : 6 + s.data.length ≤ w.length) :
    (⟨uint32 w, (w.drop 6).take (uint16 (w.drop 4)).toNat ++
        List.replicate ((uint16 (w.drop 4)).toNat - (w.drop 6).length) 0⟩ : SubPacket) = s ↔
      s.encode <+: w := by
  constructor
  · rintro rfl
    simp only [List.length_append, List.length_take, List.length_replicate, List.length_drop]
      at long
    have inside : (uint16 (w.drop 4)).toNat - (w.drop 6).length = 0 := by
      rw [List.length_drop]
      omega
    have size : ((w.drop 6).take (uint16 (w.drop 4)).toNat).length = (uint16 (w.drop 4)).toNat := by
      rw [List.length_take, List.length_drop]
      omega
    have first : w = putUint32 (uint32 w) ++ (putUint16 (uint16 (w.drop 4)) ++ w.drop 6) := by
      rw [Bytes.putUint32_uint32 (by omega),
        Bytes.putUint16_uint16 (by rw [List.length_drop]; omega)]
      conv_lhs => rw [← List.take_append_drop 4 w, ← List.take_append_drop 2 (w.drop 4)]
      rw [List.drop_drop]
    simp only [SubPacket.encode, inside, List.replicate_zero, List.append_nil, size,
      UInt16.ofNat_toNat]
    conv_rhs => rw [first]
    rw [List.append_assoc, List.prefix_append_right_inj, List.prefix_append_right_inj]
    exact List.take_prefix _ _
  · rintro ⟨rest, rfl⟩
    have length : (uint16 ((s.encode ++ rest).drop 4)).toNat = s.data.length := by
      rw [SubPacket.encode, List.append_assoc, List.append_assoc,
        List.drop_left' (Bytes.length_putUint32 _), Bytes.uint16_putUint16, UInt16.toNat_ofNat']
      omega
    have user : uint32 (s.encode ++ rest) = s.userID := by
      rw [SubPacket.encode, List.append_assoc, List.append_assoc, Bytes.uint32_putUint32]
    have body : (s.encode ++ rest).drop 6 = s.data ++ rest := by
      rw [SubPacket.encode, List.append_assoc (putUint32 _ ++ _)]
      exact List.drop_left' (by simp)
    have inside : s.data.length - (s.data ++ rest).length = 0 := by
      rw [List.length_append]
      omega
    rw [length, user, body, inside, List.take_left, List.replicate_zero, List.append_nil]

/-- A payload as long as the encoding of `subs` reads as a beginning of `subs` exactly
if the records that parsing recovers from that encoding stand in it. -/
theorem subPackets_isPrefix_iff {subs : List SubPacket} (short : ∀ s ∈ subs, s.data.length < 65536)
    {w : List UInt8} (length : w.length = (encodeAll subs).length) {fuel : Nat}
    (hf : w.length ≤ fuel) :
    subPackets fuel w <+: subs ↔ encodeAll (received subs) <+: w := by
  induction subs generalizing w fuel with
  | nil =>
    obtain rfl : w = [] := List.eq_nil_of_length_eq_zero length
    cases fuel with
    | zero => simp [subPackets, received]
    | succ fuel => simp [subPackets, received]
  | cons s subs ih =>
    rw [encodeAll_cons, List.length_append, SubPacket.length_encode] at length
    obtain ⟨fuel, rfl⟩ : ∃ n, fuel = n + 1 := ⟨fuel - 1, by omega⟩
    have rest : (w.drop 6).length = (s.data ++ encodeAll subs).length := by
      rw [List.length_drop, List.length_append]
      omega
    rw [subPackets, if_neg (by omega), if_neg (by rw [List.length_drop]; omega)]
    by_cases last : w.drop 6 = []
    · -- a single empty record is not read, whatever its bytes are
      rw [last, List.length_nil, List.length_append] at rest
      have empty : s.data = [] := List.eq_nil_of_length_eq_zero (by omega)
      have single : subs = [] := by
        cases subs with
        | nil => rfl
        | cons t subs =>
          rw [encodeAll_cons, List.length_append, SubPacket.length_encode] at rest
          omega
      simp only [last, if_true, single, received, empty, encodeAll_nil, List.nil_prefix]
    · have more : s.data ++ encodeAll subs ≠ [] := by
        intro nil
        rw [nil, List.length_nil] at rest
        exact last (List.eq_nil_of_length_eq_zero rest)
      have fits : 6 + s.data.length ≤ w.length := by omega
      have head := head_eq_iff (short s List.mem_cons_self) fits
      rw [received_cons more, encodeAll_cons]
      simp only [if_neg last, List.cons_prefix_cons, head]
      by_cases starts : s.encode <+: w
      · obtain ⟨tail, rfl⟩ := starts
        have field := congrArg (fun x => x.data.length) (head.mpr (List.prefix_append _ _))
        simp only [List.length_append, List.length_take, List.length_replicate] at field
        have tailIs : (((s.encode ++ tail).drop 6).drop
            (uint16 ((s.encode ++ tail).drop 4)).toNat) = tail := by
          have skip : 6 + (uint16 ((s.encode ++ tail).drop 4)).toNat = s.encode.length := by
            rw [SubPacket.length_encode]
            omega
          rw [List.drop_drop, skip, List.drop_left]
        rw [List.length_append, SubPacket.length_encode] at length
        rw [tailIs, List.prefix_append_right_inj,
          ih (fun t ht => short t (List.mem_cons_of_mem _ ht)) (by omega)
            (by rw [List.length_append, SubPacket.length_encode] at hf; omega)]
        simp only [List.prefix_append, true_and]
      · simp only [starts, false_and, false_iff]
        exact fun both => starts ((List.prefix_append _ _).trans both)

theorem received_isPrefix (subs : List SubPacket) : received subs <+: subs := by
  induction subs with
  | nil => exact List.prefix_refl _
  | cons s subs ih =>
    cases subs with
    | nil =>
      unfold received
      split
      · exact List.nil_prefix
      · exact List.prefix_refl _
    | cons t subs => exact List.cons_prefix_cons.mpr ⟨rfl, ih⟩

/-! ## The framing of a stream that ends early -/

/-- The payload `body` with all but its first `k` bytes replaced by zeros. -/
def padded (body : List UInt8) (k : Nat) : List UInt8 :=
  body.take k ++ List.replicate (body.length - k) 0

theorem length_padded (body : List UInt8) (k : Nat) : (padded body k).length = body.length := by
  simp only [padded, List.length_append, List.length_take, List.length_replicate]
  omega

theorem isPrefix_padded_iff {e body : List UInt8} (h : e <+: body) (k : Nat) :
    e <+: padded body k ↔ ∀ b ∈ e.drop k, b = 0 := by
  obtain ⟨rest, rfl⟩ := h
  unfold padded
  by_cases inside : e.length ≤ k
  · have kept : (e ++ rest).take k = e ++ rest.take (k - e.length) := by
      rw [List.take_append, List.take_of_length_le inside]
    rw [kept, List.drop_of_length_le inside, List.append_assoc]
    simp
  · have kept : (e ++ rest).take k = e.take k := List.take_append_of_le_length (by omega)
    have zeros : e.drop k <+: List.replicate ((e ++ rest).length - k) 0 ↔
        ∀ b ∈ e.drop k, b = 0 := by
      rw [List.prefix_replicate_iff, List.eq_replicate_iff]
      have : (e.drop k).length ≤ (e ++ rest).length - k := by
        rw [List.length_drop, List.length_append]
        omega
      simp only [this, true_and]
    rw [kept, ← zeros]
    conv_lhs => lhs; rw [← List.take_append_drop k e]
    exact List.prefix_append_right_inj _

section
variable (p : Packet) {body : List UInt8}

theorem take_wire_add (k : Nat) : (p.wire body).take (headerSize + k) = p.wire (body.take k) := by
  have head : (p.headBytes ++ [0, 0]).length = headerSize := by simp [headerSize]
  rw [Packet.wire, ← head, List.take_length_add_append, Packet.wire]

/-- A stream cut in the header, or right after it, is an error. One cut in the payload
is a frame with zeros for the bytes that are missing. -/
theorem receive_take (h : body.length = p.payloadLen.toNat) (c : Nat) :
    receive ((p.wire body).take c) =
      if c < headerSize ∨ c = headerSize ∧ body ≠ [] then none
      else some (p.wire (padded body (c - headerSize))) := by
  by_cases early : c < headerSize
  · have short : ((p.wire body).take c).length < headerSize := by
      rw [List.length_take]
      omega
    rw [receive, if_pos short, if_pos (.inl early)]
  · obtain ⟨k, rfl⟩ := Nat.exists_eq_add_of_le (not_lt.mp early)
    have long : ¬ (p.wire (body.take k)).length < headerSize := by
      rw [length_wire]
      omega
    have missing : (body.take k = [] ∧ p.payloadLen.toNat ≠ 0) ↔
        headerSize + k < headerSize ∨ headerSize + k = headerSize ∧ body ≠ [] := by
      rw [← h, List.take_eq_nil_iff, Ne, List.length_eq_zero_iff]
      constructor
      · rintro ⟨zero | nil, ne⟩
        · exact .inr ⟨by omega, ne⟩
        · exact absurd nil ne
      · rintro (less | ⟨zero, ne⟩)
        · omega
        · exact ⟨.inl (by omega), ne⟩
    have zeros : p.payloadLen.toNat - (body.take k).length = body.length - k := by
      rw [← h, List.length_take]
      omega
    have content : (body.take k).take p.payloadLen.toNat = body.take k := by
      apply List.take_of_length_le
      rw [← h, List.length_take]
      omega
    rw [take_wire_add, receive, if_neg long]
    simp only [uint16_wire, drop_wire, take_wire, missing, zeros, content, Nat.add_sub_cancel_left]
    split
    · rfl
    · simp only [padded, Packet.wire, List.append_assoc]

/-! ## What a node hands on -/

/-- The records given to the back-sourcer, or to the requests that wait for them. -/
def Effect.handed : Effect → List SubPacket
  | .submit _ tasks => tasks.map fun task => ⟨task.userID, task.reqData⟩
  | .deliver subs => subs
  | _ => []

/-- What a node hands on when the stream it reads ends after these bytes. -/
def handed (stream : List UInt8) : List SubPacket :=
  match receive stream with
  | none => []
  | some pkt => (handleQUICPacket pkt).handed

/-- The node is the one where the records of the frame leave the tunnel: its last hop
and, for a request, one that knows the origin. -/
def unpacks : Bool :=
  if p.port ≠ 0 then
    isLastHop p 2 2 == some true && p.hopIP[p.hopPos.toNat + 1]?.getD 0 != 0
  else isLastHop p 3 1 == some true

theorem forwardPacket_handed (pkt : List UInt8) (header : Packet) :
    (forwardPacket pkt header).handed = [] := by
  unfold forwardPacket
  split <;> rfl

theorem handleRequest_handed (h : body.length = p.payloadLen.toNat) :
    (handleRequest (p.wire body) p.header).handed =
      if isLastHop p 2 2 = some true ∧ p.hopIP[p.hopPos.toNat + 1]?.getD 0 ≠ 0 then
        subPackets body.length body
      else [] := by
  have same : isLastHop p.header 2 2 = isLastHop p 2 2 := rfl
  unfold handleRequest
  rw [same, parse_wire_eq p h]
  cases last : isLastHop p 2 2 with
  | none => rfl
  | some b =>
    cases b with
    | false => simp only [forwardPacket_handed, Option.some.injEq, Bool.false_eq_true, false_and,
        if_false]
    | true =>
      have slot : p.header.hopIP[p.header.hopPos.toNat + 1]? = p.hopIP[p.hopPos.toNat + 1]? := rfl
      simp only [true_and, slot]
      by_cases none : subPackets body.length body = []
      · simp only [none, if_true, ite_self]
        rfl
      · simp only [if_neg none]
        cases p.hopIP[p.hopPos.toNat + 1]? with
        | none => rfl
        | some originIP =>
          simp only [ipString_eq_zero, Option.getD_some, ne_eq, ite_not]
          split
          · rfl
          · simp only [Effect.handed, List.map_map]
            exact List.map_id _

theorem handleResponse_handed (h : body.length = p.payloadLen.toNat) :
    (handleResponse (p.wire body) p.header).handed =
      if isLastHop p 3 1 = some true then subPackets body.length body else [] := by
  have same : isLastHop p.header 3 1 = isLastHop p 3 1 := rfl
  unfold handleResponse
  rw [same, parse_wire_eq p h]
  cases last : isLastHop p 3 1 with
  | none => rfl
  | some b =>
    cases b with
    | false => simp only [forwardPacket_handed, Option.some.injEq, Bool.false_eq_true, if_false]
    | true =>
      simp only [if_true]
      by_cases none : subPackets body.length body = []
      · simp only [none, if_true]
        rfl
      · simp only [if_neg none]
        rfl

theorem handleQUICPacket_handed (h : body.length = p.payloadLen.toNat) :
    (handleQUICPacket (p.wire body)).handed =
      if unpacks p then subPackets body.length body else [] := by
  rw [handleQUICPacket_wire, unpacks]
  by_cases port : p.port = 0
  · rw [if_neg (not_not.mpr port), if_neg (not_not.mpr port), handleResponse_handed p h]
    simp only [beq_iff_eq]
  · rw [if_pos port, if_pos port, handleRequest_handed p h]
    simp only [Bool.and_eq_true, beq_iff_eq, bne_iff_ne]

end

/-- A node that reads the first `c` bytes of a frame hands on a beginning of its records
exactly if it hands on none, or the bytes lost are zeros. A final record that is
empty is not handed on in any case, and its bytes do not count. -/
theorem handed_filling_iff (buffSizes : Nat) (room : headerSize ≤ buffSizes)
    (small : buffSizes ≤ 65559) (hopPos : UInt8) (hopIP : Vector UInt32 4) (port : UInt16)
    (protocol : UInt8) (uses : List Use) (c : Nat) :
    let f := (Filling.start buffSizes hopPos hopIP port protocol).run uses
    handed (f.pkt.serializeHead.frame.take c) <+: f.last ↔
      unpacks f.pkt = false ∨ c ≤ headerSize ∨
        ∀ b ∈ (encodeAll (received f.last)).drop (c - headerSize), b = 0 := by
  intro f
  have sound : f.Sound :=
    Filling.sound_run (Filling.sound_start room hopPos hopIP port protocol) uses
  have size := (Filling.run_fields (Filling.start buffSizes hopPos hopIP port protocol) uses).2
  have small' : f.pkt.buffSize ≤ 65559 := size.trans_le small
  obtain ⟨length, frame⟩ := sound.frame small'
  have whole := length.symm
  have records : encodeAll (received f.last) <+: encodeAll f.last := by
    obtain ⟨rest, eq⟩ := received_isPrefix f.last
    conv_rhs => rw [← eq]
    rw [encodeAll_append]
    exact List.prefix_append _ _
  rw [frame, handed, receive_take f.pkt whole]
  by_cases early : c < headerSize ∨ c = headerSize ∧ encodeAll f.last ≠ []
  · have start : c ≤ headerSize := by omega
    simp only [if_pos early, List.nil_prefix, start, true_or, or_true]
  · have cut : (padded (encodeAll f.last) (c - headerSize)).length = f.pkt.payloadLen.toNat :=
      (length_padded _ _).trans whole
    simp only [if_neg early, handleQUICPacket_handed f.pkt cut]
    cases unpacks f.pkt with
    | false => simp only [Bool.false_eq_true, if_false, List.nil_prefix, true_or]
    | true =>
      simp only [if_true, Bool.true_eq_false, false_or]
      rw [subPackets_isPrefix_iff (sound.short small') (length_padded _ _) (le_refl _),
        isPrefix_padded_iff records]
      constructor
      · exact .inr
      · rintro (start | zeros)
        · -- a frame without payload, which is complete after its header
          have empty : encodeAll f.last = [] := by
            by_contra more
            exact early ((lt_or_eq_of_le start).imp_right fun eq => ⟨eq, more⟩)
          rw [empty] at records
          rw [List.prefix_nil.mp records]
          intro b hb
          rw [List.drop_nil] at hb
          cases hb
        · exact zeros

/-- A response of one record at its last hop, of which the last byte is lost: the
record handed on ends with a zero that was not sent. -/
theorem handed_padded :
    let f := (Filling.start 64 3 #v[1, 2, 3, 4] 0 6).run [.append 7 [65, 66]]
    f.last = [⟨7, [65, 66]⟩] ∧ handed (f.pkt.serializeHead.frame.take 31) = [⟨7, [65, 0]⟩] := by
  decide +kernel

/-- Two records at the last hop, of which the zeros at the end are lost: they are filled up
again, and both are handed on. -/
theorem handed_lost_zeros :
    let f := (Filling.start 64 3 #v[1, 2, 3, 4] 0 6).run [.append 7 [65, 66], .append 8 [67, 0, 0]]
    unpacks f.pkt = true ∧ handed (f.pkt.serializeHead.frame.take 39) = f.last ∧
      handed (f.pkt.serializeHead.frame.take 39) <+: f.last := by
  refine ⟨by decide +kernel, by decide +kernel, ?_⟩
  exact (handed_filling_iff 64 (by decide) (by decide) 3 #v[1, 2, 3, 4] 0 6
    [.append 7 [65, 66], .append 8 [67, 0, 0]] 39).mpr (.inr (.inr (by decide +kernel)))

end SkyAccel.Tunnel
