import SkyAccel.Tunnel.Packet

/-!
# What `Parse` reads of a payload

The records of a payload follow each other, each with its own length field, and the
length fields come from the wire. `Parse` reads the data with a call that may return
fewer bytes than asked for without an error, so a record that announces more than is
left is filled up with zeros. `Overruns` says when a payload has such a record.
-/

namespace SkyAccel.Tunnel

open Bytes

/-- The length field of the record at the start of `r`. -/
def announced (r : List UInt8) : Nat := (uint16 (r.drop 4)).toNat

/-- A record that the loop reaches by the length fields announces more data than is
left, though some is left. -/
inductive Overruns : List UInt8 → Prop
  | here {r : List UInt8} (more : 6 < r.length) (past : r.length < 6 + announced r) : Overruns r
  | later {r : List UInt8} (more : 6 < r.length) (rest : Overruns (r.drop (6 + announced r))) :
    Overruns r

/-- The record that the loop reads at the start of `r`. -/
def readRecord (r : List UInt8) : SubPacket :=
  ⟨uint32 r, (r.drop 6).take (announced r) ++
    List.replicate (announced r - (r.drop 6).length) 0⟩

theorem subPackets_of_short {r : List UInt8} (short : r.length ≤ 6) (fuel : Nat) :
    subPackets fuel r = [] := by
  cases fuel with
  | zero => rfl
  | succ fuel =>
    have empty : r.drop 6 = [] := List.drop_of_length_le short
    simp only [subPackets, empty, if_true, ite_self]

theorem subPackets_of_long {r : List UInt8} (long : 6 < r.length) (fuel : Nat) :
    subPackets (fuel + 1) r = readRecord r :: subPackets fuel (r.drop (6 + announced r)) := by
  have id4 : ¬ r.length < 4 := by omega
  have len2 : ¬ (r.drop 4).length < 2 := by
    rw [List.length_drop]
    omega
  have more : r.drop 6 ≠ [] := List.ne_nil_of_length_pos (by rw [List.length_drop]; omega)
  simp only [subPackets, if_neg id4, if_neg len2, if_neg more, List.drop_drop]
  rfl

@[simp] theorem length_readRecord (r : List UInt8) :
    (readRecord r).data.length = announced r := by
  simp only [readRecord, List.length_append, List.length_take, List.length_replicate]
  omega

/-- A record that is there in full is followed by the rest of the payload. -/
theorem encode_readRecord {r : List UInt8} (long : 6 < r.length)
    (inside : 6 + announced r ≤ r.length) :
    (readRecord r).encode ++ r.drop (6 + announced r) = r := by
  have full : announced r - (r.drop 6).length = 0 := by
    rw [List.length_drop]
    omega
  have field : putUint16 (UInt16.ofNat (announced r)) = (r.drop 4).take 2 := by
    rw [announced, UInt16.ofNat_toNat]
    exact putUint16_uint16 (by rw [List.length_drop]; omega)
  have data : (readRecord r).data = (r.drop 6).take (announced r) := by
    simp only [readRecord, full, List.replicate_zero, List.append_nil]
  have head : (readRecord r).encode =
      r.take 4 ++ (r.drop 4).take 2 ++ (r.drop 6).take (announced r) := by
    rw [SubPacket.encode, length_readRecord, field, data]
    exact congrArg (· ++ _ ++ _) (putUint32_uint32 (by omega))
  calc (readRecord r).encode ++ r.drop (6 + announced r)
    _ = r.take 4 ++ ((r.drop 4).take 2 ++
          ((r.drop 6).take (announced r) ++ (r.drop 6).drop (announced r))) := by
      simp only [head, List.append_assoc, List.drop_drop]
    _ = r.take 4 ++ ((r.drop 4).take 2 ++ (r.drop 4).drop 2) := by
      rw [List.take_append_drop, List.drop_drop]
    _ = r := by
      simp only [List.take_append_drop]

/-- The records read are a part of the payload, from its start, exactly when no record
overruns it. -/
theorem encodeAll_subPackets_isPrefix_iff {fuel : Nat} {r : List UInt8} (enough : r.length ≤ fuel) :
    encodeAll (subPackets fuel r) <+: r ↔ ¬ Overruns r := by
  -- by induction on the fuel, as the loop goes; a record takes at least its six bytes
  induction fuel generalizing r with
  | zero =>
    have short : r.length ≤ 6 := by omega
    simp only [subPackets_of_short short, encodeAll_nil, List.nil_prefix, true_iff]
    rintro (⟨long, -⟩ | ⟨long, -⟩) <;> omega
  | succ fuel ih =>
    by_cases short : r.length ≤ 6
    · simp only [subPackets_of_short short, encodeAll_nil, List.nil_prefix, true_iff]
      rintro (⟨long, -⟩ | ⟨long, -⟩) <;> omega
    · have long : 6 < r.length := by omega
      simp only [subPackets_of_long long, encodeAll_cons]
      by_cases inside : 6 + announced r ≤ r.length
      · have rest : (r.drop (6 + announced r)).length ≤ fuel := by
          rw [List.length_drop]
          omega
        have split := encode_readRecord long inside
        have here : encodeAll (subPackets fuel (r.drop (6 + announced r))) <+:
              r.drop (6 + announced r) ↔
            (readRecord r).encode ++ encodeAll (subPackets fuel (r.drop (6 + announced r))) <+:
              r := by
          conv_rhs => rhs; rw [← split]
          exact (List.prefix_append_right_inj _).symm
        rw [← here, ih rest, not_iff_not]
        constructor
        · exact .later long
        · rintro (⟨-, past⟩ | ⟨-, later⟩)
          · omega
          · exact later
      · -- the record alone is longer than the payload
        refine iff_of_false (fun whole => ?_) (not_not_intro (.here long (by omega)))
        have fits := whole.length_le
        rw [List.length_append, SubPacket.length_encode, length_readRecord] at fits
        omega

/-- The payload region of a frame, as long as its header says. -/
def payloadOf (raw : List UInt8) : List UInt8 :=
  (raw.drop headerSize).take (uint16 (raw.drop 17)).toNat

section
variable {raw : List UInt8} {bufferSize k : Nat}

theorem take_writeAt_newPacket (long : k ≤ raw.length) (room : k ≤ bufferSize) :
    (writeAt (newPacket bufferSize).buf 0 raw).take k = raw.take k := by
  have size : (newPacket bufferSize).buf.length = bufferSize := List.length_replicate
  have inside : k ≤ (raw.take bufferSize).length := by
    rw [List.length_take]
    exact le_min room long
  rw [writeAt, List.take_zero, List.nil_append, size, Nat.sub_zero,
    List.take_append_of_le_length inside, List.take_take, min_eq_left room]

/-- What `Parse` returns, of the bytes received. -/
theorem parse_ok {p : Packet} {subs : List SubPacket} (room : headerSize ≤ bufferSize)
    (h : parse raw bufferSize = .ok (p, subs)) :
    subs = subPackets (payloadOf raw).length (payloadOf raw) := by
  rw [parse] at h
  split at h
  · cases h
  · rename_i long
    rw [not_lt] at long
    -- the length field stands in the header, which the buffer has room for
    have field : uint16 ((writeAt (newPacket bufferSize).buf 0 raw).drop 17) =
        uint16 (raw.drop 17) := by
      have header := take_writeAt_newPacket (k := 19) ((by decide : 19 ≤ headerSize).trans long)
        ((by decide : 19 ≤ headerSize).trans room)
      simp only [uint16, List.take_drop, header]
    simp only [Packet.readHeader, field] at h
    split at h
    · cases h
    · rename_i inside
      rw [not_or, not_lt, not_lt] at inside
      obtain ⟨-, rfl⟩ := Prod.mk.inj (Except.ok.inj h)
      rw [take_writeAt_newPacket inside.1 inside.2, payloadOf, List.take_drop]

/-- `Parse` hands on bytes of the payload only, exactly when no record of it announces
more data than it has left. -/
theorem parse_isPrefix_iff {p : Packet} {subs : List SubPacket} (room : headerSize ≤ bufferSize)
    (h : parse raw bufferSize = .ok (p, subs)) :
    (encodeAll subs <+: payloadOf raw ∧ ∀ s ∈ subs, s.data <:+: payloadOf raw) ↔
      ¬ Overruns (payloadOf raw) := by
  rw [parse_ok room h, ← encodeAll_subPackets_isPrefix_iff (le_refl _)]
  refine and_iff_left_of_imp fun whole s mem => ?_
  have encoded : s.encode <:+: encodeAll (subPackets (payloadOf raw).length (payloadOf raw)) := by
    obtain ⟨before, after, eq⟩ := List.append_of_mem mem
    rw [eq, encodeAll_append, encodeAll_cons, ← List.append_assoc]
    exact List.infix_append _ _ _
  have data : s.data <:+: s.encode := (List.suffix_append _ _).isInfix
  exact data.trans (encoded.trans whole.isInfix)

end

/-- A frame of one record, for user 7, that announces three bytes and has one. -/
def shortRecord : List UInt8 :=
  [0, 10, 0, 0, 1, 10, 0, 0, 2, 0, 0, 0, 0, 0, 0, 0, 0, 0, 7, 31, 144, 6, 0, 0] ++
    [0, 0, 0, 7, 0, 3, 65]

/-- Two zeros that were not received come back as data. -/
theorem parse_shortRecord :
    ∃ p, parse shortRecord 64 = .ok (p, [⟨7, [65, 0, 0]⟩]) ∧
      payloadOf shortRecord = [0, 0, 0, 7, 0, 3, 65] ∧
      ¬ encodeAll [⟨7, [65, 0, 0]⟩] <+: payloadOf shortRecord :=
  ⟨_, rfl, by decide, by decide⟩

/-- The same frame with the third byte of its data. -/
theorem parse_fullRecord :
    ∃ p, parse (shortRecord.set 18 9 ++ [66, 67]) 64 = .ok (p, [⟨7, [65, 66, 67]⟩]) ∧
      ¬ Overruns (payloadOf (shortRecord.set 18 9 ++ [66, 67])) :=
  ⟨_, rfl, (@parse_isPrefix_iff _ 64 _ [⟨7, [65, 66, 67]⟩] (by decide) rfl).mp (by decide)⟩

end SkyAccel.Tunnel
