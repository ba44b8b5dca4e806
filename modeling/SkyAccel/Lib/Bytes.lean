import Mathlib

/-!
# Byte buffers

Fixed-width big-endian numbers, as `encoding/binary` writes and reads them, and
writing into a buffer at an offset.
-/

namespace SkyAccel.Bytes

/-- The `width` low bytes of a number, the most significant first. -/
def bigEndian : Nat → Nat → List UInt8
  | 0, _ => []
  | width + 1, n => bigEndian width (n / 256) ++ [UInt8.ofNat n]

def value (bs : List UInt8) : Nat := bs.foldl (fun n b => n * 256 + b.toNat) 0

@[simp] theorem length_bigEndian (width n : Nat) : (bigEndian width n).length = width := by
  induction width generalizing n with
  | zero => rfl
  | succ width ih => simp [bigEndian, ih]

theorem value_append (bs : List UInt8) (b : UInt8) :
    value (bs ++ [b]) = value bs * 256 + b.toNat := by
  simp [value]

theorem value_bigEndian (width n : Nat) : value (bigEndian width n) = n % 256 ^ width := by
  induction width generalizing n with
  | zero => simp [bigEndian, value, Nat.mod_one]
  | succ width ih =>
    rw [bigEndian, value_append, ih, Nat.pow_succ', Nat.mod_mul, UInt8.toNat_ofNat']
    omega

theorem value_lt (bs : List UInt8) : value bs < 256 ^ bs.length := by
  induction bs using List.reverseRecOn with
  | nil => simp [value]
  | append_singleton bs b ih =>
    have := b.toNat_lt
    rw [value_append, List.length_append, List.length_singleton, Nat.pow_succ]
    omega

theorem bigEndian_value (bs : List UInt8) : bigEndian bs.length (value bs) = bs := by
  induction bs using List.reverseRecOn with
  | nil => rfl
  | append_singleton bs b ih =>
    have := b.toNat_lt
    have high : (value bs * 256 + b.toNat) / 256 = value bs := by omega
    have low : UInt8.ofNat (value bs * 256 + b.toNat) = b := by
      apply UInt8.toNat_inj.mp
      rw [UInt8.toNat_ofNat']
      omega
    rw [value_append, List.length_append, List.length_singleton, bigEndian, high, low, ih]

/-- `binary.BigEndian.PutUint16` and `PutUint32`, as bytes to be written. -/
def putUint16 (x : UInt16) : List UInt8 := bigEndian 2 x.toNat

def putUint32 (x : UInt32) : List UInt8 := bigEndian 4 x.toNat

/-- `binary.BigEndian.Uint16` and `Uint32`, of the first bytes of a slice. -/
def uint16 (bs : List UInt8) : UInt16 := UInt16.ofNat (value (bs.take 2))

def uint32 (bs : List UInt8) : UInt32 := UInt32.ofNat (value (bs.take 4))

@[simp] theorem length_putUint16 (x : UInt16) : (putUint16 x).length = 2 := length_bigEndian 2 _

@[simp] theorem length_putUint32 (x : UInt32) : (putUint32 x).length = 4 := length_bigEndian 4 _

@[simp] theorem uint16_putUint16 (x : UInt16) (rest : List UInt8) :
    uint16 (putUint16 x ++ rest) = x := by
  rw [uint16, List.take_left' (length_putUint16 x), putUint16, value_bigEndian]
  have := x.toNat_lt
  rw [Nat.mod_eq_of_lt (by omega), UInt16.ofNat_toNat]

@[simp] theorem uint32_putUint32 (x : UInt32) (rest : List UInt8) :
    uint32 (putUint32 x ++ rest) = x := by
  rw [uint32, List.take_left' (length_putUint32 x), putUint32, value_bigEndian]
  have := x.toNat_lt
  rw [Nat.mod_eq_of_lt (by omega), UInt32.ofNat_toNat]

theorem putUint16_uint16 {bs : List UInt8} (h : 2 ≤ bs.length) :
    putUint16 (uint16 bs) = bs.take 2 := by
  have length : (bs.take 2).length = 2 := List.length_take_of_le h
  have bound := value_lt (bs.take 2)
  have whole := bigEndian_value (bs.take 2)
  rw [length] at bound whole
  rw [putUint16, uint16, UInt16.toNat_ofNat_of_lt' bound, whole]

theorem putUint32_uint32 {bs : List UInt8} (h : 4 ≤ bs.length) :
    putUint32 (uint32 bs) = bs.take 4 := by
  have length : (bs.take 4).length = 4 := List.length_take_of_le h
  have bound := value_lt (bs.take 4)
  have whole := bigEndian_value (bs.take 4)
  rw [length] at bound whole
  rw [putUint32, uint32, UInt32.toNat_ofNat_of_lt' bound, whole]

/-- `copy(buf[i:], bs)`. -/
def writeAt (buf : List UInt8) (i : Nat) (bs : List UInt8) : List UInt8 :=
  buf.take i ++ bs.take (buf.length - i) ++ buf.drop (i + bs.length)

section
variable {buf bs : List UInt8} {i : Nat}

theorem writeAt_eq (h : i + bs.length ≤ buf.length) :
    writeAt buf i bs = buf.take i ++ bs ++ buf.drop (i + bs.length) := by
  have whole : bs.take (buf.length - i) = bs := List.take_of_length_le (by omega)
  rw [writeAt, whole]

theorem length_writeAt (h : i + bs.length ≤ buf.length) :
    (writeAt buf i bs).length = buf.length := by
  rw [writeAt_eq h]
  simp only [List.length_append, List.length_take, List.length_drop]
  omega

/-- What stands up to the end of the bytes written. -/
theorem take_writeAt (h : i + bs.length ≤ buf.length) :
    (writeAt buf i bs).take (i + bs.length) = buf.take i ++ bs := by
  rw [writeAt_eq h]
  exact List.take_left' (by simp only [List.length_append, List.length_take]; omega)

theorem drop_writeAt (h : i + bs.length ≤ buf.length) :
    (writeAt buf i bs).drop (i + bs.length) = buf.drop (i + bs.length) := by
  rw [writeAt_eq h]
  exact List.drop_left' (by simp only [List.length_append, List.length_take]; omega)

end

end SkyAccel.Bytes
