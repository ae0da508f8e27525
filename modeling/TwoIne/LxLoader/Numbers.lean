import TwoIne.LxLoader.EntryTable

/-! Numbers of 32 bits, and numbers as bytes, with the lowest byte first. -/

namespace TwoIne

/-- A difference of integers of 32 bits. -/
def uint32Sub (a b : Nat) : Nat := (a + 0x100000000 - b) % 0x100000000

/-- So many bytes of a number, with its lowest byte first. -/
def littleBytes : Nat → Nat → List UInt8
  | 0, _ => []
  | width + 1, n => UInt8.ofNat n :: littleBytes width (n / 256)

/-- A number is its lowest byte and what its other bytes say. -/
@[simp] theorem littleEndian_cons (byte : UInt8) (bytes : List UInt8) :
    littleEndian (byte :: bytes) = byte.toNat + 256 * littleEndian bytes := by
  rw [littleEndian, List.map_cons, Nat.ofDigits_cons]
  rfl

/-- No bytes are the number zero. -/
@[simp] theorem littleEndian_nil : littleEndian [] = 0 := rfl

/-- So many bytes are written. -/
@[simp] theorem littleBytes_length (width n : Nat) : (littleBytes width n).length = width := by
  induction width generalizing n with
  | zero => rfl
  | succ width ih => rw [littleBytes, List.length_cons, ih]

/-- Two bytes hold a number of 16 bits. -/
theorem word_lt (low high : UInt8) : littleEndian [low, high] < 0x10000 := by
  have low_lt : low.toNat < 256 := UInt8.toNat_lt _
  have high_lt : high.toNat < 256 := UInt8.toNat_lt _
  simp only [littleEndian_cons, littleEndian_nil]
  omega

/-- A number is read back as it was written, apart from what is too large. -/
theorem littleEndian_littleBytes (width n : Nat) :
    littleEndian (littleBytes width n) = n % 256 ^ width := by
  induction width generalizing n with
  | zero => rw [littleBytes, littleEndian_nil, Nat.pow_zero, Nat.mod_one]
  | succ width ih =>
    have lowest : (UInt8.ofNat n).toNat = n % 256 := by simp
    rw [littleBytes, littleEndian_cons, ih, lowest, Nat.pow_succ, Nat.mul_comm (256 ^ width) 256,
      Nat.mod_mul]

/-- Bytes are written again as they were read. -/
theorem littleBytes_littleEndian (bytes : List UInt8) :
    littleBytes bytes.length (littleEndian bytes) = bytes := by
  induction bytes with
  | nil => rfl
  | cons byte bytes ih =>
    have small : byte.toNat < 256 := UInt8.toNat_lt _
    have behind : (byte.toNat + 256 * littleEndian bytes) / 256 = littleEndian bytes := by omega
    have lowest : UInt8.ofNat (byte.toNat + 256 * littleEndian bytes) = byte := by
      apply UInt8.toNat_inj.mp
      rw [UInt8.toNat_ofNat']
      omega
    rw [List.length_cons, littleBytes, littleEndian_cons, behind, lowest, ih]

end TwoIne
