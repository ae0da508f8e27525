import Mathlib.Algebra.Group.Int.Defs
import Mathlib.Algebra.Group.Nat.Defs
import Mathlib.Data.List.Basic

/-!
Numbers in little-endian base 128, where every byte but the last has its high bit set.

A number may be written with more bytes than it needs.
-/

namespace Leb128

/-- A number as it is written: its digits, the last of which ends it. -/
structure Leb where
  front : List (Fin 128)
  last : Fin 128
  deriving DecidableEq, Repr

/-- The bytes a number is written as. -/
def Leb.bytes (n : Leb) : List UInt8 :=
  n.front.map (fun digit => (digit.val + 128).toUInt8) ++ [n.last.val.toUInt8]

/-- The number of bytes. -/
def Leb.size (n : Leb) : Nat := n.front.length + 1

/-- The value of digits, the lowest first. -/
def digitsValue : List (Fin 128) → Nat
  | [] => 0
  | digit :: rest => digit.val + 128 * digitsValue rest

/-- The value of a number without a sign. -/
def Leb.value (n : Leb) : Nat := digitsValue (n.front ++ [n.last])

/-- The value of a number whose last digit has the sign in its highest bit. -/
def Leb.signed (n : Leb) : Int :=
  if n.last.val < 64 then n.value else n.value - 128 ^ n.size

/-- A number of one digit. -/
def Leb.single (digit : Nat) : Leb := ⟨[], ⟨digit % 128, Nat.mod_lt _ (Nat.succ_pos 127)⟩⟩

/-- Digits stand for less than the next power. -/
theorem digitsValue_lt (digits : List (Fin 128)) : digitsValue digits < 128 ^ digits.length := by
  -- Each digit multiplies the bound.
  induction digits with
  | nil => exact Nat.one_pos
  | cons digit rest ih =>
    have small := digit.isLt
    simp only [digitsValue, List.length_cons, Nat.pow_succ]
    omega

/-- A number is less than what its digits could hold. -/
theorem Leb.value_lt (n : Leb) : n.value < 128 ^ n.size := by
  simpa [Leb.value, Leb.size] using digitsValue_lt (n.front ++ [n.last])

/-- A number takes one byte for each digit. -/
@[simp] theorem Leb.length_bytes (n : Leb) : n.bytes.length = n.size := by
  simp [Leb.bytes, Leb.size]

/-- A byte that is not the last of a number. -/
theorem front_byte (digit : Fin 128) :
    (digit.val + 128).toUInt8 &&& 0x7f = digit.val.toUInt8 ∧
      (digit.val + 128).toUInt8 &&& 0x80 = 0x80 := by
  -- There are 128 digits.
  revert digit
  decide

/-- The last byte of a number. -/
theorem last_byte (digit : Fin 128) :
    digit.val.toUInt8 &&& 0x7f = digit.val.toUInt8 ∧ digit.val.toUInt8 &&& 0x80 = 0 := by
  revert digit
  decide

/-- A digit is the value of its byte. -/
theorem digit_toNat (digit : Fin 128) : digit.val.toUInt8.toNat = digit.val := by
  have small := digit.isLt
  exact Nat.mod_eq_of_lt (by omega)

/-- The sign of a number is a bit of its last byte. -/
theorem last_sign (digit : Fin 128) : digit.val.toUInt8 &&& 0x40 = 0 ↔ digit.val < 64 := by
  revert digit
  decide

/-- Digits below a position can be put together with those from it on. -/
theorem or_shifted {low : Nat} (shift high : Nat) (below : low < 2 ^ shift) :
    low ||| high * 2 ^ shift = low + high * 2 ^ shift := by
  -- The two parts have no bit in common.
  rw [Nat.or_comm, Nat.mul_comm, ← Nat.two_pow_add_eq_or_of_lt below, Nat.add_comm]

/-- A digit that is shifted into a word of 32 bits keeps the bits that fit. -/
theorem shifted_digit {digit shift : Nat} (fits : shift ≤ 32) :
    (digit <<< shift) % 2 ^ 32 = digit % 2 ^ (32 - shift) * 2 ^ shift := by
  -- The word is the shift and the bits above it.
  have split : (2 : Nat) ^ 32 = 2 ^ (32 - shift) * 2 ^ shift := by
    rw [← Nat.pow_add, Nat.sub_add_cancel fits]
  rw [Nat.shiftLeft_eq, split, Nat.mul_mod_mul_right]

/-- Putting a digit on top of a number below its position adds it, up to the size of a word. -/
theorem accumulate {result shift : Nat} (digit : Nat) (fits : shift ≤ 32)
    (below : result < 2 ^ shift) :
    result ||| ((digit <<< shift) % 2 ^ 32) = (result + digit * 2 ^ shift) % 2 ^ 32 := by
  rw [shifted_digit fits, or_shifted _ _ below, ← shifted_digit fits, Nat.shiftLeft_eq]
  -- The low part leaves room for the bits that fit.
  have split : (2 : Nat) ^ 32 = 2 ^ (32 - shift) * 2 ^ shift := by
    rw [← Nat.pow_add, Nat.sub_add_cancel fits]
  have room : result + digit * 2 ^ shift % 2 ^ 32 < 2 ^ 32 := by
    have high : digit * 2 ^ shift % 2 ^ 32 = digit % 2 ^ (32 - shift) * 2 ^ shift := by
      rw [split, Nat.mul_mod_mul_right]
    have top : digit % 2 ^ (32 - shift) + 1 ≤ 2 ^ (32 - shift) :=
      Nat.mod_lt _ (Nat.two_pow_pos _)
    have scaled := Nat.mul_le_mul_right (2 ^ shift) top
    rw [Nat.add_mul, Nat.one_mul, ← split] at scaled
    omega
  rw [← Nat.mod_eq_of_lt room, Nat.add_mod_mod]

end Leb128
