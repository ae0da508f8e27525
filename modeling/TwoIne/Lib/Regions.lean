import Mathlib.Data.List.Basic

/-! Bytes in a 32-bit address space, read through pointers that wrap around. -/

namespace Regions

/-- The number of addresses. -/
def addresses : Nat := 0x100000000

/-- Consecutive bytes at an address; nothing lies in the last page of the address space. -/
structure Region where
  base : Nat
  bytes : List UInt8
  fits : base + bytes.length + 0x1000 ≤ addresses
  deriving DecidableEq, Repr

/-- The address behind the last byte. -/
def Region.finish (r : Region) : Nat := r.base + r.bytes.length

/-- Moving a pointer forward. -/
def advance (p n : Nat) : Nat := (p + n) % addresses

/-- Moving a pointer twice. -/
theorem advance_advance (p m n : Nat) : advance (advance p m) n = advance p (m + n) := by
  rw [advance, advance, Nat.mod_add_mod, Nat.add_assoc]
  rfl

/-- The bytes of a region from an address on, none if the address lies outside. -/
def Region.from (r : Region) (p : Nat) : List UInt8 :=
  if r.base ≤ p then r.bytes.drop (p - r.base) else []

/-- Where a region holds certain bytes. -/
def Holds (r : Region) (p : Nat) (bytes : List UInt8) : Prop :=
  ∃ front back, r.bytes = front ++ (bytes ++ back) ∧ p = r.base + front.length

variable {r : Region} {p : Nat} {bytes rest : List UInt8}

/-- What a region holds ends within it. -/
theorem Holds.bound (holds : Holds r p bytes) : r.base ≤ p ∧ p + bytes.length ≤ r.finish := by
  -- The bytes stand between what is in front of them and what is behind them.
  obtain ⟨front, back, split, rfl⟩ := holds
  have lengths := congrArg List.length split
  simp only [List.length_append] at lengths
  simp only [Region.finish]
  omega

/-- A pointer does not wrap around within what it points at. -/
theorem Holds.advance (holds : Holds r p bytes) {n : Nat} (within : n ≤ bytes.length) :
    advance p n = p + n := by
  -- The region ends below the last address.
  have bound := holds.bound.2
  have fits := r.fits
  exact Nat.mod_eq_of_lt (by simp only [Region.finish] at bound; omega)

/-- Bytes behind others. -/
theorem Holds.behind (holds : Holds r p (bytes ++ rest)) : Holds r (p + bytes.length) rest := by
  obtain ⟨front, back, split, rfl⟩ := holds
  exact ⟨front ++ bytes, back, by simp [split], by simp [Nat.add_assoc]⟩

/-- Bytes in front of others. -/
theorem Holds.front (holds : Holds r p (bytes ++ rest)) : Holds r p bytes := by
  obtain ⟨front, back, split, place⟩ := holds
  exact ⟨front, rest ++ back, by simp [split], place⟩

/-- Bytes behind the first one. -/
theorem Holds.tail {byte : UInt8} (holds : Holds r p (byte :: rest)) : Holds r (p + 1) rest := by
  have split : Holds r p ([byte] ++ rest) := holds
  exact split.behind

/-- A region from an address on starts with what it holds there. -/
theorem Holds.from (holds : Holds r p bytes) : ∃ back, r.from p = bytes ++ back := by
  obtain ⟨front, back, split, rfl⟩ := holds
  refine ⟨back, ?_⟩
  rw [Region.from, if_pos (Nat.le_add_right _ _), split, Nat.add_sub_cancel_left, List.drop_left]

/-- What lies behind a pointer into a region is what it holds behind it. -/
theorem from_advance {byte : UInt8} (starts : r.from p = byte :: rest) :
    r.from (advance p 1) = rest ∧ advance p 1 = p + 1 ∧ r.base ≤ p ∧ p < r.finish := by
  -- The pointer is inside the region, so it does not wrap around.
  unfold Region.from at starts
  split at starts
  · rename_i inside
    have below : p - r.base < r.bytes.length := by
      by_contra outside
      rw [List.drop_eq_nil_iff.mpr (by omega)] at starts
      cases starts
    have fits := r.fits
    have moved : advance p 1 = p + 1 := Nat.mod_eq_of_lt (by omega)
    refine ⟨?_, moved, inside, by simp only [Region.finish]; omega⟩
    rw [moved, Region.from, if_pos (by omega), Nat.sub_add_comm inside, ← List.drop_drop, starts]
    rfl
  · cases starts

/-- A region holds all its bytes at its base. -/
theorem holds_all (r : Region) : Holds r r.base r.bytes := ⟨[], [], by simp, by simp⟩

end Regions
