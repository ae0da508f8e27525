import Mathlib.Data.List.Basic

/-! Blocks of bytes, which nothing may be read or written outside of. -/

namespace ByteBlocks

/-- Storing bytes in a block of memory; a write outside of the block is a fault. -/
def storeBytes (mem : List UInt8) (addr : Nat) : List UInt8 → Option (List UInt8)
  | [] => some mem
  | byte :: bytes =>
    if addr < mem.length then storeBytes (mem.set addr byte) (addr + 1) bytes else none

/-- Reading so many bytes of a block; a read outside of the block is a fault. -/
def loadBytes (mem : List UInt8) (addr count : Nat) : Option (List UInt8) :=
  if addr + count ≤ mem.length then some ((mem.drop addr).take count) else none

/-- Bytes are stored from a place on, and everything else is as it was. -/
structure StoredAt (mem : List UInt8) (addr : Nat) (bytes after : List UInt8) : Prop where
  length : after.length = mem.length
  stored : ∀ k < bytes.length, after[addr + k]? = bytes[k]?
  others : ∀ k, k < addr ∨ addr + bytes.length ≤ k → after[k]? = mem[k]?

section Blocks

variable {mem after bytes : List UInt8} {addr : Nat}

/-- Bytes that fit in a block are stored in it. -/
theorem storeBytes_inside (inside : addr + bytes.length ≤ mem.length) :
    ∃ after, storeBytes mem addr bytes = some after ∧ StoredAt mem addr bytes after := by
  -- The first byte is stored before the others, which do not reach back to it.
  induction bytes generalizing mem addr with
  | nil =>
    exact ⟨mem, rfl, rfl, fun k none_there => absurd none_there (Nat.not_lt_zero k),
      fun _ _ => rfl⟩
  | cons byte bytes ih =>
    rw [List.length_cons] at inside
    have room : addr + 1 + bytes.length ≤ (mem.set addr byte).length := by
      rw [List.length_set]
      omega
    obtain ⟨after, done, rest⟩ := ih room
    refine ⟨after, ?_, ?_, ?_, ?_⟩
    · rw [storeBytes, if_pos (by omega), done]
    · rw [rest.length, List.length_set]
    · intro k below
      rw [List.length_cons] at below
      cases k with
      | zero =>
        rw [Nat.add_zero, rest.others addr (.inl (Nat.lt_succ_self _)),
          List.getElem?_set_self (by omega)]
        rfl
      | succ k =>
        have place : addr + (k + 1) = addr + 1 + k := by omega
        rw [place, rest.stored k (by omega)]
        rfl
    · intro k other
      rw [List.length_cons] at other
      rw [rest.others k (by omega), List.getElem?_set_ne (by omega)]

/-- Bytes that were stored are read back. -/
theorem StoredAt.load (stored : StoredAt mem addr bytes after)
    (inside : addr + bytes.length ≤ mem.length) {count : Nat} (short : count ≤ bytes.length) :
    loadBytes after addr count = some (bytes.take count) := by
  have length := stored.length
  unfold loadBytes
  rw [if_pos (by omega)]
  congr 1
  apply List.ext_getElem?
  intro k
  by_cases below : k < count
  · rw [List.getElem?_take_of_lt below, List.getElem?_take_of_lt below, List.getElem?_drop,
      stored.stored k (by omega)]
  · -- Both end there.
    rw [List.getElem?_eq_none, List.getElem?_eq_none]
    · rw [List.length_take]
      omega
    · rw [List.length_take, List.length_drop]
      omega

end Blocks

end ByteBlocks
