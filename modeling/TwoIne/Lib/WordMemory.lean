import Mathlib.Algebra.Group.Nat.Defs
import Mathlib.Data.List.Basic

/-!
Words of four bytes, the lowest byte first, in a memory of bytes that is not mapped everywhere; the
address space wraps around.
-/

namespace WordMemory

/-- The bytes at the addresses that are mapped. -/
abbrev ByteMemory := BitVec 32 → Option UInt8

/-- A byte of a word. -/
def wordByte (word : BitVec 32) (k : Nat) : UInt8 := ⟨word.extractLsb' (8 * k) 8⟩

/-- The word of four bytes. -/
def wordOf (byte : Nat → UInt8) : BitVec 32 :=
  (byte 3).toBitVec ++ (byte 2).toBitVec ++ (byte 1).toBitVec ++ (byte 0).toBitVec

/-- Whether all four bytes of a word are mapped. -/
def wordMapped (memory : ByteMemory) (addr : BitVec 32) : Bool :=
  decide (∀ k < 4, (memory (addr + BitVec.ofNat 32 k)).isSome)

/-- Reading a word. -/
def peekWord (memory : ByteMemory) (addr : BitVec 32) : Option (BitVec 32) :=
  if wordMapped memory addr then
    some (wordOf fun k => (memory (addr + BitVec.ofNat 32 k)).getD 0)
  else none

/-- Writing a word. -/
def pokeWord (memory : ByteMemory) (addr : BitVec 32) (word : BitVec 32) : Option ByteMemory :=
  if wordMapped memory addr then
    some fun place =>
      if (place - addr).toNat < 4 then some (wordByte word (place - addr).toNat) else memory place
  else none

/-- A memory with other bytes from an address on. -/
def written (memory : ByteMemory) (addr : BitVec 32) (bytes : List UInt8) : ByteMemory :=
  fun place => (bytes[(place - addr).toNat]?).or (memory place)

/-- The bytes from an address on are these. -/
def HoldsAt (memory : ByteMemory) (addr : BitVec 32) (bytes : List UInt8) : Prop :=
  ∀ k < bytes.length, memory (addr + BitVec.ofNat 32 k) = bytes[k]?

/-- The address of the word that an address is in. -/
def wordAddr (addr : BitVec 32) : BitVec 32 := addr &&& ~~~3

/-- The words of all bytes of a range are mapped. -/
def RangeMapped (memory : ByteMemory) (addr : BitVec 32) (len : Nat) : Prop :=
  ∀ k < len, wordMapped memory (wordAddr (addr + BitVec.ofNat 32 k)) = true

section Words

variable {memory : ByteMemory} {addr place word : BitVec 32} {bytes front back : List UInt8}
  {k len offset : Nat}

/-- The bytes of the word of four bytes are these. -/
theorem wordByte_wordOf (byte : Nat → UInt8) (inside : k < 4) :
    wordByte (wordOf byte) k = byte k := by
  unfold wordByte wordOf
  -- Bytes below are cut off first, then those above.
  match k, inside with
  | 0, _ => rw [BitVec.extractLsb'_append_eq_of_add_le (by omega), BitVec.extractLsb'_eq_self]
  | 1, _ =>
    rw [BitVec.extractLsb'_append_eq_of_le (by omega),
      BitVec.extractLsb'_append_eq_of_add_le (by omega), BitVec.extractLsb'_eq_self]
  | 2, _ =>
    rw [BitVec.extractLsb'_append_eq_of_le (by omega),
      BitVec.extractLsb'_append_eq_of_le (by omega),
      BitVec.extractLsb'_append_eq_of_add_le (by omega), BitVec.extractLsb'_eq_self]
  | 3, _ =>
    rw [BitVec.extractLsb'_append_eq_of_le (by omega),
      BitVec.extractLsb'_append_eq_of_le (by omega),
      BitVec.extractLsb'_append_eq_of_le (by omega), BitVec.extractLsb'_eq_self]

/-- A word that is read has the bytes that are there. -/
theorem peekWord_byte (peeked : peekWord memory addr = some word) (inside : k < 4) :
    memory (addr + BitVec.ofNat 32 k) = some (wordByte word k) := by
  unfold peekWord at peeked
  split at peeked
  · rename_i mapped
    cases peeked
    -- All four bytes are mapped.
    have here := of_decide_eq_true mapped k inside
    obtain ⟨byte, there⟩ := Option.isSome_iff_exists.mp here
    rw [wordByte_wordOf _ inside, there]
    rfl
  · cases peeked

/-- A word can be read where its bytes are mapped. -/
theorem peekWord_of_mapped (mapped : wordMapped memory addr = true) :
    ∃ word, peekWord memory addr = some word := by
  unfold peekWord
  rw [if_pos mapped]
  exact ⟨_, rfl⟩

/-- Where a word can be read it is mapped. -/
theorem mapped_of_peekWord (peeked : peekWord memory addr = some word) :
    wordMapped memory addr = true := by
  unfold peekWord at peeked
  split at peeked
  · assumption
  · cases peeked

/-- Places are told apart by how far they lie behind an address. -/
theorem place_eq (addr place : BitVec 32) :
    addr + BitVec.ofNat 32 (place - addr).toNat = place := by
  rw [BitVec.ofNat_toNat, BitVec.setWidth_eq, BitVec.add_comm, BitVec.sub_add_cancel]

/-- How far a place lies behind an address that is itself behind another one. -/
theorem place_sub_add (addr place : BitVec 32) (offset : Nat) (small : offset < 2 ^ 32) :
    (place - (addr + BitVec.ofNat 32 offset)).toNat =
      if offset ≤ (place - addr).toNat then (place - addr).toNat - offset
      else (place - addr).toNat + 2 ^ 32 - offset := by
  -- Whether the place lies in front of the second address decides whether it wraps around.
  have value : (BitVec.ofNat 32 offset).toNat = offset := by
    rw [BitVec.toNat_ofNat]
    exact Nat.mod_eq_of_lt small
  have apart : place - (addr + BitVec.ofNat 32 offset) = place - addr - BitVec.ofNat 32 offset := by
    bv_omega
  have bound := (place - addr).isLt
  rw [apart, BitVec.toNat_sub, value]
  split
  · omega
  · omega

/-- Writing a word that differs by some bytes from the one there writes these bytes. -/
theorem pokeWord_eq_written {merged : BitVec 32} (offset : Nat) (bytes : List UInt8)
    (peeked : peekWord memory addr = some word) (fits : offset + bytes.length ≤ 4)
    (bytes_of : ∀ k < 4, wordByte merged k =
      if offset ≤ k then (bytes[k - offset]?).getD (wordByte word k) else wordByte word k) :
    pokeWord memory addr merged =
      some (written memory (addr + BitVec.ofNat 32 offset) bytes) := by
  unfold pokeWord
  rw [if_pos (mapped_of_peekWord peeked)]
  congr 1
  funext place
  have far := place_sub_add addr place offset (by omega)
  have bound := (place - addr).isLt
  unfold written
  by_cases inside : (place - addr).toNat < 4
  · -- The place is in the word, so its byte is known.
    have byte := peekWord_byte peeked inside
    rw [place_eq] at byte
    rw [if_pos inside, bytes_of _ inside, byte, far]
    by_cases behind : offset ≤ (place - addr).toNat
    · rw [if_pos behind, if_pos behind]
      cases bytes[(place - addr).toNat - offset]? with
      | none => rfl
      | some byte => rfl
    · rw [if_neg behind, if_neg behind, List.getElem?_eq_none (by omega)]
      rfl
  · have outside : bytes[(place - (addr + BitVec.ofNat 32 offset)).toNat]? = none := by
      apply List.getElem?_eq_none
      rw [far]
      split
      · omega
      · omega
    rw [if_neg inside, outside]
    rfl

/-- Writing nothing changes nothing. -/
@[simp] theorem written_nil (memory : ByteMemory) (addr : BitVec 32) :
    written memory addr [] = memory := by
  funext place
  rfl

/-- Bytes are written one part after the other. -/
theorem written_append (memory : ByteMemory) (addr : BitVec 32)
    (short : (front ++ back).length ≤ 2 ^ 32) :
    written (written memory addr front) (addr + BitVec.ofNat 32 front.length) back =
      written memory addr (front ++ back) := by
  rw [List.length_append] at short
  cases back with
  | nil => rw [written_nil, List.append_nil]
  | cons byte back =>
    funext place
    rw [List.length_cons] at short
    have far := place_sub_add addr place front.length (by omega)
    have bound := (place - addr).isLt
    unfold written
    rw [far, List.getElem?_append]
    by_cases behind : front.length ≤ (place - addr).toNat
    · rw [if_pos behind, if_neg (Nat.not_lt.mpr behind), List.getElem?_eq_none behind]
      rfl
    · -- The second part does not reach around to the first one.
      rw [if_neg behind, if_pos (Nat.not_le.mp behind), List.getElem?_eq_none]
      · rfl
      · rw [List.length_cons]
        omega

/-- What was written is there. -/
theorem written_holds (memory : ByteMemory) (addr : BitVec 32) (short : bytes.length ≤ 2 ^ 32) :
    HoldsAt (written memory addr bytes) addr bytes := by
  intro k inside
  have back : (addr + BitVec.ofNat 32 k - addr).toNat = k := by
    rw [BitVec.add_comm, BitVec.add_sub_cancel, BitVec.toNat_ofNat]
    omega
  unfold written
  rw [back, List.getElem?_eq_getElem inside]
  rfl

/-- Other places are as they were. -/
theorem written_other (outside : bytes.length ≤ (place - addr).toNat) :
    written memory addr bytes place = memory place := by
  unfold written
  rw [List.getElem?_eq_none outside]
  rfl

/-- The bytes behind a first part are the second part. -/
theorem HoldsAt.behind (front : List UInt8) (holds : HoldsAt memory addr (front ++ back)) :
    HoldsAt memory (addr + BitVec.ofNat 32 front.length) back := by
  intro k inside
  have here := holds (front.length + k) (by rw [List.length_append]; omega)
  rw [BitVec.ofNat_add, ← BitVec.add_assoc] at here
  rw [here, List.getElem?_append_right (by omega), Nat.add_sub_cancel_left]

/-- Writing keeps words mapped. -/
theorem wordMapped_written (mapped : wordMapped memory place = true) :
    wordMapped (written memory addr bytes) place = true := by
  apply decide_eq_true
  intro k inside
  have here := of_decide_eq_true mapped k inside
  unfold written
  rw [Option.isSome_or, here, Bool.or_true]

/-- The word of the first byte of a mapped range can be read. -/
theorem RangeMapped.first (mapped : RangeMapped memory addr len) (some_left : 0 < len) :
    ∃ word, peekWord memory (wordAddr addr) = some word := by
  have here := mapped 0 some_left
  rw [BitVec.add_zero] at here
  exact peekWord_of_mapped here

/-- A range behind a part of a mapped range is mapped. -/
theorem RangeMapped.behind (mapped : RangeMapped memory addr (offset + len)) :
    RangeMapped memory (addr + BitVec.ofNat 32 offset) len := by
  intro k inside
  have here := mapped (offset + k) (by omega)
  rw [BitVec.ofNat_add, ← BitVec.add_assoc] at here
  exact here

/-- Writing keeps ranges mapped. -/
theorem RangeMapped.written (mapped : RangeMapped memory addr len) :
    RangeMapped (written memory place bytes) addr len :=
  fun k inside => wordMapped_written (mapped k inside)

/-- The word of an address is the address without what is behind its start. -/
theorem wordAddr_toNat (addr : BitVec 32) : (wordAddr addr).toNat = addr.toNat / 4 * 4 := by
  -- The two low bits are cleared.
  have shifted : wordAddr addr = addr >>> 2 <<< 2 := by
    have mask : ∀ i < 32, (~~~3 : BitVec 32).getLsbD i = decide (2 ≤ i) := by decide
    apply BitVec.eq_of_getLsbD_eq
    intro i inside
    rw [wordAddr, BitVec.getLsbD_and, mask i inside, BitVec.getLsbD_shiftLeft,
      BitVec.getLsbD_ushiftRight]
    by_cases low : i < 2
    · simp [low, Nat.not_le.mpr low]
    · have high : 2 ≤ i := Nat.not_lt.mp low
      simp [low, high, inside]
  have bound := addr.isLt
  rw [shifted, BitVec.toNat_shiftLeft, BitVec.toNat_ushiftRight, Nat.shiftRight_eq_div_pow,
    Nat.shiftLeft_eq]
  omega

/-- The address of a word is in that word. -/
theorem wordAddr_wordAddr (addr : BitVec 32) : wordAddr (wordAddr addr) = wordAddr addr := by
  apply BitVec.eq_of_toNat_eq
  rw [wordAddr_toNat, wordAddr_toNat]
  omega

end Words

end WordMemory
