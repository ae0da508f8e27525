import TwoIne.Lib.WordMemory

/-! Reading and writing the memory of the debuggee, word by word as the system allows it. -/

namespace TwoIne

open WordMemory

/-- Reading bytes one by one, each out of the word that it is in. -/
def ptraceReadMemory (memory : ByteMemory) : BitVec 32 → Nat → Option (List UInt8)
  | _, 0 => some []
  | addr, len + 1 =>
    match peekWord memory (addr &&& ~~~3) with
    | none => none
    | some ret =>
      let byte : UInt8 := ⟨(ret.sshiftRight ((addr &&& 3).toNat * 8) &&& 0xFF).setWidth 8⟩
      (ptraceReadMemory memory (addr + 1) len).map fun bytes => byte :: bytes

/-- Writing bytes one by one, each into the word that it is in; the answer is whether all were. -/
def ptraceWriteMemory (memory : ByteMemory) : BitVec 32 → List UInt8 → ByteMemory × Bool
  | _, [] => (memory, true)
  | addr, byte :: bytes =>
    match peekWord memory (addr &&& ~~~3) with
    | none => (memory, false)
    | some word =>
      let offset := (addr &&& 3).toNat
      let word := (word &&& ~~~((0xFF : BitVec 32) <<< (offset * 8))) |||
        byte.toBitVec.setWidth 32 <<< (offset * 8)
      match pokeWord memory (addr &&& ~~~3) word with
      | none => (memory, false)
      | some memory => ptraceWriteMemory memory (addr + 1) bytes

/-- Copying bytes over some of the bytes of a word. -/
def copyIntoWord (word : BitVec 32) (offset : Nat) (bytes : List UInt8) : BitVec 32 :=
  wordOf fun k => if offset ≤ k then (bytes[k - offset]?).getD (wordByte word k) else wordByte word k

/-- Copying so many bytes out of a word. -/
def copyFromWord (word : BitVec 32) (offset count : Nat) : List UInt8 :=
  (List.range count).map fun k => wordByte word (offset + k)

/-- How many bytes are copied of a word: all that remain, or all behind the offset. -/
def copyLen (remaining : Nat) (offset : Fin 4) : Nat :=
  if remaining < 4 - offset.val then remaining else 4 - offset.val

/-- Reading words, of which the first and the last one are needed in part only. -/
def readWords (memory : ByteMemory) (alignedAddr : BitVec 32) (offset : Fin 4) (remaining : Nat) :
    Option (List UInt8) :=
  if 0 < remaining then
    match peekWord memory alignedAddr with
    | none => none
    | some word =>
      (readWords memory (alignedAddr + 4) 0 (remaining - copyLen remaining offset)).map fun bytes =>
        copyFromWord word offset (copyLen remaining offset) ++ bytes
  else some []
termination_by remaining
decreasing_by
  unfold copyLen
  split <;> omega

/-- Writing words, of which the first and the last one are changed in part only. -/
def writeWords (memory : ByteMemory) (alignedAddr : BitVec 32) (offset : Fin 4)
    (src : List UInt8) : ByteMemory × Bool :=
  if 0 < src.length then
    match peekWord memory alignedAddr with
    | none => (memory, false)
    | some word =>
      let copied := src.take (copyLen src.length offset)
      match pokeWord memory alignedAddr (copyIntoWord word offset copied) with
      | none => (memory, false)
      | some memory =>
        writeWords memory (alignedAddr + 4) 0 (src.drop (copyLen src.length offset))
  else (memory, true)
termination_by src.length
decreasing_by
  rw [List.length_drop]
  unfold copyLen
  split <;> omega

/-- Two bits of an address say where it is in its word. -/
def wordOffset (addr : BitVec 32) : Fin 4 := ⟨(addr &&& 3).toNat, by
  rw [BitVec.toNat_and]
  exact Nat.lt_succ_of_le Nat.and_le_right⟩

/-- Reading the words of a range. -/
def ptraceReadMem (memory : ByteMemory) (addr : BitVec 32) (len : Nat) : Option (List UInt8) :=
  readWords memory (addr &&& ~~~3) (wordOffset addr) len

/-- Writing the words of a range; the answer is whether all were written. -/
def ptraceWriteMem (memory : ByteMemory) (addr : BitVec 32) (src : List UInt8) :
    ByteMemory × Bool :=
  writeWords memory (addr &&& ~~~3) (wordOffset addr) src

end TwoIne
