import TwoIne.LxLoader.Numbers
import TwoIne.Lib.ByteBlocks

/-! References to the flat code segment of OS/2 in 16-bit code, which are changed to the host's. -/

namespace TwoIne

open ByteBlocks

/--
Looking for far jumps to the code segment 0x5B, with the code segment of the host written over it;
`addr` is where the scan is in the block, and `size` how many bytes it takes to be left. A read
outside of the block is a fault.
-/
def fixupLinearCodeSegmentReferences (originalCs : Nat) (mem : List UInt8) (addr size : Nat) :
    Option (List UInt8) :=
  if 7 ≤ size then
    match mem[addr]? with
    | none => none
    | some op =>
      if op = 0xEA then
        match mem[addr + 1 + 4]? with
        | none => none
        | some low =>
          if low = 0x5B then
            match mem[addr + 1 + 5]? with
            | none => none
            | some high =>
              if high = 0x00 then
                match storeBytes mem (addr + 1 + 4) (littleBytes 2 originalCs) with
                | none => none
                | some mem =>
                  -- The scan goes on behind the jump.
                  fixupLinearCodeSegmentReferences originalCs mem (addr + 1 + 6) (size - 1 - 6)
              else fixupLinearCodeSegmentReferences originalCs mem (addr + 1) (size - 1)
          else fixupLinearCodeSegmentReferences originalCs mem (addr + 1) (size - 1)
      else fixupLinearCodeSegmentReferences originalCs mem (addr + 1) (size - 1)
  else some mem
termination_by size

end TwoIne
