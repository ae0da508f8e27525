import TwoIne.Lib.X86
import TwoIne.LxLoader.Ldt

/-!
The code that 16-bit callers reach the functions of a native module through: it is generated at
start-up, one piece for each function.
-/

namespace TwoIne

open X86 WordMemory

/-- The selectors that the loader itself was started with. -/
structure OriginalSelectors where
  cs : BitVec 16
  ds : BitVec 16
  es : BitVec 16
  ss : BitVec 16
  deriving DecidableEq, Repr

/--
The segments of the table of selectors, and those of the kernel, which hold all of the memory and
are of 32 bits. An empty slot, whose selector cannot be loaded, is not told from the latter.
-/
def LdtState.segments (s : LdtState) : Segments where
  base selector :=
    match if selector.getLsbD 2 then s.descriptors (selector >>> 3).toNat else none with
    | some entry => BitVec.ofNat 32 entry.baseAddr
    | none => 0#32
  wide selector :=
    match if selector.getLsbD 2 then s.descriptors (selector >>> 3).toNat else none with
    | some entry => entry.seg32bit
    | none => true

/-- A function of a native module, and how many bytes of arguments it takes from its caller. -/
structure BridgedFunction where
  fn : BitVec 32
  argbytes : BitVec 16
  deriving DecidableEq, Repr

/-- The code for one function, behind that for the functions before it. -/
def init16BitBridge (original : OriginalSelectors) (mmapaddr : BitVec 32) (alias16 : BitVec 16)
    (bridged : BridgedFunction) (code : List UInt8) : List UInt8 :=
  -- The caller's registers are saved, and its stack pointer is kept in `cx`.
  let ptr := code ++ [0x53, 0x51, 0x52, 0x56, 0x57, 0x55, 0x89, 0xE1, 0x66, 0xEA]
  let jmp32addr := mmapaddr + BitVec.ofNat 32 (ptr.length + 6)
  let ptr := ptr ++ wordBytes jmp32addr ++ halfBytes original.cs
  -- From here on the code is of 32 bits, and the stack is found through the tiles.
  let ptr := ptr ++ [0x66, 0x8C, 0xD3, 0xC1, 0xE3, 0x10, 0x66, 0x89, 0xCB, 0x66, 0x8C, 0xD0,
    0x66, 0xC1, 0xE8, 0x03, 0xC1, 0xE0, 0x10, 0x66, 0x89, 0xC8, 0x66, 0xB9] ++
    halfBytes original.ss
  let ptr := ptr ++ [0x8E, 0xD1, 0x89, 0xC4, 0x83, 0xC0, 0x10, 0x53, 0x1E, 0x06]
  let ptr := if original.ss ≠ original.ds then ptr ++ [0x66, 0xB9] ++ halfBytes original.ds else ptr
  let ptr := ptr ++ [0x8E, 0xD9]
  let ptr := if original.ds ≠ original.es then ptr ++ [0x66, 0xB9] ++ halfBytes original.es else ptr
  let ptr := ptr ++ [0x8E, 0xC1, 0x50, 0xB8] ++ wordBytes bridged.fn
  let ptr := ptr ++ [0xFF, 0xD0, 0x83, 0xC4, 0x04, 0x07, 0x1F, 0x66, 0x5B, 0x66, 0x59, 0x66, 0xEA]
  let jmp16offset := BitVec.ofNat 16 (ptr.length + 4)
  let jmp16segment := alias16 <<< 3 ||| 7
  let ptr := ptr ++ halfBytes jmp16offset ++ halfBytes jmp16segment
  -- Back in 16 bits the caller's stack and registers are restored.
  let ptr := ptr ++ [0x8E, 0xD1, 0x89, 0xDC, 0x5D, 0x5F, 0x5E, 0x5A, 0x59, 0x5B, 0xCA]
  ptr ++ halfBytes bridged.argbytes

/-- The code for all functions of a module, and where the code for each of them starts. -/
def init16BitBridges (original : OriginalSelectors) (mmapaddr : BitVec 32) (alias16 : BitVec 16) :
    List BridgedFunction → List UInt8 → List (BitVec 32) × List UInt8
  | [], code => ([], code)
  | bridged :: rest, code =>
    let fn16 := mmapaddr + BitVec.ofNat 32 code.length
    let (entries, code) := init16BitBridges original mmapaddr alias16 rest
      (init16BitBridge original mmapaddr alias16 bridged code)
    (fn16 :: entries, code)

/-- The object with the code, and where the code for each function starts. -/
structure Support16Bit where
  obj16 : LxMmaps
  entries : List (BitVec 32)
  code : List UInt8
  deriving DecidableEq, Repr

/-- Where the code is put, in memory that was mapped: at the next start of a tile. -/
def bridgeAddr (mmapaddr : Nat) : Nat :=
  if mmapaddr % 0x10000 ≠ 0 then mmapaddr + (0x10000 - mmapaddr % 0x10000) else mmapaddr

/--
Setting the 16-bit entry points of a module up, which fails without memory or without a selector; a
failed assertion is a fault.

`mmapaddr` is what memory was granted, and `mprotect` whether its protection could be changed.
-/
def init16BitSupport (original : OriginalSelectors) (loadedModules : List (List LxMmaps))
    (modifyLdt : Nat → Bool) (mmapaddr : Option Nat) (mprotect : Bool)
    (bridged : List BridgedFunction) (s : LdtState) : Option (LdtState × Option Support16Bit) :=
  match mmapaddr with
  | none => some (s, none)
  | some mmapaddr =>
    let addr := bridgeAddr mmapaddr
    match lxFindSelector loadedModules modifyLdt addr (some true) s with
    | none => none
    | some (s, none) => some (s, none)
    | some (s, some (alias16, offset)) =>
      if offset ≠ 0 then none
      else
        let (entries, code) := init16BitBridges original (BitVec.ofNat 32 addr)
          (BitVec.ofNat 16 alias16) bridged []
        if ¬ code.length < 0x10000 then none
        else if mprotect = false then (lxFreeSelector modifyLdt alias16 s).map (·, none)
        else
          let obj16 := { mapped := some mmapaddr, addr, size := 0x10000 * 2, alias16 }
          some (s, some { obj16, entries, code })

end TwoIne
