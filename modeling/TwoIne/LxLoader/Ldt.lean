import Mathlib.Algebra.Group.Nat.Defs
import Mathlib.Logic.Function.Basic
import TwoIne.Lib.Runs

/-! The table of 16-bit selectors, and the conversion between linear and 16:16 addresses. -/

namespace TwoIne

/-- How many slots the table has. -/
def lxMaxLdtSlots : Nat := 8192

/-- What a descriptor is used for. -/
inductive LdtContents where
  | data
  | code
  deriving DecidableEq, Repr

/-- A descriptor as the kernel is asked to install it. -/
structure UserDesc where
  baseAddr : Nat
  limit : Nat
  seg32bit : Bool
  contents : LdtContents
  readExecOnly : Bool := false
  limitInPages : Bool := true
  segNotPresent : Bool := false
  useable : Bool := true
  deriving DecidableEq, Repr

/--
A mapped object of a module: where its memory is, how long it is, its protection, and its selector.
-/
structure LxMmaps where
  mapped : Option Nat := none
  addr : Nat := 0
  size : Nat := 0
  prot : Nat := 0
  alias16 : Nat := 0xFFFF
  deriving DecidableEq, Repr

/-- The protection bit of executable memory. -/
def protExec : Nat := 4

/--
The bases the loader recorded, the descriptors the kernel holds, and where the next segment is
mapped.
-/
structure LdtState where
  ldt : Nat → Nat := fun _ => 0
  descriptors : Nat → Option UserDesc := fun _ => none
  baseaddr : Nat := 136 * 1024 * 1024

/-- Entering a descriptor into a slot. -/
def LdtState.install (s : LdtState) (selector addr : Nat) (entry : UserDesc) : LdtState :=
  { s with
    ldt := Function.update s.ldt selector addr
    descriptors := Function.update s.descriptors selector (some entry) }

/-- Clearing a slot. -/
def LdtState.clear (s : LdtState) (selector : Nat) : LdtState :=
  { s with
    ldt := Function.update s.ldt selector 0
    descriptors := Function.update s.descriptors selector none }

/-- The segment register value of a slot. -/
def lxSelectorToSegment (selector : Nat) : Nat := (selector <<< 3 ||| 7) % 2 ^ 16

/--
Allocating one given slot; the answer is whether it worked, and a failed assertion is a fault.

`modifyLdt` says for each slot whether the kernel accepts the new entry.
-/
def allocateSelector (modifyLdt : Nat → Bool) (selector pages addr : Nat) (contents : LdtContents)
    (is32bit : Bool) (s : LdtState) : Option (LdtState × Bool) :=
  if ¬ selector < lxMaxLdtSlots then none
  else if s.ldt selector ≠ 0 then some (s, false)
  else if modifyLdt selector = false then some (s, false)
  else
    let entry := { baseAddr := addr, limit := pages, seg32bit := is32bit, contents := contents }
    some (s.install selector addr entry, true)

/-- Whether the 64K tile at a base holds an address, in 32-bit arithmetic. -/
def tileHolds (tile addr : Nat) : Bool := tile ≤ addr && addr < (tile + 0x10000) % 2 ^ 32

/-- What a scan of the table finds: the slot of the address, or the last free slot it passed. -/
inductive ScanResult where
  | found (slot : Nat)
  | missing (available : Option Nat)
  deriving DecidableEq, Repr

/-- The scan over the remaining slots, from slot `i` on. -/
def scanSlots (ldt : Nat → Nat) (addr : Nat) : Nat → Nat → Option Nat → ScanResult
  | 0, _, available => .missing available
  | left + 1, i, available =>
    if ldt i = 0 then scanSlots ldt addr left (i + 1) (some i)
    else if tileHolds (ldt i) addr then .found i
    else scanSlots ldt addr left (i + 1) available

/--
Whether the first mapping that reaches an address is executable; the end of a mapping counts as
inside.
-/
def mappedCode (loadedModules : List (List LxMmaps)) (addr : Nat) : Option Bool :=
  (loadedModules.flatten.find? fun mmaps =>
    mmaps.addr ≤ addr && addr ≤ (mmaps.addr + mmaps.size) % 2 ^ 32).map
    fun mmaps => mmaps.prot &&& protExec ≠ 0

/--
The contents a new descriptor is given, when the caller does not say what the address is used for.
-/
def selectorContents (loadedModules : List (List LxMmaps)) (addr : Nat) (iscode : Option Bool) :
    LdtContents :=
  if (iscode <|> mappedCode loadedModules addr).getD false then .code else .data

/-- The tile of an address below 512 megabytes. -/
def tiledIndex (addr : Nat) : Option Nat :=
  if addr < 1024 * 1024 * 512 then some (addr >>> 16) else none

/-- The slot of the tile, when it already holds the address. -/
def tiledSlot (ldt : Nat → Nat) (addr : Nat) : Option Nat :=
  (tiledIndex addr).filter fun idx => ldt idx ≠ 0 && tileHolds (ldt idx) addr

/-- The slot of the tile, when nothing is in it. -/
def preferredSlot (ldt : Nat → Nat) (addr : Nat) : Option Nat :=
  (tiledIndex addr).filter fun idx => ldt idx = 0

/-- The slot and the offset of an address whose slot is known. -/
def slotOffset (ldt : Nat → Nat) (slot addr : Nat) : Nat × Nat := (slot, (addr - ldt slot) % 2 ^ 16)

/-- Finding the selector and offset of an address, with a new slot for it when none holds it yet. -/
def lxFindSelector (loadedModules : List (List LxMmaps)) (modifyLdt : Nat → Bool) (addr : Nat)
    (iscode : Option Bool) (s : LdtState) : Option (LdtState × Option (Nat × Nat)) :=
  if addr < 4096 then some (s, none)
  else
    match tiledSlot s.ldt addr with
    | some idx => some (s, some (slotOffset s.ldt idx addr))
    | none =>
      let preferred := preferredSlot s.ldt addr
      match scanSlots s.ldt addr lxMaxLdtSlots 0 preferred with
      | .found i => some (s, some (slotOffset s.ldt i addr))
      | .missing none => some (s, none)
      | .missing (some available) =>
        let contents := selectorContents loadedModules addr iscode
        let diff := addr % 0x10000
        let selector := preferred.getD available
        match allocateSelector modifyLdt selector 16 (addr - diff) contents false s with
        | none => none
        | some (s, false) => some (s, none)
        | some (s, true) => some (s, some (selector, diff))

/-- Freeing a slot. -/
def lxFreeSelector (modifyLdt : Nat → Bool) (selector : Nat) (s : LdtState) : Option LdtState :=
  if ¬ selector < lxMaxLdtSlots then none
  else if s.ldt selector = 0 then some s
  else if modifyLdt selector = false then some s
  else some (s.clear selector)

/-- The linear address of a 16:16 address; converting through a free slot trips an assertion. -/
def lxConvert1616to32 (s : LdtState) (addr1616 : Nat) : Option Nat :=
  if addr1616 = 0 then some 0
  else
    let selector := (addr1616 >>> 19) % 2 ^ 16
    let offset := addr1616 % 0x10000
    if s.ldt selector = 0 then none else some ((s.ldt selector + offset) % 2 ^ 32)

/-- The 16:16 address of a linear address, or zero when it has none. -/
def lxConvert32to1616 (loadedModules : List (List LxMmaps)) (modifyLdt : Nat → Bool) (addr32 : Nat)
    (s : LdtState) : Option (LdtState × Nat) :=
  if addr32 = 0 then some (s, 0)
  else
    match lxFindSelector loadedModules modifyLdt addr32 none s with
    | none => none
    | some (s, none) => some (s, 0)
    | some (s, some (selector, offset)) => some (s, lxSelectorToSegment selector <<< 16 ||| offset)

/-- Allocating or freeing the slots of consecutive tiles of a stack. -/
def tileStack (modifyLdt : Nat → Bool) (deinit : Bool) : Nat → Nat → LdtState → Option LdtState
  | 0, _, s => some s
  | tiles + 1, addr, s =>
    let slot := (addr >>> 16) % 2 ^ 16
    let tiled :=
      if deinit then lxFreeSelector modifyLdt slot s
      else (allocateSelector modifyLdt slot 16 addr .data false s).map Prod.fst
    match tiled with
    | none => none
    | some s => tileStack modifyLdt deinit tiles ((addr + 0x10000) % 2 ^ 32) s

/-- How many tiles a stack covers, once both of its ends are padded to tiles. -/
def stackTileCount (addr stacklen : Nat) : Nat :=
  let stacklen := (stacklen + addr % 0x10000) % 2 ^ 32
  let padded :=
    if stacklen % 0x10000 ≠ 0 then (stacklen + (0x10000 - stacklen % 0x10000)) % 2 ^ 32
      else stacklen
  padded / 0x10000

/-- Tiling a stack, or taking its tiles down again. -/
def initOs2StackSegments (modifyLdt : Nat → Bool) (addr stacklen : Nat) (deinit : Bool)
    (s : LdtState) : Option LdtState :=
  tileStack modifyLdt deinit (stackTileCount addr stacklen) (addr - addr % 0x10000) s

/--
Mapping a new 64K segment and finding its selector; `mapped` says whether the memory was granted.
-/
def lxAllocSegment (loadedModules : List (List LxMmaps)) (modifyLdt : Nat → Bool) (mapped : Bool)
    (iscode : Bool) (s : LdtState) : Option (LdtState × Option (Nat × Nat)) :=
  if mapped = false then some (s, none)
  else
    let segment := s.baseaddr
    let s := { s with baseaddr := s.baseaddr + 0x10000 }
    match lxFindSelector loadedModules modifyLdt segment (some iscode) s with
    | none => none
    | some (_, none) => none
    | some (s, some (selector, offset)) =>
      if selector = 0xFFFF ∨ offset ≠ 0 then none else some (s, some (segment, selector))

/-- Unmapping a segment and freeing its selector; the answer is the address that was unmapped. -/
def lxFreeSegment (modifyLdt : Nat → Bool) (selector : Nat) (s : LdtState) :
    Option (LdtState × Option Nat) :=
  if ¬ selector < lxMaxLdtSlots then none
  else if s.ldt selector = 0 then some (s, none)
  else (lxFreeSelector modifyLdt selector s).map fun t => (t, some (s.ldt selector))

end TwoIne
