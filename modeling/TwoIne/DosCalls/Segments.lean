import TwoIne.LxLoader.Ldt
import TwoIne.Os2Errors

/-! The calls that allocate and free 16-bit segments, single ones and huge blocks of them. -/

namespace TwoIne

/-- What the kernel answers during a call: which memory it maps, and which slots it changes. -/
structure SegKernel where
  grants : Nat → Bool := fun addr => addr + 0x10000 ≤ 2 ^ 32
  modifyLdt : Nat → Bool := fun _ => true

/--
The selector table, the memory the segments are mapped at, and the number of segments of the huge
block that starts at a slot.
-/
structure SegState where
  table : LdtState := {}
  memory : Nat → Bool := fun _ => false
  hugeBlockSegs : Nat → Nat := fun _ => 0

/-- Whether an address lies in a run of 64K tiles. -/
def inTiles (base count addr : Nat) : Bool := base ≤ addr && addr < base + count * 0x10000

/-- Mapping a segment; the answer is its slot. -/
def allocSegment (os : SegKernel) (s : SegState) : Option (SegState × Option Nat) :=
  -- The use of the memory is given, so the modules are not looked at.
  match lxAllocSegment [] os.modifyLdt (os.grants s.table.baseaddr) false s.table with
  | none => none
  | some (table, none) => some ({ s with table }, none)
  | some (table, some (segment, selector)) =>
    let memory := fun addr => s.memory addr || inTiles segment 1 addr
    some ({ s with table, memory }, some selector)

/-- Unmapping the segment of a slot. -/
def freeSegment (os : SegKernel) (selector : Nat) (s : SegState) : Option SegState :=
  match lxFreeSegment os.modifyLdt selector s.table with
  | none => none
  | some (table, none) => some { s with table }
  | some (table, some segment) =>
    let memory := fun addr => s.memory addr && !inTiles segment 1 addr
    some { s with table, memory }

/-- Unmapping the segments of consecutive slots. -/
def freeSegments (os : SegKernel) : Nat → Nat → SegState → Option SegState
  | 0, _, s => some s
  | left + 1, selector, s =>
    match freeSegment os (selector % 2 ^ 16) s with
    | none => none
    | some s => freeSegments os left (selector + 1) s

/-- Allocating one segment; the size does not matter, because a segment is always a whole tile. -/
def dos16AllocSeg (os : SegKernel) (_size : Nat) (wanted : Bool) (flags : Nat) (s : SegState) :
    Option (SegState × ApiRet × Option Nat) :=
  if wanted = false then some (s, .errorInvalidParameter, none)
  else if flags &&& 0xFFF0 ≠ 0 then some (s, .errorInvalidParameter, none)
  else
    match allocSegment os s with
    | none => none
    | some (s, none) => some (s, .errorNotEnoughMemory, none)
    | some (s, some sel) =>
      if sel = 0xFFFF then none else some (s, .noError, some (lxSelectorToSegment sel))

/--
The loop that allocates the segments of a huge block, from segment `i` on; `first` is the slot of
the first one, once there is one.

The answer is the first slot, or nothing after the segments so far were given back.
-/
def allocChain (os : SegKernel) : Nat → Nat → Nat → SegState → Option (SegState × Option Nat)
  | 0, _, first, s => some (s, some first)
  | left + 1, i, first, s =>
    match allocSegment os s with
    | none => none
    | some (s, none) =>
      if first ≠ 0xFFFF then (freeSegments os i first s).map fun s => (s, none)
      else some (s, none)
    | some (s, some sel) =>
      if i = 0 then allocChain os left (i + 1) sel s
      else if sel ≠ (first + i) % 2 ^ 16 then
        -- A gap in the slots would break the pointer arithmetic of the program.
        match freeSegment os sel s with
        | none => none
        | some s => (freeSegments os i first s).map fun s => (s, none)
      else allocChain os left (i + 1) first s

/-- How many segments a huge block needs. -/
def hugeSegCount (numSeg size : Nat) : Nat := numSeg + if size ≠ 0 then 1 else 0

/-- Allocating a huge block: full segments, and one more for the bytes that are left over. -/
def dos16AllocHuge (os : SegKernel) (numSeg size : Nat) (wanted : Bool) (_maxNumSeg flags : Nat)
    (s : SegState) : Option (SegState × ApiRet × Option Nat) :=
  if wanted = false then some (s, .errorInvalidParameter, none)
  else if flags &&& 0xFFF0 ≠ 0 then some (s, .errorInvalidParameter, none)
  else
    let segs := hugeSegCount numSeg size
    if segs = 0 then some (s, .errorInvalidParameter, none)
    else
      match allocChain os segs 0 0xFFFF s with
      | none => none
      | some (s, none) => some (s, .errorNotEnoughMemory, none)
      | some (s, some first) =>
        if ¬ first < lxMaxLdtSlots then none
        else
          let hugeBlockSegs := Function.update s.hugeBlockSegs first (segs % 2 ^ 16)
          some ({ s with hugeBlockSegs }, .noError, some (lxSelectorToSegment first))

/-- Freeing a segment, or the whole huge block that starts at it. -/
def dos16FreeSeg (os : SegKernel) (sel : Nat) (s : SegState) : Option (SegState × ApiRet) :=
  let index := sel >>> 3
  let segs := s.hugeBlockSegs index
  if segs ≠ 0 then
    let hugeBlockSegs := Function.update s.hugeBlockSegs index 0
    (freeSegments os segs index { s with hugeBlockSegs }).map fun s => (s, .noError)
  else (freeSegment os index s).map fun s => (s, .noError)

end TwoIne
