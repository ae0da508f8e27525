import Mathlib.Algebra.Group.Nat.Defs
import Mathlib.Data.List.Basic
import TwoIne.Os2Errors

/-! The table of file handles, and the two calls that make it longer. -/

namespace TwoIne

/-- What the table records of a handle; a free slot has the descriptor -1. -/
structure HFileInfo where
  fd : Int
  type : Nat
  attr : Nat
  flags : Nat
  deriving DecidableEq, Repr

/-- What a slot is initialised to. -/
def HFileInfo.unused : HFileInfo := ⟨-1, 0, 0, 0⟩

/-- The size of a slot in bytes. -/
def sizeofHFileInfo : Nat := 16

/-- The block of memory that holds the slots, and how many of them are in use. -/
structure HandleTable where
  hFiles : List HFileInfo
  maxHFiles : Nat
  deriving DecidableEq, Repr

/-- The block has exactly the slots in use, and fits the address space. -/
structure HandleTable.Sized (t : HandleTable) : Prop where
  slots : t.hFiles.length = t.maxHFiles
  fits : sizeofHFileInfo * t.maxHFiles < 2 ^ 32

/-- The descriptor behind a handle, or -1 for a handle that is free or out of range. -/
def getHFileUnixDescriptor (t : HandleTable) (h : Nat) : Int :=
  if h < t.maxHFiles then ((t.hFiles[h]?).map HFileInfo.fd).getD (-1) else -1

/--
What a reallocation comes to: the old block is gone, the old block stays, or there is a new block.
-/
inductive Reallocated where
  | gone
  | failed
  | moved (block : List HFileInfo)
  deriving DecidableEq, Repr

/--
Reallocating the block; `memory` is what new slots happen to contain, or nothing when there is no
memory.

Asking for no bytes at all frees the old block, although the caller sees the same null pointer as on
a failure.
-/
def reallocHFiles (memory : Option (Nat → HFileInfo)) (bytes : Nat) (hFiles : List HFileInfo) :
    Reallocated :=
  if bytes = 0 then .gone
  else
    match memory with
    | none => .failed
    | some contents =>
      .moved ((List.range (bytes / sizeofHFileInfo)).map fun i => hFiles[i]?.getD (contents i))

/-- Initialising a number of slots from slot `i` on; a write outside the block is a fault. -/
def initSlots : Nat → Nat → List HFileInfo → Option (List HFileInfo)
  | 0, _, block => some block
  | count + 1, i, block =>
    if i < block.length then initSlots count (i + 1) (block.set i .unused) else none

/-- The bytes a table of so many slots is asked for, in 32-bit arithmetic. -/
def tableBytes (slots : Nat) : Nat := sizeofHFileInfo * (slots % 2 ^ 32) % 2 ^ 32

/--
Growing the table by a number of slots, which also answers with the current size.

A block that is lost, or a write outside of it, is a fault.
-/
def DosSetRelMaxFH (memory : Option (Nat → HFileInfo)) (pincr : Option Int) (t : HandleTable) :
    Option (HandleTable × Nat) :=
  match pincr with
  | none => some (t, t.maxHFiles)
  | some incr =>
    -- Reductions are advisory and ignored.
    if ¬ 0 < incr then some (t, t.maxHFiles)
    else
      match reallocHFiles memory (tableBytes (t.maxHFiles + incr.toNat)) t.hFiles with
      | .gone => none
      | .failed => some (t, t.maxHFiles)
      | .moved block =>
        -- The slots at the front of the block are initialised, not those at its end.
        match initSlots incr.toNat 0 block with
        | none => none
        | some block =>
          let maxHFiles := (t.maxHFiles + incr.toNat) % 2 ^ 32
          some (⟨block, maxHFiles⟩, maxHFiles)

/-- Setting the size of the table, which can only grow. -/
def DosSetMaxFH (memory : Option (Nat → HFileInfo)) (cFH : Nat) (t : HandleTable) :
    Option (HandleTable × ApiRet) :=
  if cFH < t.maxHFiles then some (t, .errorInvalidParameter)
  else if cFH = t.maxHFiles then some (t, .noError)
  else
    match reallocHFiles memory (tableBytes cFH) t.hFiles with
    | .gone => none
    | .failed => some (t, .noError)
    | .moved block =>
      match initSlots (cFH - t.maxHFiles) t.maxHFiles block with
      | none => none
      | some block => some (⟨block, cFH⟩, .noError)

end TwoIne
