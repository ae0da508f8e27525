import TwoIne.LxLoader.Ldt

/-! The table of selectors that the loader shares with the debugger. -/

namespace TwoIne

/-- What the loader shares of each selector. -/
structure DebugSharedState where
  selectors : Nat → BitVec 32
  is32bit : Nat → BitVec 32
  isCode : Nat → BitVec 32
  limit : Nat → BitVec 32
  neSegment : Nat → BitVec 16

/-- The selectors are copied; nothing is said of the segments in them yet. -/
def copySelectors (ldt : Nat → Nat) (before : DebugSharedState) : DebugSharedState :=
  { before with
    selectors := fun i =>
      if i < lxMaxLdtSlots then BitVec.ofNat 32 (ldt i) else before.selectors i
    is32bit := fun i => if i < lxMaxLdtSlots then 0 else before.is32bit i
    isCode := fun i => if i < lxMaxLdtSlots then 0 else before.isCode i
    limit := fun i => if i < lxMaxLdtSlots then 0xFFFF else before.limit i }

/-- Marking the slot of one object, the one at an index of its module. -/
def markObject (i : Nat) (mmaps : LxMmaps) (state : DebugSharedState) : DebugSharedState :=
  if mmaps.alias16 ≠ 0xFFFF ∧ mmaps.alias16 < lxMaxLdtSlots then
    { state with
      isCode := Function.update state.isCode mmaps.alias16
        (if mmaps.prot &&& protExec ≠ 0 then 1 else 0)
      neSegment := Function.update state.neSegment mmaps.alias16 (BitVec.ofNat 16 (i + 1)) }
  else state

/-- Marking the slots of the objects of a module, from an index on. -/
def markObjects : Nat → List LxMmaps → DebugSharedState → DebugSharedState
  | _, [], state => state
  | i, mmaps :: rest, state => markObjects (i + 1) rest (markObject i mmaps state)

/-- Marking the slots of modules, one module after the other. -/
def markModules : List (List LxMmaps) → DebugSharedState → DebugSharedState
  | [], state => state
  | mmaps :: rest, state => markModules rest (markObjects 0 mmaps state)

/--
The shared table as the loader fills it.

The program is in no list, so no other module follows it, and it is marked after the loaded ones.
-/
def fillDebugState (ldt : Nat → Nat) (loadedModules : List (List LxMmaps)) (program : List LxMmaps)
    (before : DebugSharedState) : DebugSharedState :=
  markModules (loadedModules ++ [program]) (copySelectors ldt before)

end TwoIne
