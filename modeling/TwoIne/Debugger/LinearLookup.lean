import TwoIne.Debugger.LineTable
import TwoIne.LxLoader.DebugState

/-! The lookup of the line of a linear address. -/

namespace TwoIne

/-- What is reported of an address: the file and the line, and the segment and offset used. -/
structure LineReport where
  filename : Option (List UInt8)
  line : BitVec 32
  segment : BitVec 16
  offset : BitVec 32
  deriving DecidableEq, Repr

/-- Whether a range covers an offset, where the end of the range may wrap around. -/
def DwarfAddrRange.covers (range : DwarfAddrRange) (offset : BitVec 32) : Bool :=
  range.address ≤ offset && offset < range.address + range.length

/-- The report of a segment and an offset, if a row is found there. -/
def reportAt (info : DwarfInfo) (segment : BitVec 16) (offset : BitVec 32) : Option LineReport :=
  (dwarfAddrToLine info segment offset).map fun found => ⟨found.1, found.2, segment, offset⟩

/--
The segment to look in for an offset of a slot.

It is the one that the slot is marked with, if one of its ranges covers the offset, and otherwise
that of the first range that does.
-/
def searchedSegment (ranges : List DwarfAddrRange) (neSegment : BitVec 16) (offset : BitVec 32) :
    Option (BitVec 16) :=
  if neSegment ≠ 0 ∧ ranges.any fun range => range.segment = neSegment && range.covers offset then
    some neSegment
  else (ranges.find? fun range => range.covers offset).map DwarfAddrRange.segment

/-- The slot of a selector. -/
def selectorSlot (cs : BitVec 16) : Nat := (cs >>> 3).toNat

/-- The line of a linear address, with the selector that the code runs in. -/
def dwarfLinearToLine (info : DwarfInfo) (state : Option DebugSharedState) (isLxMode : Bool)
    (linearAddr : BitVec 32) (cs : BitVec 16) : Option LineReport :=
  if !info.loaded || info.ranges.length == 0 then none
  else if isLxMode then
    (info.ranges.find? fun range => range.covers linearAddr).bind fun range =>
      reportAt info range.segment linearAddr
  else
    match state with
    | none => none
    | some state =>
      let slot := selectorSlot cs
      let base := state.selectors slot
      if lxMaxLdtSlots ≤ slot then none
      else if base = 0 then none
      else if linearAddr < base then none
      else
        (searchedSegment info.ranges (state.neSegment slot) (linearAddr - base)).bind fun segment =>
          reportAt info segment (linearAddr - base)

end TwoIne
