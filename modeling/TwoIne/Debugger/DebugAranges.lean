import TwoIne.Debugger.DebugLine

/-!
Reading the section of the address ranges, in two passes.

The first pass counts the entries, and the second one stores them. Pointers are addresses of 32 bits,
and each loop is given a number of steps.
-/

namespace TwoIne

open Regions

/-- An entry of a unit, as it is read. -/
structure ArangesEntry where
  addr : Nat
  seg : Nat
  len : Nat
  deriving DecidableEq, Repr

/-- What ends a unit before its end. -/
def ArangesEntry.terminator : ArangesEntry := ⟨0, 0, 0⟩

/-- An entry as it is stored. -/
def ArangesEntry.range (entry : ArangesEntry) : DwarfAddrRange where
  segment := BitVec.ofNat 16 entry.seg
  address := BitVec.ofNat 32 entry.addr
  length := BitVec.ofNat 32 entry.len

/-- What a pass has accepted: the places and the lengths of units, and entries. -/
structure Accepted where
  units : List (Nat × Nat) := []
  entries : List ArangesEntry := []
  deriving DecidableEq, Repr

/-- Reading the bytes of a field from the `i`-th on, on top of those before. -/
def readField (sec : Region) (p : Nat) : Nat → Nat → Nat → Except LineFault Nat
  | 0, _, value => .ok value
  | left + 1, i, value =>
    if 32 ≤ 8 * i then .error .shift
    else do
      let byte ← readByte sec (advance p i)
      readField sec p left (i + 1) (value ||| (byte.toNat <<< (8 * i)) % 0x100000000)

/-- Reading an entry, and the address behind it. -/
def readEntry (sec : Region) (addrSize segSize p : Nat) : Except LineFault (ArangesEntry × Nat) := do
  let addr ← readField sec p addrSize 0 0
  let p := advance p addrSize
  let seg ← readField sec p segSize 0 0
  let p := advance p segSize
  let len ← readField sec p addrSize 0 0
  let p := advance p addrSize
  return (⟨addr, seg, len⟩, p)

/-- Whether there is room for an entry up to the end of a unit. -/
def entryFits (addrSize segSize unitEnd p : Nat) : Prop :=
  advance (advance (advance p addrSize) segSize) addrSize ≤ unitEnd

instance (addrSize segSize unitEnd p : Nat) : Decidable (entryFits addrSize segSize unitEnd p) :=
  inferInstanceAs (Decidable (_ ≤ _))

/-- The number of entries so far, with what was accepted. -/
structure RangeCount where
  totalRangeCount : Nat := 0
  accepted : Accepted := {}
  deriving DecidableEq, Repr

/-- Counting the entries of a unit, from an address on. -/
def countRanges (sec : Region) (addrSize segSize unitEnd : Nat) :
    Nat → Nat → RangeCount → Except LineFault RangeCount
  | 0, _, _ => .error .endless
  | steps + 1, p, count =>
    if entryFits addrSize segSize unitEnd p then do
      let (entry, p) ← readEntry sec addrSize segSize p
      if entry = .terminator then return count
      else
        countRanges sec addrSize segSize unitEnd steps p {
          totalRangeCount := count.totalRangeCount + 1
          accepted := { count.accepted with entries := count.accepted.entries ++ [entry] } }
    else .ok count

/-- A unit more among those accepted. -/
def Accepted.unit (accepted : Accepted) (cursor totalLength : Nat) : Accepted :=
  { accepted with units := accepted.units ++ [(cursor, totalLength)] }

/-- The first pass: the entries of the units from an address on. -/
def countAranges (sec : Region) (steps : Nat) :
    Nat → Nat → RangeCount → Except LineFault RangeCount
  | 0, _, _ => .error .endless
  | left + 1, cursor, count =>
    if advance cursor 12 ≤ sec.finish then do
      let totalLength ← readU32Le sec cursor
      let next := advance cursor (4 + totalLength)
      if totalLength = 0 ∨ sec.finish < next then return count
      let addrSize ← readByte sec (advance cursor 10)
      let segSize ← readByte sec (advance cursor 11)
      let count := { count with accepted := count.accepted.unit cursor totalLength }
      let count ← countRanges sec addrSize.toNat segSize.toNat next steps (advance cursor 12) count
      countAranges sec steps left next count
    else .ok count

/-- The table that is filled, the number of entries stored in it, and what was accepted. -/
structure RangeStore where
  ranges : List DwarfAddrRange
  idx : Nat := 0
  accepted : Accepted := {}
  deriving DecidableEq, Repr

/-- Storing an entry. -/
def storeRange (entry : ArangesEntry) (t : RangeStore) : Except LineFault RangeStore :=
  if t.idx < t.ranges.length then
    .ok {
      ranges := t.ranges.set t.idx entry.range
      idx := t.idx + 1
      accepted := { t.accepted with entries := t.accepted.entries ++ [entry] } }
  else .error .overrun

/-- Storing the entries of a unit, from an address on, up to the number that was counted. -/
def storeRanges (sec : Region) (addrSize segSize unitEnd totalRangeCount : Nat) :
    Nat → Nat → RangeStore → Except LineFault RangeStore
  | 0, _, _ => .error .endless
  | steps + 1, p, t =>
    if entryFits addrSize segSize unitEnd p ∧ t.idx < totalRangeCount then do
      let (entry, p) ← readEntry sec addrSize segSize p
      if entry = .terminator then return t
      else
        let t ← storeRange entry t
        storeRanges sec addrSize segSize unitEnd totalRangeCount steps p t
    else .ok t

/-- The second pass: the units from an address on, up to the number of entries that was counted. -/
def storeAranges (sec : Region) (steps totalRangeCount : Nat) :
    Nat → Nat → RangeStore → Except LineFault RangeStore
  | 0, _, _ => .error .endless
  | left + 1, cursor, t =>
    if advance cursor 12 ≤ sec.finish ∧ t.idx < totalRangeCount then do
      let totalLength ← readU32Le sec cursor
      let next := advance cursor (4 + totalLength)
      if totalLength = 0 ∨ sec.finish < next then return t
      let addrSize ← readByte sec (advance cursor 10)
      let segSize ← readByte sec (advance cursor 11)
      let t := { t with accepted := t.accepted.unit cursor totalLength }
      let t ← storeRanges sec addrSize.toNat segSize.toNat next totalRangeCount steps
        (advance cursor 12) t
      storeAranges sec steps totalRangeCount left next t
    else .ok t

/-- The first pass over a section. -/
def countSection (sec : Region) (steps : Nat) : Except LineFault RangeCount :=
  countAranges sec steps steps sec.base {}

/-- The second pass over a section, with a table of so many places that are all zero. -/
def storeSection (sec : Region) (steps totalRangeCount : Nat) : Except LineFault RangeStore :=
  storeAranges sec steps totalRangeCount steps sec.base
    { ranges := List.replicate totalRangeCount ⟨0, 0, 0⟩ }

/-- The answer, and the table. -/
structure ParsedRanges where
  ret : Int
  ranges : List DwarfAddrRange := []
  deriving DecidableEq, Repr

/-- Reading the section, if there is one and there is memory for the table. -/
def parseDebugAranges (debugAranges : Option Region) (memory : Bool) (steps : Nat) :
    Except LineFault ParsedRanges :=
  match debugAranges with
  | none => .ok { ret := -1 }
  | some sec =>
    if sec.bytes.length < 12 then .ok { ret := -1 }
    else do
      let count ← countSection sec steps
      if count.totalRangeCount = 0 then return { ret := 0 }
      if !memory then return { ret := -1 }
      let t ← storeSection sec steps count.totalRangeCount
      return { ret := 0, ranges := t.ranges }

end TwoIne
