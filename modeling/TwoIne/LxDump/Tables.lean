import TwoIne.LxLoader.EntryTable

/-! What lx_dump prints of the entry table of an LX module and of the segments of an NE module. -/

namespace TwoIne

/-- A line about an entry. -/
structure DumpedEntry where
  number : BitVec 32
  movable : Bool
  object : Nat
  offset : Nat
  deriving DecidableEq, Repr

/-- The lines about the entries from one on, and where the table ends for lx_dump. -/
def dumpEntries (entry_count : BitVec 32) :
    List UInt8 → Except TableFault (List DumpedEntry × List UInt8)
  | [] => .error .outside
  | type :: ptr =>
    if type = 0 then return ([], type :: ptr)
    else if type = 0xFF then
      match ptr with
      | _ :: _ :: objnum :: lo :: hi :: ptr => do
        let (rest, stop) ← dumpEntries (entry_count + 1) ptr
        return (⟨entry_count + 1, true, objnum.toNat, littleEndian [lo, hi]⟩ :: rest, stop)
      | _ => .error .outside
    else
      match ptr with
      | lo :: hi :: ptr => do
        let (rest, stop) ← dumpEntries (entry_count + 1) ptr
        return (⟨entry_count + 1, false, type.toNat, littleEndian [lo, hi]⟩ :: rest, stop)
      | _ => .error .outside

/-- The lines about the entry table; without a table there are none. -/
def dumpLxEntryTable (exe : List UInt8) (entry_table_offset : Nat) :
    Except TableFault (List DumpedEntry × List UInt8) :=
  if entry_table_offset = 0 then return ([], exe)
  else dumpEntries 0 (exe.drop entry_table_offset)

/-- The lines about a segment; in hex mode there is a sample of its data, too. -/
structure DumpedSegment where
  size : Nat
  relocoffs : Nat
  flags : Nat
  min_alloc : Nat
  sample : Option (BitVec 32)
  deriving DecidableEq, Repr

/-- Where lx_dump takes the data of a segment from. -/
def sampleOffset (ne : NeHeader) (i : Nat) : BitVec 32 :=
  ne.non_resident_name_table_offset + ne.non_resident_name_table_size.setWidth 32 +
    BitVec.ofNat 32 (i * 512)

/-- The lines about so many segments from one on. -/
def dumpSegments (hexMode : Bool) (ne : NeHeader) :
    Nat → Nat → List UInt8 → Except TableFault (List DumpedSegment)
  | 0, _, _ => .ok []
  | left + 1, i, ptr => do
    let (size, ptr) ← readNumber 2 ptr
    let (relocoffs, ptr) ← readNumber 2 ptr
    let (flags, ptr) ← readNumber 2 ptr
    let (min_alloc, ptr) ← readNumber 2 ptr
    let sample := if hexMode ∧ 0 < size then some (sampleOffset ne i) else none
    let rest ← dumpSegments hexMode ne left (i + 1) ptr
    return ⟨size, relocoffs, flags, min_alloc, sample⟩ :: rest

/-- The lines about the segment table. -/
def dumpNeSegments (hexMode : Bool) (exe : List UInt8) (ne : NeHeader) :
    Except TableFault (List DumpedSegment) :=
  dumpSegments hexMode ne ne.num_segment_table_entries.toNat 0
    (exe.drop ne.segment_table_offset.toNat)

end TwoIne
