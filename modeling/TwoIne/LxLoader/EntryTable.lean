import Mathlib.Data.Nat.Digits.Defs

/-! The exports of an LX module and the segments of an NE module, as the loader reads their tables. -/

namespace TwoIne

/-- A number with its lowest byte first. -/
def littleEndian (bytes : List UInt8) : Nat := Nat.ofDigits 256 (bytes.map UInt8.toNat)

/-- Why a table is not read to its end. -/
inductive TableFault where
  | outside
  | unwritten
  | unknown (bundletype : UInt8)
  deriving DecidableEq, Repr

/-- Reading a number of some bytes, and the bytes behind it. -/
def readNumber (width : Nat) (ptr : List UInt8) : Except TableFault (Nat × List UInt8) :=
  if width ≤ ptr.length then .ok (littleEndian (ptr.take width), ptr.drop width)
  else .error .outside

/-- An export; its address is so many bytes behind the start of the object with this index. -/
structure LxEntryPoint where
  ordinal : BitVec 32
  objidx : BitVec 16
  offset : Nat
  deriving DecidableEq, Repr

/-- The bytes of an entry behind its flags: an offset of 16 bits, or of 32 bits. -/
def offsetWidth (wide : Bool) : Nat := if wide then 4 else 2

/-- Reading the entries of one bundle. -/
def readEntries (wide : Bool) (objidx : BitVec 16) :
    Nat → BitVec 32 → List UInt8 → Except TableFault (List LxEntryPoint × List UInt8)
  | 0, _, entryptr => .ok ([], entryptr)
  | _ + 1, _, [] => .error .outside
  | i + 1, ordinal, _flags :: entryptr => do
    let (offset, entryptr) ← readNumber (offsetWidth wide) entryptr
    let (rest, entryptr) ← readEntries wide objidx i (ordinal + 1) entryptr
    return (⟨ordinal, objidx, offset⟩ :: rest, entryptr)

/--
The first pass over the bundles, which only counts the exports.

Each bundle takes bytes, so the file ends before the rounds do.
-/
def countOrdinals : Nat → List UInt8 → Except TableFault Nat
  | 0, _ => .error .outside
  | _ + 1, [] => .error .outside
  | rounds + 1, numentries :: entryptr =>
    if numentries = 0 then return 0
    else
      match entryptr with
      | [] => .error .outside
      | type :: entryptr =>
        let bundletype := type &&& 0x7F
        if bundletype = 0x00 then countOrdinals rounds entryptr
        else do
          let size := 2 + (if bundletype = 0x01 then 3 else 5) * numentries.toNat
          let total ← countOrdinals rounds (entryptr.drop size)
          return numentries.toNat + total

/-- The second pass over the bundles, which records the exports; the end is where it stops. -/
def recordExports : Nat → BitVec 32 → List UInt8 →
    Except TableFault (List LxEntryPoint × List UInt8)
  | 0, _, _ => .error .outside
  | _ + 1, _, [] => .error .outside
  | rounds + 1, ordinal, numentries :: entryptr =>
    if numentries = 0 then return ([], numentries :: entryptr)
    else
      match entryptr with
      | [] => .error .outside
      | type :: entryptr =>
        let bundletype := type &&& 0x7F
        let next := ordinal + BitVec.ofNat 32 numentries.toNat
        if bundletype = 0x00 then recordExports rounds next entryptr
        else if bundletype = 0x01 ∨ bundletype = 0x03 then do
          let (object, entryptr) ← readNumber 2 entryptr
          let objidx := BitVec.ofNat 16 object - 1
          let (entries, entryptr) ←
            readEntries (bundletype = 0x03) objidx numentries.toNat ordinal entryptr
          let (rest, stop) ← recordExports rounds next entryptr
          return (entries ++ rest, stop)
        else if bundletype = 0x02 ∨ bundletype = 0x04 then .error .unwritten
        else .error (.unknown bundletype)

/-- Setting up the exports of a module from its entry table. -/
def loadLxExports (exe : List UInt8) (entry_table_offset : Nat) :
    Except TableFault (List LxEntryPoint × List UInt8) := do
  let rounds := exe.length + 1
  let _total ← countOrdinals rounds (exe.drop entry_table_offset)
  recordExports rounds 1 (exe.drop entry_table_offset)

/-- The fields of the header of an NE module that say where its segments are. -/
structure NeHeader where
  num_segment_table_entries : BitVec 16
  segment_table_offset : BitVec 16
  non_resident_name_table_offset : BitVec 32
  non_resident_name_table_size : BitVec 16
  sector_alignment_shift_count : BitVec 16
  deriving DecidableEq, Repr

/-- The entry of a segment. -/
structure NeSegmentTableEntry where
  offset : Nat
  size : Nat
  segment_flags : Nat
  minimum_allocation : Nat
  deriving DecidableEq, Repr

/-- The entries of so many segments. -/
def readSegments : Nat → List UInt8 → Except TableFault (List NeSegmentTableEntry)
  | 0, _ => .ok []
  | i + 1, seg => do
    let (offset, seg) ← readNumber 2 seg
    let (size, seg) ← readNumber 2 seg
    let (segment_flags, seg) ← readNumber 2 seg
    let (minimum_allocation, seg) ← readNumber 2 seg
    let rest ← readSegments i seg
    return ⟨offset, size, segment_flags, minimum_allocation⟩ :: rest

/-- The entries that the loader goes through. -/
def loadNeSegments (exe : List UInt8) (ne : NeHeader) :
    Except TableFault (List NeSegmentTableEntry) :=
  readSegments ne.num_segment_table_entries.toNat (exe.drop ne.segment_table_offset.toNat)

/-- Where in the file the data of a segment are. -/
def segmentData (ne : NeHeader) (seg : NeSegmentTableEntry) : BitVec 32 :=
  BitVec.ofNat 32 seg.offset <<< ne.sector_alignment_shift_count.toNat

end TwoIne
