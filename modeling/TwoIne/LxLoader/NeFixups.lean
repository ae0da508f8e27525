import TwoIne.Lib.ByteBlocks
import TwoIne.LxLoader.Exports
import TwoIne.LxLoader.Fixups
import TwoIne.LxLoader.Iterated

/-! The segments of an NE module: filling them from the file, and fixing them up. -/

namespace TwoIne

open ByteBlocks

/-- Why a segment is not loaded or fixed up to the end. -/
inductive NeFixupStop where
  | outOfFuel
  /-- Something outside of the file, of a table or of the segment is read or written. -/
  | outside
  /-- An assertion does not hold. -/
  | asserted
  /-- An export is missing, and a trampoline is made up for it. -/
  | missing
  /-- A lookup read a null name. -/
  | crashed
  /-- The segment cannot be unpacked. -/
  | refused
  /-- A product does not fit into a signed integer. -/
  | overflow
  deriving DecidableEq, Repr

/-- The size of a segment in memory, whatever its entry says. -/
def neSegmentSpace : Nat := 0x10000

/-- What the records of a module refer to. -/
structure NeFixupEnv where
  loadedModules : List (List LxMmaps)
  /-- Whether the kernel accepts a new descriptor for a slot. -/
  modifyLdt : Nat → Bool
  mmaps : List LxMmaps
  module : ExportTable
  dependencies : List ExportTable
  /-- The bytes from the table of imported names on. -/
  imported_names : List UInt8
  /-- What pointers in the memory of other modules contain. -/
  pointers : Nat → Nat

/-- A record: how it is stored, where its chain starts, and the two words of its target. -/
structure NeFixup where
  srctype : UInt8
  flags : UInt8
  srcchain_offset : BitVec 16
  target : BitVec 16
  offset : BitVec 16
  deriving DecidableEq, Repr

/-- A record is added to what the segment contains. -/
def NeFixup.additive (fixup : NeFixup) : Bool := fixup.flags &&& 0x4 ≠ 0

section Targets

variable (env : NeFixupEnv) (s : LdtState)

/-- The 16:16 address of an export that was looked up. -/
def neImport : ProcAddr → Except NeFixupStop (LdtState × BitVec 32)
  | .missing => .error .missing
  | .crashed => .error .crashed
  | .found _ addr =>
    match lxConvert32to1616 env.loadedModules env.modifyLdt addr s with
    | none => .error .asserted
    | some (s, target) => .ok (s, BitVec.ofNat 32 target)

/-- The import of a name or an ordinal from the module with a number, which counts from one. -/
def neImportFrom (module : Nat) (lookup : ExportTable → ProcAddr) :
    Except NeFixupStop (LdtState × BitVec 32) :=
  match if module = 0 then none else env.dependencies[module - 1]? with
  | none => .error .outside
  | some module => neImport env s (lookup module)

/-- The name of an import, as the lookup compares it. -/
def neImportName (offset : Nat) : Option CStrings.CString :=
  match env.imported_names.drop offset with
  | [] => none
  | namelen :: import_name =>
    if namelen.toNat ≤ import_name.length then
      let name := import_name.take namelen.toNat
      some ⟨CStrings.readString (name ++ [0]), CStrings.readString_noNul _⟩
    else none

/-- The value of a record, and none if it is to be skipped. -/
def neTarget (fixup : NeFixup) : Except NeFixupStop (LdtState × Option (BitVec 32)) :=
  match (fixup.flags &&& 0x3).toNat with
  | 0 =>
    let segment := fixup.target.toNat % 0x100
    if segment = 0xFF then
      -- This is an import from the module itself.
      (neImport env s (ownByOrdinal env.pointers env.module fixup.offset.toNat)).map
        fun (s, target) => (s, some target)
    else
      match if segment = 0 then none else env.mmaps[segment - 1]? with
      | none => .error .outside
      | some mmap =>
        .ok (s, some (BitVec.ofNat 32
          (lxSelectorToSegment mmap.alias16 <<< 16 ||| fixup.offset.toNat)))
  | 1 =>
    (neImportFrom env s fixup.target.toNat fun module =>
      importByOrdinal env.pointers module fixup.offset.toNat).map
        fun (s, target) => (s, some target)
  | 2 =>
    match neImportName env fixup.offset.toNat with
    | none => .error .outside
    | some name =>
      (neImportFrom env s fixup.target.toNat fun module =>
        importByName env.pointers module name).map fun (s, target) => (s, some target)
  | _ => .ok (s, none)

end Targets

/-- The words or the byte that a source of some kind takes of a value; others only get a report. -/
def neFields (srctype : UInt8) (target : BitVec 32) : List (Nat × Nat) :=
  match sourceKind srctype with
  | 0 => [(1, target.toNat % 0x100)]
  | 2 => [(2, target.toNat / 0x10000)]
  | 3 => [(2, target.toNat % 0x10000), (2, target.toNat / 0x10000)]
  | 5 => [(2, target.toNat % 0x10000)]
  | _ => []

/-- The bytes that a source of some kind takes of a value. -/
def neBytes (srctype : UInt8) (target : BitVec 32) : List UInt8 :=
  (neFields srctype target).flatMap fun (width, value) => littleBytes width value

/-- The fields at a place with values added to them, each within its own width. -/
def addFields : List (Nat × Nat) → List UInt8 → List UInt8
  | [], _ => []
  | (width, value) :: fields, source =>
    littleBytes width (littleEndian (source.take width) + value) ++
      addFields fields (source.drop width)

/-- How many bytes a source of some kind has. -/
def neWidth (srctype : UInt8) : Nat := (neBytes srctype 0).length

/-- Adding a value to what a source contains. -/
def addNeSource (srctype : UInt8) (target : BitVec 32) (offset : Nat) (dst : List UInt8) :
    Except NeFixupStop (List UInt8) :=
  match loadBytes dst offset (neWidth srctype) with
  | none => .error .outside
  | some source =>
    match storeBytes dst offset (addFields (neFields srctype target) source) with
    | none => .error .outside
    | some dst => .ok dst

/-- Following a chain of sources, each of which says where the next one is until it is patched. -/
def patchNeChain (srctype : UInt8) (target : BitVec 32) (size : Nat) :
    Nat → Nat → List UInt8 → Except NeFixupStop (List UInt8)
  | 0, _, _ => .error .outOfFuel
  | fuel + 1, srcchain_offset, dst =>
    if srcchain_offset < size then
      match loadBytes dst srcchain_offset 2 with
      | none => .error .outside
      | some link =>
        match storeBytes dst srcchain_offset (neBytes srctype target) with
        | none => .error .outside
        | some dst => patchNeChain srctype target size fuel (littleEndian link) dst
    else .ok dst

/-- Applying a record whose value is known. -/
def NeFixup.apply (fixup : NeFixup) (size fuel : Nat) (value : Option (BitVec 32))
    (dst : List UInt8) : Except NeFixupStop (List UInt8) :=
  match value with
  | none => .ok dst
  | some target =>
    if fixup.additive then addNeSource fixup.srctype target fixup.srcchain_offset.toNat dst
    else patchNeChain fixup.srctype target size fuel fixup.srcchain_offset.toNat dst

/-- Reading a record, and the bytes behind it. -/
def readNeFixup : List UInt8 → Except NeFixupStop (NeFixup × List UInt8)
  | srctype :: flags :: s0 :: s1 :: t0 :: t1 :: t2 :: t3 :: fixupptr =>
    let word := fun low high => BitVec.ofNat 16 (littleEndian [low, high])
    .ok (⟨srctype, flags, word s0 s1, word t0 t1, word t2 t3⟩, fixupptr)
  | _ => .error .outside

/-- Applying so many records. -/
def fixupNeRecords (env : NeFixupEnv) (size fuel : Nat) :
    Nat → List UInt8 → LdtState → List UInt8 → Except NeFixupStop (LdtState × List UInt8)
  | 0, _, s, dst => .ok (s, dst)
  | count + 1, fixupptr, s, dst => do
    let (fixup, fixupptr) ← readNeFixup fixupptr
    let (s, value) ← neTarget env s fixup
    let dst ← fixup.apply size fuel value dst
    fixupNeRecords env size fuel count fixupptr s dst

/-- The bytes of the file from the data of a segment on. -/
def neSegmentBytes (origexe : List UInt8) (ne : NeHeader) (seg : NeSegmentTableEntry) :
    List UInt8 :=
  origexe.drop (segmentData ne seg).toNat

/-- Fixing up a segment, whose records stand behind its data. -/
def fixupNeSegment (env : NeFixupEnv) (origexe : List UInt8) (ne : NeHeader)
    (seg : NeSegmentTableEntry) (fuel : Nat) (s : LdtState) (dst : List UInt8) :
    Except NeFixupStop (LdtState × List UInt8) :=
  if seg.segment_flags &&& 0x100 = 0 then .ok (s, dst)
  else
    let fixupptr :=
      (neSegmentBytes origexe ne seg).drop (if seg.size ≠ 0 then seg.size else 0xFFFF)
    match fixupptr with
    | low :: high :: fixupptr =>
      fixupNeRecords env seg.size fuel (littleEndian [low, high]) fixupptr s dst
    | _ => .error .outside

/-- Filling a segment that was mapped, and is all zeros. -/
def loadNeSegment (origexe : List UInt8) (ne : NeHeader) (seg : NeSegmentTableEntry) :
    Except NeFixupStop (List UInt8) :=
  let segfiledatalen := if seg.size ≠ 0 then seg.size else 0x10000
  let src := neSegmentBytes origexe ne seg
  if neSegmentSpace < segfiledatalen then .error .asserted
  else if seg.segment_flags &&& 0x8 ≠ 0 then
    match iterRecords src (segfiledatalen + 1)
      { src := 0
        srclen := segfiledatalen
        dst := 0
        dstlen := neSegmentSpace
        buffer := List.replicate neSegmentSpace ⟨0, true⟩ } with
    | .returned 0 _ => .error .refused
    | .returned _ dst => .ok (dst.map fun cell => cell.value)
    | .overflow => .error .overflow
    | _ => .error .outside
  else if seg.offset ≠ 0 then
    if src.length < segfiledatalen then .error .outside
    else
      .ok (src.take segfiledatalen ++ List.replicate (neSegmentSpace - segfiledatalen) 0)
  else .ok (List.replicate neSegmentSpace 0)

/-- Filling the segments of a module one after another. -/
def loadNeSegmentsData (origexe : List UInt8) (ne : NeHeader) :
    List NeSegmentTableEntry → Except NeFixupStop (List (List UInt8))
  | [] => .ok []
  | seg :: segments => do
    let dst ← loadNeSegment origexe ne seg
    let rest ← loadNeSegmentsData origexe ne segments
    return dst :: rest

/-- Fixing up the segments of a module one after another, once all of them are filled. -/
def fixupNeSegments (env : NeFixupEnv) (origexe : List UInt8) (ne : NeHeader) (fuel : Nat) :
    List NeSegmentTableEntry → LdtState → List (List UInt8) →
      Except NeFixupStop (LdtState × List (List UInt8))
  | seg :: segments, s, dst :: memory => do
    let (s, dst) ← fixupNeSegment env origexe ne seg fuel s dst
    let (s, memory) ← fixupNeSegments env origexe ne fuel segments s memory
    return (s, dst :: memory)
  | _, s, memory => .ok (s, memory)

/-- The segments of a module as they are when it starts. -/
def loadNeImage (env : NeFixupEnv) (origexe : List UInt8) (ne : NeHeader) (fuel : Nat)
    (segments : List NeSegmentTableEntry) (s : LdtState) :
    Except NeFixupStop (LdtState × List (List UInt8)) := do
  let memory ← loadNeSegmentsData origexe ne segments
  fixupNeSegments env origexe ne fuel segments s memory

end TwoIne
