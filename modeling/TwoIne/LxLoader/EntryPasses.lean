import TwoIne.LxLoader.EntryTable

/-! The two passes that the loader makes over an entry table: one that counts, and one that fills. -/

namespace TwoIne

/--
What both passes leave behind: the exports there is room for, where the first pass stops, the
exports that are written and their number, and where the second pass stops, if there is one.
-/
structure EntryPasses where
  total_ordinals : BitVec 32
  counted : List UInt8
  exports : List LxEntryPoint
  num_exports : BitVec 32
  filled : Option (List UInt8)
  deriving DecidableEq, Repr

/-- The first pass over the table of an LX module, with the place where it stops. -/
def countLxEntries : Nat → BitVec 32 → List UInt8 → Except TableFault (BitVec 32 × List UInt8)
  | 0, _, _ => .error .outside
  | _ + 1, _, [] => .error .outside
  | rounds + 1, total_ordinals, numentries :: entryptr =>
    if numentries = 0 then return (total_ordinals, numentries :: entryptr)
    else
      match entryptr with
      | [] => .error .outside
      | type :: entryptr =>
        let bundletype := type &&& 0x7F
        if bundletype = 0x00 then countLxEntries rounds total_ordinals entryptr
        else
          let size := 2 + (if bundletype = 0x01 then 3 else 5) * numentries.toNat
          countLxEntries rounds (total_ordinals + BitVec.ofNat 32 numentries.toNat)
            (entryptr.drop size)

/-- Setting up the exports of an LX module. -/
def loadLxEntries (exe : List UInt8) (entry_table_offset : Nat) : Except TableFault EntryPasses := do
  let rounds := exe.length + 1
  let (total_ordinals, counted) ← countLxEntries rounds 0 (exe.drop entry_table_offset)
  let (exports, filled) ← recordExports rounds 1 (exe.drop entry_table_offset)
  return ⟨total_ordinals, counted, exports, BitVec.ofNat 32 exports.length, some filled⟩

/-- The first pass over the table of an NE module; bundles without entries count, too. -/
def countNeEntries : Nat → BitVec 32 → List UInt8 → Except TableFault (BitVec 32 × List UInt8)
  | 0, _, _ => .error .outside
  | _ + 1, _, [] => .error .outside
  | rounds + 1, total_ordinals, numentries :: entryptr =>
    if numentries = 0 then return (total_ordinals, numentries :: entryptr)
    else
      match entryptr with
      | [] => .error .outside
      | bundletype :: entryptr =>
        let size :=
          if bundletype ≠ 0x00 then (if bundletype = 0xFF then 6 else 3) * numentries.toNat else 0
        countNeEntries rounds (total_ordinals + BitVec.ofNat 32 numentries.toNat)
          (entryptr.drop size)

/-- The entries of a bundle that names the segment of each of them. -/
def readMovable : Nat → BitVec 32 → List UInt8 →
    Except TableFault (List LxEntryPoint × List UInt8)
  | 0, _, entryptr => .ok ([], entryptr)
  | i + 1, ordinal, entryptr =>
    match entryptr with
    | _flags :: _ :: _ :: segment :: lo :: hi :: entryptr => do
      let (rest, entryptr) ← readMovable i (ordinal + 1) entryptr
      let objidx := BitVec.ofNat 16 (segment - 1).toNat
      return (⟨ordinal, objidx, littleEndian [lo, hi]⟩ :: rest, entryptr)
    | _ => .error .outside

/-- The entries of a bundle in one segment. -/
def readFixed (bundletype : UInt8) : Nat → BitVec 32 → List UInt8 →
    Except TableFault (List LxEntryPoint × List UInt8)
  | 0, _, entryptr => .ok ([], entryptr)
  | i + 1, ordinal, entryptr =>
    match entryptr with
    | _flags :: lo :: hi :: entryptr => do
      let (rest, entryptr) ← readFixed bundletype i (ordinal + 1) entryptr
      let objidx := BitVec.ofNat 16 (bundletype - 1).toNat
      return (⟨ordinal, objidx, littleEndian [lo, hi]⟩ :: rest, entryptr)
    | _ => .error .outside

/-- The second pass over the table of an NE module. -/
def recordNeExports : Nat → BitVec 32 → List UInt8 →
    Except TableFault (List LxEntryPoint × List UInt8)
  | 0, _, _ => .error .outside
  | _ + 1, _, [] => .error .outside
  | rounds + 1, ordinal, numentries :: entryptr =>
    if numentries = 0 then return ([], numentries :: entryptr)
    else
      match entryptr with
      | [] => .error .outside
      | bundletype :: entryptr =>
        let next := ordinal + BitVec.ofNat 32 numentries.toNat
        if bundletype = 0x00 then recordNeExports rounds next entryptr
        else do
          let (entries, entryptr) ←
            if bundletype = 0xFF then readMovable numentries.toNat ordinal entryptr
            else readFixed bundletype numentries.toNat ordinal entryptr
          let (rest, stop) ← recordNeExports rounds next entryptr
          return (entries ++ rest, stop)

/-- Setting up the exports of an NE module that has an entry table; nothing is filled if none count. -/
def loadNeEntries (exe : List UInt8) (entry_table_offset : Nat) : Except TableFault EntryPasses := do
  let rounds := exe.length + 1
  let (total_ordinals, counted) ← countNeEntries rounds 0 (exe.drop entry_table_offset)
  if total_ordinals = 0 then return ⟨total_ordinals, counted, [], 0, none⟩
  else
    let (exports, filled) ← recordNeExports rounds 1 (exe.drop entry_table_offset)
    return ⟨total_ordinals, counted, exports, BitVec.ofNat 32 exports.length, some filled⟩

/-- Setting up the exports of an NE module; one without a table has none. -/
def loadNeExports (exe : List UInt8) (entry_table_offset entry_table_size : Nat) :
    Except TableFault (Option EntryPasses) :=
  if entry_table_size = 0 then return none
  else (loadNeEntries exe entry_table_offset).map some

end TwoIne
