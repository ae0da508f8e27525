import TwoIne.Lib.Memories
import TwoIne.LxLoader.Exports
import TwoIne.LxLoader.Numbers

/-! The fix-up records of an LX module: how they are stored, and how they are applied to a page. -/

namespace TwoIne

open Buffers Memories Regions

/-- Why applying records does not go on. -/
inductive FixupStop where
  | outOfFuel
  /-- Something outside of a table or of the file is read. -/
  | outside
  /-- An assertion does not hold. -/
  | asserted
  /-- The program ends as a source type has no size. -/
  | exited
  /-- An export is missing, and a trampoline is made up for it. -/
  | missing
  /-- A lookup read a null name. -/
  | crashed
  deriving DecidableEq, Repr

/-- What the records of a module refer to. -/
structure FixupEnv where
  mmaps : List LxMmaps
  num_import_mod_entries : Nat
  dependencies : List ExportTable
  /-- The bytes from the table of imported names on. -/
  import_procs : List UInt8
  /-- What pointers in the memory of other modules contain. -/
  pointers : Nat → Nat
  original_cs : BitVec 16

/-- The value that a record puts into its fields, and the selector of a far pointer. -/
structure FixupValue where
  finalval : BitVec 32
  finalval2 : BitVec 16
  deriving DecidableEq, Repr

/-- The kind of a source. -/
def sourceKind (srctype : UInt8) : Nat := (srctype &&& 0x0F).toNat

/-- A record is for the 16-bit alias of its target. -/
def fixup_to_alias (srctype : UInt8) : Bool := srctype &&& 0x10 ≠ 0

/-- A record has a list of sources. -/
def hasSourceList (srctype : UInt8) : Bool := srctype &&& 0x20 ≠ 0

/-- How many bytes a source of some kind has. -/
def finalsize : Nat → Nat
  | 0x0 => 1
  | 0x2 | 0x5 => 2
  | 0x3 | 0x7 | 0x8 => 4
  | 0x6 => 6
  | _ => 0

/-- How many bytes the number of an object or of a module has. -/
def idWidth (fixupflags : UInt8) : Nat := if fixupflags &&& 0x40 ≠ 0 then 2 else 1

/-- How many bytes a number has that may be of 32 bits. -/
def wideWidth (fixupflags : UInt8) : Nat := if fixupflags &&& 0x10 ≠ 0 then 4 else 2

/-- How many bytes an additive has. -/
def additiveWidth (fixupflags : UInt8) : Nat := if fixupflags &&& 0x20 ≠ 0 then 4 else 2

/-- Reading a number of some bytes, and the bytes behind it. -/
def fixupNumber (width : Nat) (fixup : List UInt8) : Except FixupStop (Nat × List UInt8) :=
  if width ≤ fixup.length then .ok (littleEndian (fixup.take width), fixup.drop width)
  else .error .outside

/-- Reading an additive, if there is one. -/
def readAdditive (fixupflags : UInt8) (fixup : List UInt8) : Except FixupStop (Nat × List UInt8) :=
  if fixupflags &&& 0x4 ≠ 0 then fixupNumber (additiveWidth fixupflags) fixup
  else .ok (0, fixup)

/-- Writing a field; the offset may lead out of the page, to both sides. -/
def doFixup (page : BitVec 32) (offset : BitVec 16) (value : FixupValue) (size : Nat)
    (memory : Memory) : Except FixupStop Memory :=
  let place := (page + offset.signExtend 32).toNat
  let cells := fun width n => (littleBytes width n).map fun byte => (⟨byte, true⟩ : Cell)
  match size with
  | 1 | 2 | 4 => .ok (writeMemory memory place (cells size value.finalval.toNat))
  | 6 =>
    let memory := writeMemory memory place (cells 4 value.finalval.toNat)
    .ok (writeMemory memory ((place + 4) % addresses) (cells 2 value.finalval2.toNat))
  | _ => .error .exited

section Targets

variable (env : FixupEnv) (srctype : UInt8)

/-- The selector of a far pointer before the target is known. -/
def initialSelector : BitVec 16 := if sourceKind srctype = 0x6 then env.original_cs else 0

/-- The value for an alias, from its selector and an offset into its object. -/
def aliasValue (selector : Nat) (offset : BitVec 32) (finalval2 : BitVec 16) :
    Except FixupStop FixupValue :=
  let segment := lxSelectorToSegment selector
  match sourceKind srctype with
  | 0x2 => .ok ⟨BitVec.ofNat 32 segment, finalval2⟩
  | 0x3 => .ok ⟨BitVec.ofNat 32 segment <<< 16 ||| offset, finalval2⟩
  | 0x6 => .ok ⟨offset, BitVec.ofNat 16 segment⟩
  | _ => .error .asserted

/-- The value of a reference to an object of the module. -/
def internalValue (objectid : Nat) (targetoffset : BitVec 32) : Except FixupStop FixupValue :=
  match if objectid = 0 then none else env.mmaps[objectid - 1]? with
  | none => .error .outside
  | some mmap =>
    if fixup_to_alias srctype then
      -- Without an alias this is only reported.
      if mmap.alias16 = 0xFFFF then .ok ⟨0, initialSelector env srctype⟩
      else aliasValue srctype mmap.alias16 targetoffset (initialSelector env srctype)
    else .ok ⟨BitVec.ofNat 32 mmap.addr + targetoffset, initialSelector env srctype⟩

/-- The value of a reference to an export that was looked up, if it was. -/
def exportValue (lxexp : Option LxExport) (finalval : BitVec 32) : Except FixupStop FixupValue :=
  if fixup_to_alias srctype then
    match lxexp.bind LxExport.object with
    | none => .ok ⟨finalval, initialSelector env srctype⟩
    | some object =>
      if object.alias16 = 0xFFFF then .ok ⟨finalval, initialSelector env srctype⟩
      else
        aliasValue srctype object.alias16 (finalval - BitVec.ofNat 32 object.addr)
          (initialSelector env srctype)
  else .ok ⟨finalval, initialSelector env srctype⟩

/-- The value of an import, which is looked up in a module if there is one with that number. -/
def importValue (moduleid : Nat) (lookup : ExportTable → ProcAddr) :
    Except FixupStop FixupValue :=
  if moduleid = 0 ∨ env.num_import_mod_entries < moduleid then
    -- The number is only reported.
    exportValue env srctype none 0
  else
    match env.dependencies[moduleid - 1]? with
    | none => .error .outside
    | some module =>
      match lookup module with
      | .found lxexp addr => exportValue env srctype (some lxexp) (BitVec.ofNat 32 addr)
      | .missing => .error .missing
      | .crashed => .error .crashed

/-- The name of an import, as the lookup compares it. -/
def importName (name_offset : Nat) : Option CStrings.CString :=
  match env.import_procs.drop name_offset with
  | [] => none
  | namelen :: import_name =>
    let namelen := (namelen &&& 0x7F).toNat
    if namelen ≤ import_name.length then
      let name := import_name.take namelen
      some ⟨CStrings.readString (name ++ [0]), CStrings.readString_noNul _⟩
    else none

/-- The value of an import by name. -/
def nameValue (moduleid name_offset : Nat) : Except FixupStop FixupValue :=
  if moduleid = 0 ∨ env.num_import_mod_entries < moduleid then exportValue env srctype none 0
  else
    match importName env name_offset with
    | none => .error .outside
    | some name => importValue env srctype moduleid fun module =>
      importByName env.pointers module name

/-- Reading a target, and finding its value. -/
def readFixupTarget (fixupflags : UInt8) (fixup : List UInt8) :
    Except FixupStop (FixupValue × List UInt8) :=
  match (fixupflags &&& 0x3).toNat with
  | 0x0 => do
    let (objectid, fixup) ← fixupNumber (idWidth fixupflags) fixup
    -- A selector does not have an offset.
    let (targetoffset, fixup) ←
      if sourceKind srctype ≠ 2 then fixupNumber (wideWidth fixupflags) fixup else .ok (0, fixup)
    let value ← internalValue env srctype objectid (BitVec.ofNat 32 targetoffset)
    return (value, fixup)
  | 0x1 => do
    let (moduleid, fixup) ← fixupNumber (idWidth fixupflags) fixup
    let (importid, fixup) ←
      if fixupflags &&& 0x80 ≠ 0 then fixupNumber 1 fixup
      else fixupNumber (wideWidth fixupflags) fixup
    let value ← importValue env srctype moduleid fun module =>
      importByOrdinal env.pointers module importid
    return (value, fixup)
  | 0x2 => do
    let (moduleid, fixup) ← fixupNumber (idWidth fixupflags) fixup
    let (name_offset, fixup) ← fixupNumber (wideWidth fixupflags) fixup
    let value ← nameValue env srctype moduleid name_offset
    return (value, fixup)
  | _ => .error .asserted

end Targets

/-- Writing the field at an offset; what is relative to itself counts from behind the field. -/
def applySource (page : BitVec 32) (srctype : UInt8) (value : FixupValue) (offset : BitVec 16)
    (memory : Memory) : Except FixupStop Memory :=
  if sourceKind srctype = 0x8 then
    if value.finalval2 = 0 then
      doFixup page offset ⟨value.finalval - (page + offset.signExtend 32 + 4), 0⟩
        (finalsize (sourceKind srctype)) memory
    else .error .asserted
  else doFixup page offset value (finalsize (sourceKind srctype)) memory

/-- Writing the fields whose offsets are listed. -/
def applySources (page : BitVec 32) (srctype : UInt8) (value : FixupValue) :
    Nat → List UInt8 → Memory → Except FixupStop (Memory × List UInt8)
  | 0, fixup, memory => .ok (memory, fixup)
  | count + 1, fixup, memory => do
    let (offset, fixup) ← fixupNumber 2 fixup
    let memory ← applySource page srctype value (BitVec.ofNat 16 offset) memory
    applySources page srctype value count fixup memory

/-- Applying the next record. -/
def fixupRecord (env : FixupEnv) (page : BitVec 32) (fixup : List UInt8) (memory : Memory) :
    Except FixupStop (Memory × List UInt8) :=
  match fixup with
  | srctype :: fixupflags :: fixup => do
    let (first, fixup) ← fixupNumber (if hasSourceList srctype then 1 else 2) fixup
    let (value, fixup) ← readFixupTarget env srctype fixupflags fixup
    let (additive, fixup) ← readAdditive fixupflags fixup
    let value := { value with finalval := value.finalval + BitVec.ofNat 32 additive }
    if hasSourceList srctype then applySources page srctype value first fixup memory
    else do
      let memory ← applySource page srctype value (BitVec.ofNat 16 first) memory
      return (memory, fixup)
  | _ => .error .outside

/-- Applying records until so many bytes are used up. -/
def fixupRecords (env : FixupEnv) (page : BitVec 32) :
    Nat → Int → List UInt8 → Memory → Except FixupStop Memory
  | 0, _, _, _ => .error .outOfFuel
  | fuel + 1, left, fixup, memory =>
    if 0 < left then do
      let (memory, rest) ← fixupRecord env page fixup memory
      fixupRecords env page fuel (left - (fixup.length - rest.length : Nat)) rest memory
    else .ok memory

/-- The tables that say where the records of a page are, and the records. -/
structure FixupTables where
  fixup_page_table : List Nat
  fixup_records : List UInt8

/-- Applying the records of a page to it. -/
def fixupPage (env : FixupEnv) (tables : FixupTables) (index : Nat) (page : BitVec 32)
    (fuel : Nat) (memory : Memory) : Except FixupStop Memory :=
  match tables.fixup_page_table[index]?, tables.fixup_page_table[index + 1]? with
  | some fixupoffset, some next =>
    fixupRecords env page fuel (uint32Sub next fixupoffset)
      (tables.fixup_records.drop fixupoffset) memory
  | _, _ => .error .outside

/-- How many bytes the second number of a target has, by the kind of the target. -/
def valueWidth (srctype fixupflags : UInt8) : Nat :=
  match (fixupflags &&& 0x3).toNat with
  | 0x0 => if sourceKind srctype ≠ 2 then wideWidth fixupflags else 0
  | 0x1 => if fixupflags &&& 0x80 ≠ 0 then 1 else wideWidth fixupflags
  | 0x2 => wideWidth fixupflags
  | _ => 0

/-- How many bytes an additive has, if there is one. -/
def additiveSize (fixupflags : UInt8) : Nat :=
  if fixupflags &&& 0x4 ≠ 0 then additiveWidth fixupflags else 0

/-- A record that the format can store: its numbers fit into the bytes that its flags say. -/
structure FixupEntry where
  srctype : UInt8
  fixupflags : UInt8
  sources : List (BitVec 16)
  id : Nat
  value : Nat
  additive : Nat
  sources_count : if hasSourceList srctype then sources.length < 256 else sources.length = 1
  id_fits : id < 256 ^ idWidth fixupflags
  value_fits : value < 256 ^ valueWidth srctype fixupflags
  additive_fits : additive < 256 ^ additiveSize fixupflags

/-- The offsets of a record, as they are stored. -/
def offsetBytes (sources : List (BitVec 16)) : List UInt8 :=
  sources.flatMap fun offset => littleBytes 2 offset.toNat

/-- A record as it is stored: a list of sources comes last, and its count first. -/
def FixupEntry.encode (entry : FixupEntry) : List UInt8 :=
  entry.srctype :: entry.fixupflags ::
    ((if hasSourceList entry.srctype then littleBytes 1 entry.sources.length
      else offsetBytes entry.sources) ++
    (littleBytes (idWidth entry.fixupflags) entry.id ++
    (littleBytes (valueWidth entry.srctype entry.fixupflags) entry.value ++
    (littleBytes (additiveSize entry.fixupflags) entry.additive ++
    (if hasSourceList entry.srctype then offsetBytes entry.sources else [])))))

/-- The value of the target of a record, without its additive. -/
def FixupEntry.target (env : FixupEnv) (entry : FixupEntry) : Except FixupStop FixupValue :=
  match (entry.fixupflags &&& 0x3).toNat with
  | 0x0 => internalValue env entry.srctype entry.id (BitVec.ofNat 32 entry.value)
  | 0x1 => importValue env entry.srctype entry.id fun module =>
      importByOrdinal env.pointers module entry.value
  | 0x2 => nameValue env entry.srctype entry.id entry.value
  | _ => .error .asserted

/-- The value that a record puts into its fields. -/
def FixupEntry.resolve (env : FixupEnv) (entry : FixupEntry) : Except FixupStop FixupValue := do
  let value ← entry.target env
  return { value with finalval := value.finalval + BitVec.ofNat 32 entry.additive }

/-- A record refers to an object, or to an export that is found. -/
def FixupEntry.Resolvable (env : FixupEnv) (entry : FixupEntry) : Prop :=
  match (entry.fixupflags &&& 0x3).toNat with
  | 0x0 => entry.id ≠ 0 ∧ entry.id ≤ env.mmaps.length
  | 0x1 => entry.id ≠ 0 ∧ entry.id ≤ env.num_import_mod_entries ∧
      ∃ module lxexp addr, env.dependencies[entry.id - 1]? = some module ∧
        importByOrdinal env.pointers module entry.value = .found lxexp addr
  | 0x2 => entry.id ≠ 0 ∧ entry.id ≤ env.num_import_mod_entries ∧
      ∃ module name lxexp addr, env.dependencies[entry.id - 1]? = some module ∧
        importName env entry.value = some name ∧
        importByName env.pointers module name = .found lxexp addr
  | _ => False

/-- The source of a record is of a kind that has a size, and that an alias makes sense for. -/
def FixupEntry.Supported (entry : FixupEntry) : Prop :=
  finalsize (sourceKind entry.srctype) ≠ 0 ∧
    (fixup_to_alias entry.srctype = true →
      sourceKind entry.srctype = 0x2 ∨ sourceKind entry.srctype = 0x3 ∨
        sourceKind entry.srctype = 0x6)

/-- The same record for the next page, whose offsets are lower. -/
def FixupEntry.lowered (entry : FixupEntry) : FixupEntry :=
  { entry with
    sources := entry.sources.map fun offset => offset - 0x1000#16
    sources_count := by rw [List.length_map]; exact entry.sources_count }

/-- What a record does to the memory of a page. -/
def FixupEntry.apply (env : FixupEnv) (page : BitVec 32) (entry : FixupEntry)
    (memory : Memory) : Except FixupStop Memory := do
  let value ← entry.resolve env
  entry.sources.foldlM
    (fun memory offset => applySource page entry.srctype value offset memory) memory

end TwoIne
