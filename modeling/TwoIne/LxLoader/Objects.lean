import TwoIne.Lib.Memories
import TwoIne.LxLoader.ExePack
import TwoIne.LxLoader.Iterated

/-! Loading the objects of an LX module: their mappings, and the pages that fill them. -/

namespace TwoIne

open Buffers Memories Regions

/-- The size of a page, which is checked in the header. -/
def lxPageSize : Nat := 0x1000

/-- The entry of an object. -/
structure LxObjectTableEntry where
  virtual_size : BitVec 32
  reloc_base_addr : BitVec 32
  object_flags : BitVec 32
  page_table_index : BitVec 32
  num_page_table_entries : BitVec 32
  deriving DecidableEq, Repr

/-- The entry of a page. -/
structure LxObjectPageTableEntry where
  page_data_offset : BitVec 32
  data_size : BitVec 16
  flags : BitVec 16
  deriving DecidableEq, Repr

/-- What is read of a module: its page table and its bytes, wherever they are read. -/
structure PagedImage where
  isDLL : Bool
  page_offset_shift : BitVec 32
  data_pages_offset : BitVec 32
  object_page_table : Int → LxObjectPageTableEntry
  origexe : Nat → UInt8

/-- What `mmap` answers for an object with this index, an address and a size. -/
abbrev Mmap := Nat → Nat → Nat → Option Nat

/-- The mapping of an object; its address may be adjusted, and its size then is what is left. -/
structure LxMapping where
  mapped : Nat
  size : Nat
  addr : Nat
  vsize : Nat
  deriving DecidableEq, Repr

/-- What mapping an object comes to. -/
inductive MapOutcome where
  | failed
  /-- An assertion does not hold. -/
  | aborted
  | mapped (mapping : LxMapping)
  deriving DecidableEq, Repr

/-- The size of an object in whole pages. -/
def roundedSize (virtual_size : BitVec 32) : Nat :=
  if virtual_size.toNat % lxPageSize ≠ 0 then
    (virtual_size.toNat + (lxPageSize - virtual_size.toNat % lxPageSize)) % addresses
  else virtual_size.toNat

/-- An object needs an alias that 16-bit code can use. -/
def LxObjectTableEntry.needs_1616_alias (obj : LxObjectTableEntry) : Bool :=
  obj.object_flags &&& 0x1000#32 ≠ 0

/-- Mapping the memory of an object. -/
def mapObject (image : PagedImage) (mmap : Mmap) (i : Nat) (obj : LxObjectTableEntry) :
    MapOutcome :=
  let vsize := roundedSize obj.virtual_size
  if obj.needs_1616_alias ∧ 0x10000 < vsize then .failed
  else
    let vsize :=
      if obj.needs_1616_alias ∧ image.isDLL then (vsize + 0x10000) % addresses else vsize
    let base := if image.isDLL then 0 else obj.reloc_base_addr.toNat
    match mmap i base vsize with
    | none => .failed
    | some mmapaddr =>
      if obj.needs_1616_alias ∧ mmapaddr % 0x10000 ≠ 0 then
        if image.isDLL then
          let diff := 0x10000 - mmapaddr % 0x10000
          .mapped ⟨mmapaddr, vsize, mmapaddr + diff, uint32Sub vsize diff⟩
        else .aborted
      else .mapped ⟨mmapaddr, vsize, mmapaddr, vsize⟩

/-- What filling a page, or all pages, comes to. -/
inductive PageOutcome where
  | filled (memory : Memory)
  /-- The page cannot be unpacked, or is of an unknown type. -/
  | refused
  /-- A product does not fit into a signed integer. -/
  | overflow
  /-- Unpacking did not keep to its buffers. -/
  | outside

section Pages

variable (image : PagedImage)

/-- The data of a page in the file. -/
def pageData (page : LxObjectPageTableEntry) : List UInt8 :=
  let src := image.data_pages_offset + page.page_data_offset <<< image.page_offset_shift.toNat
  (List.range page.data_size.toNat).map fun index =>
    image.origexe ((src.toNat + index) % addresses)

/-- The data of a page are far from the end of the address space. -/
theorem pageData_fits (page : LxObjectPageTableEntry) :
    0 + (pageData image page).length + 0x1000 ≤ addresses := by
  have small : page.data_size.toNat < 0x10000 := page.data_size.isLt
  simp only [pageData, List.length_map, List.length_range, addresses]
  omega

/-- The data of a page as a region; where they are read from makes no difference. -/
def pageRegion (page : LxObjectPageTableEntry) : Region :=
  ⟨0, pageData image page, pageData_fits image page⟩

/-- Filling a page. -/
def fillPage (memory : Memory) (dst : Nat) (page : LxObjectPageTableEntry) : PageOutcome :=
  let data := pageData image page
  match page.flags.toNat with
  | 0 =>
    let memory := writeMemory memory dst (data.map fun value => ⟨value, true⟩)
    if page.data_size.toNat < lxPageSize then
      .filled (fillMemory memory ((dst + page.data_size.toNat) % addresses)
        (lxPageSize - page.data_size.toNat) 0)
    else .filled memory
  | 1 =>
    match decompressIterated data (data.length + 1) lxPageSize
      (readMemory memory dst lxPageSize) with
    | .returned ret after => if ret = 0 then .refused else .filled (writeMemory memory dst after)
    | .overflow => .overflow
    | _ => .outside
  | 2 | 3 => .filled (fillMemory memory dst lxPageSize 0)
  | 5 =>
    match decompressExePack2 machineInts lxPageSize (pageRegion image page) data.length
      (data.length + 1) (readMemory memory dst lxPageSize) with
    | .returned ret after => if ret = 0 then .refused else .filled (writeMemory memory dst after)
    | _ => .outside
  | _ => .refused

/-- The entry of a page of an object. -/
def objectPage (obj : LxObjectTableEntry) (pagenum : Nat) : LxObjectPageTableEntry :=
  image.object_page_table (obj.page_table_index.toNat - 1 + pagenum)

/-- Filling so many pages from one on. -/
def fillPages (obj : LxObjectTableEntry) : Nat → Nat → Nat → Memory → PageOutcome
  | 0, _, _, memory => .filled memory
  | left + 1, pagenum, dst, memory =>
    match fillPage image memory dst (objectPage image obj pagenum) with
    | .filled memory =>
      fillPages obj left (pagenum + 1) ((dst + lxPageSize) % addresses) memory
    | outcome => outcome

end Pages

/-- What loading an object comes to. -/
inductive ObjectOutcome where
  /-- The object holds resources, which are not loaded. -/
  | skipped
  | failed
  | aborted
  | overflow
  | outside
  /-- The memory is counted from the address of the mapping on. -/
  | loaded (mapping : LxMapping) (memory : Memory)

/-- Loading an object. -/
def loadObject (image : PagedImage) (mmap : Mmap) (i : Nat) (obj : LxObjectTableEntry) :
    ObjectOutcome :=
  if obj.object_flags &&& 0x8#32 ≠ 0 then .skipped
  else
    match mapObject image mmap i obj with
    | .failed => .failed
    | .aborted => .aborted
    | .mapped mapping =>
      -- Nothing is written yet.
      let numPageTableEntries := obj.num_page_table_entries.toNat
      match fillPages image obj numPageTableEntries 0 0 (fun _ => ⟨0, false⟩) with
      | .refused => .failed
      | .overflow => .overflow
      | .outside => .outside
      | .filled memory =>
        let dst := numPageTableEntries * lxPageSize % addresses
        let remain := uint32Sub mapping.vsize dst
        .loaded mapping (if remain ≠ 0 then fillMemory memory dst remain 0 else memory)

/-- Loading the objects of a table from one on, until one fails. -/
def loadObjects (image : PagedImage) (mmap : Mmap) : Nat → List LxObjectTableEntry →
    List ObjectOutcome
  | _, [] => []
  | i, obj :: objects =>
    match loadObject image mmap i obj with
    | .skipped => .skipped :: loadObjects image mmap (i + 1) objects
    | .loaded mapping memory =>
      .loaded mapping memory :: loadObjects image mmap (i + 1) objects
    | outcome => [outcome]

end TwoIne
