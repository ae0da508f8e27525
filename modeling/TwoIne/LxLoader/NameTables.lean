import TwoIne.LxLoader.EntryPasses
import TwoIne.LxLoader.Exports

/-! The export table of an LX module: the entries of its entry table with the names of its name tables. -/

namespace TwoIne

/-- Naming the first export with an ordinal. -/
def nameExport (ordinal : Nat) (name : CStrings.CString) : List LxExport → List LxExport
  | [] => []
  | lxexp :: exports =>
    if lxexp.ordinal = ordinal then { lxexp with name := some name } :: exports
    else lxexp :: nameExport ordinal name exports

/-- The name that so many bytes are stored as, which a zero among them ends. -/
def exportName (bytes : List UInt8) : CStrings.CString :=
  ⟨CStrings.readString (bytes ++ [0]), CStrings.readString_noNul _⟩

/--
Naming exports by a table, up to an entry without a name; the ordinal zero is that of the module.

Each entry takes bytes, so the file ends before the rounds do.
-/
def loadLxNameTable : Nat → List UInt8 → List LxExport → Except TableFault (List LxExport)
  | 0, _, _ => .error .outside
  | _ + 1, [], _ => .error .outside
  | rounds + 1, namelen :: name_table, exports =>
    if namelen = 0 then return exports
    else if name_table.length < namelen.toNat then .error .outside
    else do
      let (ordinal, rest) ← readNumber 2 (name_table.drop namelen.toNat)
      if ordinal = 0 then loadLxNameTable rounds rest exports
      else
        let name := exportName (name_table.take namelen.toNat)
        loadLxNameTable rounds rest (nameExport ordinal name exports)

/-- Naming exports by the table at some offset, if the module has one. -/
def nameExports (there : Bool) (file : List UInt8) (offset : Nat) (exports : List LxExport) :
    Except TableFault (List LxExport) :=
  if there then loadLxNameTable (file.length + 1) (file.drop offset) exports else .ok exports

/-- The fields of the header that say where the entries and their names are. -/
structure LxNameHeader where
  entry_table_offset : Nat
  resident_name_table_offset : Nat
  non_resident_name_table_offset : Nat
  non_resident_name_table_len : Nat
  deriving DecidableEq, Repr

/-- Whether there is a table of resident names. -/
def LxNameHeader.hasResident (lx : LxNameHeader) : Bool := lx.resident_name_table_offset ≠ 0

/-- Whether there is a table of names that are not resident. -/
def LxNameHeader.hasNonResident (lx : LxNameHeader) : Bool :=
  lx.non_resident_name_table_offset ≠ 0 && lx.non_resident_name_table_len ≠ 0

/-- An export, whose address lies in one of the objects of the module. -/
def lxExport (mmaps : List LxMmaps) (entry : LxEntryPoint) : Option LxExport :=
  (mmaps[entry.objidx.toNat]?).map fun object =>
    ⟨entry.ordinal.toNat, none, (object.addr + entry.offset) % 2 ^ 32, some object⟩

/--
Setting up the exports of a module: its entries, and the names in both of its tables.

The table that is not resident is found from the start of the whole file on.
-/
def loadExportTable (origexe exe : List UInt8) (lx : LxNameHeader) (mmaps : List LxMmaps) :
    Except TableFault ExportTable := do
  let passes ← loadLxEntries exe lx.entry_table_offset
  match passes.exports.mapM (lxExport mmaps) with
  | none => .error .outside
  | some exports =>
    let exports ← nameExports lx.hasResident exe lx.resident_name_table_offset exports
    let exports ← nameExports lx.hasNonResident origexe lx.non_resident_name_table_offset exports
    return ⟨false, exports⟩

end TwoIne
