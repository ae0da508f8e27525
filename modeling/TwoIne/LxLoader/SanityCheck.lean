import TwoIne.LxLoader.EntryTable
import TwoIne.LxLoader.LxHeader

/-! Whether a file is a module at all, as the loader and lx_dump check it. -/

namespace TwoIne

/-- The fields of the header of an NE module with their sizes in bytes, in their order. -/
def neHeaderFields : List (String × Nat) := [
  ("magic_n", 1), ("magic_e", 1), ("linker_version", 1), ("linker_revision", 1),
  ("entry_table_offset", 2), ("entry_table_size", 2), ("crc32", 4), ("module_flags", 2),
  ("auto_data_segment", 2), ("dynamic_heap_size", 2), ("stack_size", 2), ("reg_ip", 2),
  ("reg_cs", 2), ("reg_sp", 2), ("reg_ss", 2), ("num_segment_table_entries", 2),
  ("num_module_ref_table_entries", 2), ("non_resident_name_table_size", 2),
  ("segment_table_offset", 2), ("resource_table_offset", 2), ("resident_name_table_offset", 2),
  ("module_reference_table_offset", 2), ("imported_names_table_offset", 2),
  ("non_resident_name_table_offset", 4), ("num_movable_entries", 2),
  ("sector_alignment_shift_count", 2), ("num_resource_entries", 2), ("exe_type", 1),
  ("os2_exe_flags", 1), ("reserved", 8)]

/-- The size of the header of an NE module. -/
def neHeaderSize : Nat := fieldsSize neHeaderFields

/-- The offset of one of some fields. -/
def fieldOffset (fields : List (String × Nat)) (field : String) : Nat :=
  fieldsSize (fields.takeWhile fun entry => entry.1 ≠ field)

/-- The size of one of some fields. -/
def fieldSize (fields : List (String × Nat)) (field : String) : Nat :=
  ((fields.find? fun entry => entry.1 = field).map Prod.snd).getD 0

/-- A check of a field: the text that is printed for a value that is refused. -/
structure FieldCheck where
  field : String
  refuses : Nat → Option String

/-- Checking fields of a header one after the other, up to the first that is refused. -/
def runChecks (file : List UInt8) (exe : Nat) (fields : List (String × Nat)) :
    List FieldCheck → Except TableFault (Option String)
  | [] => return none
  | check :: checks => do
    let value ← readNumber (fieldSize fields check.field)
      (file.drop (exe + fieldOffset fields check.field))
    match check.refuses value.1 with
    | some text => return some text
    | none => runChecks file exe fields checks

/-- The checks of the header of an LX module that the loader and lx_dump share. -/
def lxChecks (what version : String) : List FieldCheck := [
  ⟨"byte_order", fun value =>
    if value ≠ 0 then some (what ++ " is not little-endian!\n") else none⟩,
  ⟨"word_order", fun value =>
    if value ≠ 0 then some (what ++ " is not little-endian!\n") else none⟩,
  ⟨"lx_version", fun value =>
    if value ≠ 0 then some (what ++ " is unknown " ++ version ++ " (" ++ toString value ++ ")\n")
    else none⟩,
  ⟨"cpu_type", fun value =>
    if value > 3 then some (what ++ " needs unknown CPU type (" ++ toString value ++ ")\n")
    else none⟩,
  ⟨"os_type", fun value =>
    if value ≠ 1 then some (what ++ " needs unknown OS type (" ++ toString value ++ ")\n")
    else none⟩,
  ⟨"page_size", fun value =>
    if value ≠ 4096 then some (what ++ " page size isn't 4096 (" ++ toString value ++ ")\n")
    else none⟩]

/-- The check of the type of an NE module. -/
def neChecks (what : String) : List FieldCheck := [
  ⟨"exe_type", fun value =>
    if value > 1 then
      some ("Not an OS/2 NE " ++ what ++ " file (exe_type is " ++ toString value ++ ", not 1)\n")
    else none⟩]

/-- Checking a header that must be shorter than what is left of the file. -/
def sanityCheckHeader (fields : List (String × Nat)) (checks : List FieldCheck)
    (file : List UInt8) (exe : Nat) (exelen : BitVec 32) : Except TableFault (Option String) :=
  if exelen.toNat ≤ fieldsSize fields then return some "not an OS/2 EXE\n"
  else runChecks file exe fields checks

/-- Checking the header of an LX module; a module may be flagged as not loadable, too. -/
def sanityCheckLxModule : List UInt8 → Nat → BitVec 32 → Except TableFault (Option String) :=
  sanityCheckHeader lxHeaderFields (lxChecks "Module" "LX version" ++ [⟨"module_flags", fun value =>
    if value &&& 0x2000 ≠ 0 then some "Module is flagged as not-loadable\n" else none⟩])

/-- Checking the header of an NE module. -/
def sanityCheckNeModule : List UInt8 → Nat → BitVec 32 → Except TableFault (Option String) :=
  sanityCheckHeader neHeaderFields (neChecks "module")

/-- Checking the header of an LX module before it is dumped. -/
def sanityCheckLxExe : List UInt8 → Nat → BitVec 32 → Except TableFault (Option String) :=
  sanityCheckHeader lxHeaderFields (lxChecks "Program" "LX EXE version")

/-- Checking the header of an NE module before it is dumped. -/
def sanityCheckNeExe : List UInt8 → Nat → BitVec 32 → Except TableFault (Option String) :=
  sanityCheckHeader neHeaderFields (neChecks "EXE")

/--
What a check leaves behind: where the header is in the file, how many bytes are left from there,
which header it is, and the text that is printed if the file is refused.
-/
structure SanityAnswer where
  exe : Nat
  exelen : BitVec 32
  is_lx : Bool
  refused : Option String
  deriving DecidableEq, Repr

/-- Checking a header by its kind, which its first two bytes tell. -/
def sanityCheckMagic (notOs2 : String)
    (checkLx checkNe : List UInt8 → Nat → BitVec 32 → Except TableFault (Option String))
    (file : List UInt8) (is_lx : Bool) (exe : Nat) (exelen : BitVec 32) :
    Except TableFault SanityAnswer := do
  let magic0 ← readNumber 1 (file.drop exe)
  -- The second byte is not looked at behind a first one that is wrong.
  if magic0.1 = 0x4C then
    let magic1 ← readNumber 1 (file.drop (exe + 1))
    if magic1.1 = 0x58 then
      let refused ← checkLx file exe exelen
      return ⟨exe, exelen, true, refused⟩
    else return ⟨exe, exelen, is_lx, some notOs2⟩
  else if magic0.1 = 0x4E then
    let magic1 ← readNumber 1 (file.drop (exe + 1))
    if magic1.1 = 0x45 then
      let refused ← checkNe file exe exelen
      return ⟨exe, exelen, false, refused⟩
    else return ⟨exe, exelen, is_lx, some notOs2⟩
  else return ⟨exe, exelen, is_lx, some notOs2⟩

/-- Finding the header behind the DOS stub, and checking it. -/
def sanityCheckFile (notOs2 : String)
    (checkLx checkNe : List UInt8 → Nat → BitVec 32 → Except TableFault (Option String))
    (file : List UInt8) (is_lx : Bool) : Except TableFault SanityAnswer :=
  let exelen := BitVec.ofNat 32 file.length
  if exelen.toNat < 62 then return ⟨0, exelen, is_lx, some notOs2⟩
  else do
    let header_offset ← readNumber 4 (file.drop 0x3C)
    sanityCheckMagic notOs2 checkLx checkNe file is_lx header_offset.1
      (exelen - BitVec.ofNat 32 header_offset.1)

/-- The check of the loader. -/
def sanityCheckModule : List UInt8 → Bool → Except TableFault SanityAnswer :=
  sanityCheckFile "not an OS/2 module\n" sanityCheckLxModule sanityCheckNeModule

/-- The check of lx_dump. -/
def sanityCheckExe : List UInt8 → Bool → Except TableFault SanityAnswer :=
  sanityCheckFile "not an OS/2 EXE\n" sanityCheckLxExe sanityCheckNeExe

end TwoIne
