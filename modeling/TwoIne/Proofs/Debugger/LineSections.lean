import TwoIne.Proofs.Debugger.LineHeaders
import TwoIne.Proofs.Debugger.LinePrograms

/-!
What the two passes make of a line section that is well formed.

The first pass counts, and the second one stores the rows of its machine with the file numbers of
the table.
-/

namespace TwoIne

open Regions Leb128 DwarfLines

/-- Whether all numbers in the programs of some units fit in a word. -/
def ShortNumbers (units : List LineUnit) : Prop :=
  ∀ unit ∈ units, ∀ op ∈ unit.program, LineOp.Shorts op

instance (units : List LineUnit) : Decidable (ShortNumbers units) :=
  inferInstanceAs (Decidable (∀ unit ∈ units, ∀ op ∈ unit.program, LineOp.Shorts op))

/-- The rows that the first pass counts. -/
def countedRows (units : List LineUnit) : Nat :=
  (units.flatMap LineUnit.program).countP LineOp.counted

/-- The names of the files of some units. -/
def fileNamesOf (units : List LineUnit) : List (List UInt8) :=
  (units.flatMap LineUnit.files).map FileEntry.name

/-- The rows of a unit as they are stored, with a number of files stored before. -/
def unitEntries (before : Nat) (unit : LineUnit) : List DwarfLineEntry :=
  (rowsWith (LineOp.runParsed unit.header) {} unit.program).map
    (entryOf (mapOf before (storedCount before unit.files.length)))

/-- The rows of some units as they are stored, with a number of files stored before. -/
def sectionEntries : Nat → List LineUnit → List DwarfLineEntry
  | _, [] => []
  | before, unit :: rest =>
    unitEntries before unit ++ sectionEntries (min 256 (before + unit.files.length)) rest

/-- Whether the first unit with files has fewer of them than its map has places. -/
def FirstFilesFit : List LineUnit → Prop
  | [] => True
  | unit :: rest => if unit.files = [] then FirstFilesFit rest else unit.files.length < 256

instance : ∀ units, Decidable (FirstFilesFit units)
  | [] => .isTrue trivial
  | unit :: rest =>
    haveI := instDecidableFirstFilesFit rest
    inferInstanceAs
      (Decidable (if unit.files = [] then FirstFilesFit rest else unit.files.length < 256))

variable {sec : Region} {cursor steps : Nat} {unit : LineUnit} {rest : List UInt8}

/-! The header of a unit -/

/-- The bytes of the header behind the counts of the operands. -/
def headerTables (unit : LineUnit) : List UInt8 :=
  unit.directories.flatMap (· ++ [0]) ++ 0 :: (unit.files.flatMap FileEntry.bytes ++ [0])

/-- The number of bytes of a unit. -/
theorem length_unitBytes (unit : LineUnit) : unit.bytes.length = 4 + unit.length := by
  simp only [LineUnit.bytes, LineUnit.length, List.length_append, le32, le16, List.length_cons,
    List.length_nil]
  omega

/-- What the passes find of a unit in the section. -/
structure UnitHeld (sec : Region) (cursor : Nat) (unit : LineUnit) (rest : List UInt8) :
    Prop where
  moved : ∀ n ≤ 4 + unit.length, advance cursor n = cursor + n
  finish : cursor + 4 + unit.length ≤ sec.finish
  length : readU32Le sec cursor = .ok unit.length
  version : readU16Le sec (advance cursor 4) = .ok unit.header.version.toNat
  prologue : readU32Le sec (advance cursor 6) = .ok unit.prologueBytes.length
  minInst : readByte sec (advance cursor 10) = .ok unit.header.minInstLength
  lineBase : readByte sec (advance cursor 12) = .ok unit.header.lineBase
  lineRange : readByte sec (advance cursor 13) = .ok unit.header.lineRange
  opcodeBase : readByte sec (advance cursor 14) = .ok unit.header.opcodeBase
  counts : Holds sec (advance cursor 15) unit.header.standardOpcodeLengths
  directories : unitDirectories cursor unit.header.opcodeBase.toNat =
    cursor + 15 + unit.header.standardOpcodeLengths.length
  tables : Holds sec (cursor + 15 + unit.header.standardOpcodeLengths.length)
    (headerTables unit ++ (unit.programBytes ++ rest))
  program : Holds sec (cursor + (10 + unit.prologueBytes.length)) (unit.programBytes ++ rest)

/-- The number of bytes of a header behind its length field. -/
theorem length_prologueBytes (unit : LineUnit) : unit.prologueBytes.length =
    5 + unit.header.standardOpcodeLengths.length + (headerTables unit).length := by
  simp only [LineUnit.prologueBytes, headerTables, List.length_append, List.length_cons,
    List.length_nil]
  omega

/-- The passes find the fields of a unit. -/
theorem unitHeld (holds : Holds sec cursor (unit.bytes ++ rest)) :
    UnitHeld sec cursor unit rest := by
  have size := length_unitBytes unit
  have bound := holds.bound.2
  have fits := sec.fits
  have moved : ∀ n ≤ 4 + unit.length, advance cursor n = cursor + n := fun n within =>
    holds.advance (by rw [List.length_append]; omega)
  simp only [List.length_append, Region.finish, addresses] at bound fits
  have small : unit.length < 2 ^ 32 := by omega
  have parts : unit.length = 6 + unit.prologueBytes.length + unit.programBytes.length := rfl
  -- The fields stand one behind the other.
  have length_at : Holds sec cursor (le32 (BitVec.ofNat 32 unit.length) ++ (le16 unit.header.version
      ++ (le32 (BitVec.ofNat 32 unit.prologueBytes.length) ++ (unit.prologueBytes ++
        (unit.programBytes ++ rest))))) := by simpa [LineUnit.bytes] using holds
  have version_at : Holds sec (cursor + 4) _ := length_at.behind
  have prologue_at : Holds sec (cursor + 6) _ := version_at.behind
  have fields_at : Holds sec (cursor + 10) _ := prologue_at.behind
  have program_at := fields_at.behind
  have fields : unit.prologueBytes = unit.header.minInstLength :: unit.header.defaultIsStmt ::
      unit.header.lineBase :: unit.header.lineRange :: unit.header.opcodeBase ::
        (unit.header.standardOpcodeLengths ++ headerTables unit) := rfl
  have counts_at : Holds sec (cursor + 15) (unit.header.standardOpcodeLengths ++
      (headerTables unit ++ (unit.programBytes ++ rest))) := by
    rw [fields] at fields_at
    simpa using fields_at.tail.tail.tail.tail.tail
  have field : ∀ {n byte}, unit.bytes[n]? = some byte → readByte sec (advance cursor n) = .ok byte :=
    fun found => readByte_at holds (by
      rw [List.getElem?_append_left (List.getElem?_eq_some_iff.mp found).1]
      exact found)
  have read_length := readU32Le_holds length_at
  have read_prologue := readU32Le_holds prologue_at
  rw [BitVec.toNat_ofNat, Nat.mod_eq_of_lt small] at read_length
  rw [BitVec.toNat_ofNat, Nat.mod_eq_of_lt (by omega)] at read_prologue
  have ten := length_prologueBytes unit
  have base := unit.lengths
  refine ⟨moved, by simp only [Region.finish]; omega, read_length, ?_, ?_, field rfl, field rfl,
    field rfl, field rfl, ?_, ?_, counts_at.behind, ?_⟩
  · rw [moved 4 (by omega)]
    exact readU16Le_holds version_at
  · rw [moved 6 (by omega)]
    exact read_prologue
  · rw [moved 15 (by omega)]
    exact counts_at.front
  · rw [unitDirectories, moved _ (by omega)]
    omega
  · rw [← Nat.add_assoc]
    exact program_at

/-! The steps that the loops need -/

/-- Lists of pieces with a byte each are no longer than the bytes. -/
theorem length_le_flatMap {α : Type} {pieces : List α} {bytes : α → List UInt8}
    (some_byte : ∀ piece ∈ pieces, bytes piece ≠ []) :
    pieces.length ≤ (pieces.flatMap bytes).length := by
  induction pieces with
  | nil => simp
  | cons piece pieces ih =>
    have first := List.length_pos_of_ne_nil (some_byte piece List.mem_cons_self)
    have later := ih fun piece member => some_byte piece (List.mem_cons_of_mem _ member)
    simp only [List.length_cons, List.flatMap_cons, List.length_append]
    omega

/-- Every operation has a byte. -/
theorem op_bytes_ne_nil (op : LineOp) : op.bytes ≠ [] := by
  unfold LineOp.bytes
  split <;> simp

/-- What a unit has of directories, files and operations is no more than its bytes. -/
theorem unit_steps (unit : LineUnit) : unit.directories.length < 4 + unit.length ∧
    unit.files.length < 4 + unit.length ∧ unit.program.length < 4 + unit.length := by
  have directories : unit.directories.length ≤
      (unit.directories.flatMap (· ++ [0])).length := length_le_flatMap (by simp)
  have files : unit.files.length ≤ (unit.files.flatMap FileEntry.bytes).length :=
    length_le_flatMap (by simp [FileEntry.bytes])
  have program : unit.program.length ≤ unit.programBytes.length :=
    length_le_flatMap fun op _ => op_bytes_ne_nil op
  have prologue := length_prologueBytes unit
  simp only [headerTables, List.length_append, List.length_cons] at prologue
  simp only [LineUnit.length]
  omega

/-! Units -/

/-- The names of the directories and of the files of a unit are strings. -/
theorem unit_named (unit : LineUnit) : (∀ name ∈ unit.directories, name ≠ [] ∧ 0 ∉ name) ∧
    ∀ file ∈ unit.files, file.name ≠ [] ∧ 0 ∉ file.name :=
  ⟨fun name member => unit.named name (List.mem_append_left _ member), fun _ member =>
    unit.named _ (List.mem_append_right _ (List.mem_map_of_mem member))⟩

/-- Where the files of a unit are found, behind its directories. -/
theorem unit_files (held : UnitHeld sec cursor unit rest) (enough : 4 + unit.length ≤ steps) :
    ∃ p, skipDirectories sec (advance cursor (4 + unit.length)) steps
        (unitDirectories cursor unit.header.opcodeBase.toNat) = .ok p ∧
      Holds sec p (unit.files.flatMap FileEntry.bytes ++ 0 :: (unit.programBytes ++ rest)) ∧
      p + (unit.files.flatMap FileEntry.bytes).length + 1 ≤ advance cursor (4 + unit.length) := by
  have size := length_prologueBytes unit
  have parts : unit.length = 6 + unit.prologueBytes.length + unit.programBytes.length := rfl
  have tables := held.tables
  simp only [headerTables, List.length_append, List.length_cons, List.length_nil,
    List.append_assoc, List.cons_append, List.nil_append] at tables size
  have few := (unit_steps unit).1
  have upto : cursor + 15 + unit.header.standardOpcodeLengths.length +
      (unit.directories.flatMap (· ++ [0])).length + 1 ≤ advance cursor (4 + unit.length) := by
    rw [held.moved _ (Nat.le_refl _)]
    omega
  have skipped := skipDirectories_holds (unit_named unit).1 (Nat.lt_of_lt_of_le few enough) tables
    upto
  refine ⟨_, by rw [held.directories]; exact skipped, ?_, ?_⟩
  · have split : Holds sec (cursor + 15 + unit.header.standardOpcodeLengths.length)
        ((unit.directories.flatMap (· ++ [0]) ++ [0]) ++
          (unit.files.flatMap FileEntry.bytes ++ 0 :: (unit.programBytes ++ rest))) := by
      simpa using tables
    simpa using split.behind
  · rw [held.moved _ (Nat.le_refl _)]
    omega

/-- The first pass counts the files of a unit. -/
theorem countUnitFiles_holds (held : UnitHeld sec cursor unit rest)
    (enough : 4 + unit.length ≤ steps) :
    countUnitFiles sec steps cursor unit.length = .ok unit.files.length := by
  obtain ⟨p, skipped, files, within⟩ := unit_files held enough
  have few := (unit_steps unit).2.1
  have counted : countFiles sec _ steps 0 p = _ :=
    countFiles_holds (unit_named unit).2 (Nat.lt_of_lt_of_le few enough) files within
  simp only [countUnitFiles, held.version, held.prologue, held.opcodeBase, bind, Except.bind,
    skipped, counted, Nat.zero_add]

/-- The second pass stores the files of a unit, unless there are too many for its map. -/
theorem parseUnitFiles_holds (held : UnitHeld sec cursor unit rest)
    (enough : 4 + unit.length ≤ steps) {names : List (List UInt8)} {slots : Nat}
    (bounded : names.length ≤ 256) (room : names.length + unit.files.length ≤ slots) :
    parseUnitFiles sec steps cursor unit.length names slots =
      if names.length = 0 ∧ 256 ≤ unit.files.length then .error .overrun
      else .ok ⟨names ++ (unit.files.map FileEntry.name).take (256 - names.length), slots,
        mapOf names.length (storedCount names.length unit.files.length)⟩ := by
  obtain ⟨p, skipped, files, within⟩ := unit_files held enough
  have few := (unit_steps unit).2.1
  have stored : parseFiles sec _ steps 0 p ⟨names, slots, mapOf names.length 0⟩ = _ :=
    parseFiles_holds (unit_named unit).2 (Nat.lt_of_lt_of_le few enough) files within rfl
      (by omega) (by omega) (by omega)
  simp only [Nat.zero_add, Nat.add_zero] at stored
  simp only [parseUnitFiles, held.prologue, held.opcodeBase, bind, Except.bind, skipped,
    mapOf_zero names.length]
  exact stored

/-- A turn of the first pass counts the rows and the files of a unit. -/
theorem countUnits_step (held : UnitHeld sec cursor unit rest) (enough : 4 + unit.length ≤ steps)
    (left : Nat) (totals : Nat × Nat) :
    countUnits sec steps (left + 1) cursor totals =
      if ∀ op ∈ unit.program, LineOp.Shorts op then
        countUnits sec steps left (cursor + (4 + unit.length))
          (totals.1 + unit.program.countP LineOp.counted, totals.2 + unit.files.length)
      else .error .shift := by
  obtain ⟨lineCount, fileCount⟩ := totals
  have finish := held.finish
  have four : advance cursor 4 = cursor + 4 := held.moved 4 (by omega)
  have next : advance cursor (4 + unit.length) = cursor + (4 + unit.length) :=
    held.moved _ (Nat.le_refl _)
  have parts : unit.length = 6 + unit.prologueBytes.length + unit.programBytes.length := rfl
  have start : advance cursor (10 + unit.prologueBytes.length) =
      cursor + (10 + unit.prologueBytes.length) := held.moved _ (by omega)
  have inside : advance cursor 4 ≤ sec.finish := by omega
  have proceeds : ¬ (unit.length = 0 ∨ sec.finish < advance cursor (4 + unit.length)) := by omega
  have few := (unit_steps unit).2.2
  have behind : cursor + (10 + unit.prologueBytes.length) + unit.programBytes.length =
      advance cursor (4 + unit.length) := by omega
  have counted := countRows_holds unit.base unit.valid held.counts held.program behind
    (Nat.lt_of_lt_of_le few enough) lineCount
  rw [countUnits, if_pos inside, held.length]
  simp only [bind, Except.bind, if_neg proceeds, pure, Except.pure, held.opcodeBase,
    countUnitFiles_holds held enough, held.prologue, start, counted]
  by_cases short : ∀ op ∈ unit.program, LineOp.Shorts op
  · simp only [if_pos short, next]
  · simp only [if_neg short]

/-- The rows of a unit as they are stored are those of its machine. -/
theorem length_unitEntries (before : Nat) (unit : LineUnit) :
    (unitEntries before unit).length = unit.program.countP LineOp.putsRow := by
  rw [unitEntries, List.length_map, length_rowsWith]

/-- A turn of the second pass stores the files and the rows of a unit. -/
theorem parseUnit_holds (held : UnitHeld sec cursor unit rest) (enough : 4 + unit.length ≤ steps)
    (short : ∀ op ∈ unit.program, LineOp.Shorts op) {names : List (List UInt8)} {slots total : Nat}
    {rows : List DwarfLineEntry} (bounded : names.length ≤ 256)
    (room : names.length + unit.files.length ≤ slots)
    (fits : rows.length + (unitEntries names.length unit).length ≤ total) :
    parseUnit sec steps cursor unit.length total ⟨names, slots, filled total rows⟩ =
      if names.length = 0 ∧ 256 ≤ unit.files.length then .error .overrun
      else .ok ⟨names ++ (unit.files.map FileEntry.name).take (256 - names.length), slots,
        filled total (rows ++ unitEntries names.length unit)⟩ := by
  have files := parseUnitFiles_holds held enough bounded room
  simp only [parseUnit, held.version, held.prologue, held.minInst, held.lineBase, held.lineRange,
    held.opcodeBase, bind, Except.bind, files]
  by_cases overrun : names.length = 0 ∧ 256 ≤ unit.files.length
  · simp only [if_pos overrun]
  · simp only [if_neg overrun]
    have parts : unit.length = 6 + unit.prologueBytes.length + unit.programBytes.length := rfl
    have start : advance cursor (10 + unit.prologueBytes.length) =
        cursor + (10 + unit.prologueBytes.length) := held.moved _ (by omega)
    have behind : cursor + (10 + unit.prologueBytes.length) + unit.programBytes.length =
        advance cursor (4 + unit.length) := by
      rw [held.moved _ (Nat.le_refl _)]
      omega
    have few := (unit_steps unit).2.2
    have size := length_mapOf names.length (storedCount names.length unit.files.length)
    have fit : rows.length + (rowsWith (LineOp.runParsed unit.header) {} unit.program).length ≤
        total := by
      rw [length_unitEntries] at fits
      rw [length_rowsWith]
      exact fits
    have stored := parseProgram_holds size unit.base unit.range unit.valid
      short held.counts held.program behind (Nat.lt_of_lt_of_le few enough) fit
    rw [start]
    change (parseProgram sec (programHeader unit.header (advance cursor 15)
      (mapOf names.length (storedCount names.length unit.files.length))) _ total steps _ {}
        (filled total rows)).bind _ = _
    rw [stored]
    rfl

/-! Sections -/

/-- A section holds its units one behind the other, up to its end. -/
structure UnitsHeld (sec : Region) (cursor : Nat) (units : List LineUnit) : Prop where
  holds : Holds sec cursor (units.flatMap LineUnit.bytes)
  finish : cursor + (units.flatMap LineUnit.bytes).length = sec.finish

/-- Behind a unit come the others. -/
theorem UnitsHeld.cons {units : List LineUnit} (held : UnitsHeld sec cursor (unit :: units)) :
    UnitHeld sec cursor unit (units.flatMap LineUnit.bytes) ∧
      UnitsHeld sec (cursor + (4 + unit.length)) units := by
  have split : Holds sec cursor (unit.bytes ++ units.flatMap LineUnit.bytes) := by
    simpa using held.holds
  have size := length_unitBytes unit
  have finish := held.finish
  rw [List.flatMap_cons, List.length_append, size] at finish
  have behind := split.behind
  rw [size] at behind
  exact ⟨unitHeld split, behind, by omega⟩

/-- The passes stop at the end of the section. -/
theorem UnitsHeld.stop (held : UnitsHeld sec cursor []) : ¬ advance cursor 4 ≤ sec.finish := by
  have finish := held.finish
  have fits := sec.fits
  simp only [List.flatMap_nil, List.length_nil, Nat.add_zero, Region.finish, addresses] at finish fits
  simp only [advance, Region.finish, addresses]
  omega

/-- A unit is no longer than the section it is in. -/
theorem unit_length_le {units : List LineUnit} (held : UnitsHeld sec cursor (unit :: units)) :
    4 + unit.length ≤ sec.bytes.length := by
  have bound := held.holds.bound
  rw [List.flatMap_cons, List.length_append, length_unitBytes] at bound
  simp only [Region.finish] at bound
  omega

/-- The first pass counts the rows and the files of a section. -/
theorem countUnits_holds {units : List LineUnit} {left : Nat} (held : UnitsHeld sec cursor units)
    (enough : sec.bytes.length ≤ steps) (turns : units.length < left) (totals : Nat × Nat) :
    countUnits sec steps left cursor totals =
      if ShortNumbers units then
        .ok (totals.1 + countedRows units, totals.2 + (fileNamesOf units).length)
      else .error .shift := by
  -- The units are taken one after the other.
  induction units generalizing cursor left totals with
  | nil =>
    obtain ⟨left, rfl⟩ := Nat.exists_eq_succ_of_ne_zero (Nat.ne_of_gt (Nat.zero_lt_of_lt turns))
    have all : ShortNumbers [] := by simp [ShortNumbers]
    rw [countUnits, if_neg held.stop, if_pos all]
    simp [countedRows, fileNamesOf]
  | cons unit units ih =>
    obtain ⟨left, rfl⟩ := Nat.exists_eq_succ_of_ne_zero (Nat.ne_of_gt (Nat.zero_lt_of_lt turns))
    have within := unit_length_le held
    rw [countUnits_step held.cons.1 (by omega),
      ih held.cons.2 (by simpa using turns)]
    have all_iff : ShortNumbers (unit :: units) ↔
        (∀ op ∈ unit.program, LineOp.Shorts op) ∧ ShortNumbers units := by
      simp [ShortNumbers]
    by_cases short : ∀ op ∈ unit.program, LineOp.Shorts op
    · rw [if_pos short]
      by_cases later : ShortNumbers units
      · rw [if_pos later, if_pos (all_iff.mpr ⟨short, later⟩)]
        simp only [countedRows, fileNamesOf, List.flatMap_cons, List.countP_append,
          List.length_map, List.length_append, Nat.add_assoc]
      · rw [if_neg later, if_neg fun all => later (all_iff.mp all).2]
    · rw [if_neg short, if_neg fun all => short (all_iff.mp all).1]

/-- A section puts out a row for each operation that does. -/
theorem length_sectionEntries (before : Nat) (units : List LineUnit) :
    (sectionEntries before units).length =
      (units.flatMap LineUnit.program).countP LineOp.putsRow := by
  induction units generalizing before with
  | nil => rfl
  | cons unit units ih =>
    rw [sectionEntries, List.length_append, ih, length_unitEntries, List.flatMap_cons,
      List.countP_append]

/-- The rows of a section as they are stored are no more than those counted. -/
theorem length_sectionEntries_le (before : Nat) (units : List LineUnit) :
    (sectionEntries before units).length ≤ countedRows units := by
  rw [length_sectionEntries, countedRows]
  exact List.countP_mono_left fun _ _ => counted_of_putsRow

/-- The second pass stores the files and the rows of a section. -/
theorem parseUnits_holds {units : List LineUnit} {left total slots : Nat}
    {names : List (List UInt8)} {rows : List DwarfLineEntry} (held : UnitsHeld sec cursor units)
    (enough : sec.bytes.length ≤ steps) (turns : units.length < left)
    (short : ShortNumbers units) (bounded : names.length ≤ 256)
    (room : names.length + (fileNamesOf units).length ≤ slots)
    (fits : rows.length + (sectionEntries names.length units).length ≤ total) :
    parseUnits sec steps total left cursor ⟨names, slots, filled total rows⟩ =
      if names.length = 0 ∧ ¬ FirstFilesFit units then .error .overrun
      else .ok ⟨names ++ (fileNamesOf units).take (256 - names.length), slots,
        filled total (rows ++ sectionEntries names.length units)⟩ := by
  -- The units are taken one after the other, behind the files and the rows stored so far.
  induction units generalizing cursor left names rows with
  | nil =>
    obtain ⟨left, rfl⟩ := Nat.exists_eq_succ_of_ne_zero (Nat.ne_of_gt (Nat.zero_lt_of_lt turns))
    have fit : ¬ (names.length = 0 ∧ ¬ FirstFilesFit []) := by simp [FirstFilesFit]
    rw [parseUnits, if_neg held.stop, if_neg fit]
    simp [fileNamesOf, sectionEntries]
  | cons unit units ih =>
    obtain ⟨left, rfl⟩ := Nat.exists_eq_succ_of_ne_zero (Nat.ne_of_gt (Nat.zero_lt_of_lt turns))
    have within := unit_length_le held
    have unit_held := held.cons.1
    have finish := unit_held.finish
    have four : advance cursor 4 = cursor + 4 := unit_held.moved 4 (by omega)
    have next : advance cursor (4 + unit.length) = cursor + (4 + unit.length) :=
      unit_held.moved _ (Nat.le_refl _)
    have parts : unit.length = 6 + unit.prologueBytes.length + unit.programBytes.length := rfl
    have inside : advance cursor 4 ≤ sec.finish := by omega
    have proceeds : ¬ (unit.length = 0 ∨ sec.finish < advance cursor (4 + unit.length)) := by omega
    have all_names : fileNamesOf (unit :: units) =
        unit.files.map FileEntry.name ++ fileNamesOf units := by simp [fileNamesOf]
    rw [all_names, List.length_append, List.length_map] at room
    rw [sectionEntries, List.length_append] at fits
    have parsed : parseUnit sec steps cursor unit.length total ⟨names, slots, filled total rows⟩ = _ :=
      parseUnit_holds unit_held (by omega)
        (fun op member => short unit List.mem_cons_self op member) bounded (by omega) (by omega)
    rw [parseUnits, if_pos inside, unit_held.length]
    simp only [bind, Except.bind, if_neg proceeds, parsed]
    by_cases overrun : names.length = 0 ∧ 256 ≤ unit.files.length
    · -- The map of the first unit with files has no place for all of them.
      have some_file : unit.files ≠ [] := by
        rintro none
        simp [none] at overrun
      have unfit : ¬ FirstFilesFit (unit :: units) := by
        rw [FirstFilesFit, if_neg some_file]
        omega
      simp only [if_pos overrun, if_pos (And.intro overrun.1 unfit)]
    · simp only [if_neg overrun, next]
      have stored : (names ++ (unit.files.map FileEntry.name).take (256 - names.length)).length =
          min 256 (names.length + unit.files.length) := by
        simp only [List.length_append, List.length_take, List.length_map]
        omega
      rw [ih held.cons.2 (by simpa using turns)
        (fun unit member => short unit (List.mem_cons_of_mem _ member)) (by omega) (by omega)
        (by rw [stored, List.length_append]; omega)]
      have fit_iff : ((names ++ (unit.files.map FileEntry.name).take
          (256 - names.length)).length = 0 ∧ ¬ FirstFilesFit units) ↔
            names.length = 0 ∧ ¬ FirstFilesFit (unit :: units) := by
        rw [stored, FirstFilesFit]
        by_cases none : unit.files = []
        · rw [if_pos none, none]
          simp only [List.length_nil, Nat.add_zero]
          constructor
          · exact fun both => ⟨by omega, both.2⟩
          · exact fun both => ⟨by omega, both.2⟩
        · have some_files := List.length_pos_of_ne_nil none
          rw [if_neg none]
          omega
      have taken : names ++ (unit.files.map FileEntry.name).take (256 - names.length) ++
          (fileNamesOf units).take (256 - (names ++ (unit.files.map FileEntry.name).take
            (256 - names.length)).length) =
          names ++ (fileNamesOf (unit :: units)).take (256 - names.length) := by
        rw [stored, all_names, List.take_append, List.length_map, List.append_assoc]
        congr 3
        omega
      simp only [fit_iff, taken]
      rw [stored, sectionEntries, List.append_assoc]

/-! The whole reader -/

/-- Whether the second pass is reached: there are files, and memory for the arrays. -/
def Stores (units : List LineUnit) (memory : LineMemory) : Prop :=
  fileNamesOf units ≠ [] ∧ memory.files = true ∧ (0 < countedRows units → memory.lines = true)

instance (units : List LineUnit) (memory : LineMemory) : Decidable (Stores units memory) :=
  inferInstanceAs (Decidable (_ ∧ _ ∧ _))

/-- The table that is made of a section. -/
def parsedSection (units : List LineUnit) : ParsedLines where
  ret := 0
  lines := sectionEntries 0 units ++
    List.replicate (countedRows units - (sectionEntries 0 units).length) ({} : DwarfLineEntry)
  fileNames := (fileNamesOf units).take 256
  fileSlots := (fileNamesOf units).length
  stored := (sectionEntries 0 units).length

/-- A section holds all its units. -/
theorem unitsHeld_all (s : LineSection) : UnitsHeld s.region s.region.base s.units :=
  ⟨holds_all s.region, rfl⟩

/-- A section has a byte for each unit. -/
theorem length_units_le (s : LineSection) : s.units.length ≤ s.region.bytes.length :=
  length_le_flatMap fun unit _ none => by
    have size := length_unitBytes unit
    rw [none] at size
    simp at size
    omega

/-- The reader takes the first pass and goes on, unless the section has no units. -/
theorem parseDebugLine_first {s : LineSection} (memory : LineMemory) {steps : Nat}
    (enough : s.region.bytes.length < steps) (some_unit : s.units ≠ []) :
    parseDebugLine (some s.region) memory steps =
      if ShortNumbers s.units then
        if fileNamesOf s.units = [] then .ok { ret := 0 }
        else if !memory.files then .ok { ret := -1 }
        else if 0 < countedRows s.units ∧ !memory.lines then .ok { ret := -1 }
        else (parseUnits s.region steps (countedRows s.units) steps s.region.base
          ⟨[], (fileNamesOf s.units).length, filled (countedRows s.units) []⟩).bind fun t => .ok {
            ret := 0
            lines := t.store.lines
            fileNames := t.names
            fileSlots := t.slots
            stored := t.store.entryIdx }
      else .error .shift := by
  have units_le := length_units_le s
  -- A unit alone is longer than the shortest section that is read.
  have long : ¬ s.region.bytes.length < 10 := by
    obtain ⟨unit, units, split⟩ := List.exists_cons_of_ne_nil some_unit
    have held := unitsHeld_all s
    rw [split] at held
    have within := unit_length_le held
    simp only [LineUnit.length] at within
    omega
  have counted : countUnits s.region steps steps s.region.base (0, 0) = _ :=
    countUnits_holds (unitsHeld_all s) (Nat.le_of_lt enough) (by omega) (0, 0)
  simp only [Nat.zero_add] at counted
  simp only [parseDebugLine, if_neg long, bind, Except.bind, counted]
  by_cases short : ShortNumbers s.units
  · simp only [if_pos short, List.length_eq_zero_iff]
    by_cases none : fileNamesOf s.units = []
    · simp only [if_pos none, pure, Except.pure]
    · simp only [if_neg none, pure, Except.pure]
      cases memory.files with
      | false => simp
      | true =>
        by_cases lines : 0 < countedRows s.units ∧ (!memory.lines) = true
        · simp [lines]
        · simp only [if_neg lines]
          simp [filled]
  · simp only [if_neg short]

/-- A number that is too long stops the reader. -/
theorem parseDebugLine_long {s : LineSection} (memory : LineMemory) {steps : Nat}
    (enough : s.region.bytes.length < steps) (long : ¬ ShortNumbers s.units) :
    parseDebugLine (some s.region) memory steps = .error .shift := by
  have some_unit : s.units ≠ [] := by
    rintro none
    simp [none, ShortNumbers] at long
  rw [parseDebugLine_first memory enough some_unit, if_neg long]

/-- Without files or without memory nothing is stored. -/
theorem parseDebugLine_nothing {s : LineSection} {memory : LineMemory} {steps : Nat}
    (enough : s.region.bytes.length < steps) (short : ShortNumbers s.units)
    (nothing : ¬ Stores s.units memory) :
    ∃ ret, parseDebugLine (some s.region) memory steps = .ok { ret } := by
  by_cases some_unit : s.units = []
  · have small : s.region.bytes.length < 10 := by simp [LineSection.region, some_unit]
    exact ⟨-1, by rw [parseDebugLine, if_pos small]⟩
  · rw [parseDebugLine_first memory enough some_unit, if_pos short]
    by_cases none : fileNamesOf s.units = []
    · exact ⟨0, if_pos none⟩
    · rw [if_neg none]
      cases files : memory.files with
      | false => exact ⟨-1, rfl⟩
      | true =>
        have lines : 0 < countedRows s.units ∧ (!memory.lines) = true := by
          simpa [Stores, none, files] using nothing
        exact ⟨-1, by rw [if_pos lines]; rfl⟩

/-- Otherwise the table is stored, unless the first unit with files overruns its map. -/
theorem parseDebugLine_stores {s : LineSection} {memory : LineMemory} {steps : Nat}
    (enough : s.region.bytes.length < steps) (short : ShortNumbers s.units)
    (stores : Stores s.units memory) :
    parseDebugLine (some s.region) memory steps =
      if FirstFilesFit s.units then .ok (parsedSection s.units) else .error .overrun := by
  obtain ⟨some_file, files, lines⟩ := stores
  have some_unit : s.units ≠ [] := by
    rintro none
    simp [none, fileNamesOf] at some_file
  have enough_memory : ¬ (0 < countedRows s.units ∧ (!memory.lines) = true) := by
    rintro ⟨rows, none⟩
    simp [lines rows] at none
  have turns : s.units.length < steps := Nat.lt_of_le_of_lt (length_units_le s) enough
  have fits : ([] : List DwarfLineEntry).length + (sectionEntries 0 s.units).length ≤
      countedRows s.units := by simpa using length_sectionEntries_le 0 s.units
  have room : ([] : List (List UInt8)).length + (fileNamesOf s.units).length ≤
      (fileNamesOf s.units).length := by simp
  have stored := parseUnits_holds (unitsHeld_all s) (Nat.le_of_lt enough) turns short
    (Nat.zero_le _) room fits
  rw [parseDebugLine_first memory enough some_unit, if_pos short, if_neg some_file,
    if_neg (by simp [files]), if_neg enough_memory, stored]
  by_cases fit : FirstFilesFit s.units
  · rw [if_neg fun both => both.2 fit, if_pos fit]
    rfl
  · rw [if_pos ⟨rfl, fit⟩, if_neg fit]
    rfl

/-- A property of the table that is made of a section, as a condition on the section. -/
theorem parseDebugLine_right_iff (s : LineSection) (memory : LineMemory) {P : ParsedLines → Prop}
    {E : Prop} (empty : ∀ ret, P { ret } ↔ E) :
    (∀ steps, s.region.bytes.length < steps →
        ∃ parsed, parseDebugLine (some s.region) memory steps = .ok parsed ∧ P parsed) ↔
      ShortNumbers s.units ∧ (¬ Stores s.units memory → E) ∧
        (Stores s.units memory → FirstFilesFit s.units ∧ P (parsedSection s.units)) := by
  constructor
  · intro right
    obtain ⟨parsed, ran, holds⟩ := right _ (Nat.lt_succ_self _)
    by_cases short : ShortNumbers s.units
    · refine ⟨short, fun nothing => ?_, fun stores => ?_⟩
      · obtain ⟨ret, none⟩ := parseDebugLine_nothing (Nat.lt_succ_self _) short nothing
        cases ran.symm.trans none
        exact (empty ret).mp holds
      · have stored := parseDebugLine_stores (Nat.lt_succ_self _) short stores
        by_cases fit : FirstFilesFit s.units
        · rw [if_pos fit] at stored
          cases ran.symm.trans stored
          exact ⟨fit, holds⟩
        · rw [if_neg fit] at stored
          cases ran.symm.trans stored
    · cases ran.symm.trans (parseDebugLine_long memory (Nat.lt_succ_self _) short)
  · rintro ⟨short, none, holds⟩ steps enough
    by_cases stores : Stores s.units memory
    · obtain ⟨fit, holds⟩ := holds stores
      refine ⟨parsedSection s.units, ?_, holds⟩
      rw [parseDebugLine_stores enough short stores, if_pos fit]
    · obtain ⟨ret, ran⟩ := parseDebugLine_nothing enough short stores
      exact ⟨_, ran, (empty ret).mpr (none stores)⟩

/-- The rows that were stored. -/
def ParsedLines.storedRows (parsed : ParsedLines) : List DwarfLineEntry :=
  parsed.lines.take parsed.stored

/-- The stored rows of a section are those of the second pass. -/
theorem storedRows_parsedSection (units : List LineUnit) :
    (parsedSection units).storedRows = sectionEntries 0 units := by
  simp [ParsedLines.storedRows, parsedSection]

/-! Small sections -/

/-- The header of a unit that has every standard opcode of the second version. -/
def plainHeader : LineHeader := ⟨2, 1, 1, 0xFF, 4, 10, [0, 1, 1, 1, 1, 0, 0, 0, 1]⟩

/-- A file of which nothing but the name is known. -/
def plainFile (name : List UInt8) : FileEntry := ⟨name, .single 0, .single 0, .single 0⟩

/-- A unit of this header, whose files are all of one name. -/
def plainUnit (files : Nat) (program : List LineOp) (valid : ∀ op ∈ program, op.Valid plainHeader) :
    LineUnit where
  header := plainHeader
  directories := []
  files := List.replicate files (plainFile [97])
  program := program
  range := by decide
  base := by decide
  lengths := rfl
  named := by
    rw [List.nil_append, List.map_replicate]
    intro name member
    rw [List.eq_of_mem_replicate member]
    exact ⟨List.cons_ne_nil _ _, by decide⟩
  valid := valid

/-- The bytes of such a unit. -/
theorem length_plainUnit (files : Nat) (program : List LineOp)
    (valid : ∀ op ∈ program, op.Valid plainHeader) :
    (plainUnit files program valid).bytes.length =
      26 + files * 5 + (program.flatMap LineOp.bytes).length := by
  have tables : (headerTables (plainUnit files program valid)).length = 2 + files * 5 := by
    have entries : ((List.replicate files (plainFile [97])).flatMap FileEntry.bytes).length =
        files * 5 := by
      rw [List.length_flatMap, List.map_replicate, List.sum_replicate_nat]
      rfl
    simp only [headerTables, plainUnit, List.flatMap_nil, List.nil_append, List.length_cons,
      List.length_append, List.length_nil, entries]
    omega
  have lengths : (plainUnit files program valid).header.standardOpcodeLengths.length = 9 := rfl
  rw [length_unitBytes, LineUnit.length, length_prologueBytes, tables, lengths, LineUnit.programBytes]
  simp only [plainUnit]
  omega

/-- The end of a sequence. -/
def endOfSequence : LineOp := .endSequence (.single 1)

end TwoIne
