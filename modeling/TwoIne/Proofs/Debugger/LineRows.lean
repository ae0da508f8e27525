import Mathlib.Data.List.Forall2
import TwoIne.Proofs.Debugger.LineSections

/-!
The rows that the second pass stores, next to those of the line number programs.

The machine of the second pass advances too far at one operation, and its file numbers lead through
a map with a place for each number of a byte.
-/

namespace TwoIne

open Regions Leb128 DwarfLines

/-- Lists of two parts agree if their parts do. -/
theorem forall₂_append_iff {α β : Type} {R : α → β → Prop} {front rest : List α}
    {front' rest' : List β} (lengths : front.length = front'.length) :
    List.Forall₂ R (front ++ rest) (front' ++ rest') ↔
      List.Forall₂ R front front' ∧ List.Forall₂ R rest rest' := by
  induction front generalizing front' with
  | nil =>
    obtain rfl := List.eq_nil_of_length_eq_zero lengths.symm
    simp
  | cons a front ih =>
    cases front' with
    | nil => simp at lengths
    | cons b front' => simp [ih (by simpa using lengths), and_assoc]

/-! The registers of the second pass -/

/-- How often the one operation was run since the sequence started, and since an address was set. -/
structure Drift where
  sequence : Nat := 0
  address : Nat := 0
  deriving DecidableEq, Repr

/-- The drift that an operation leaves. -/
def Drift.after (op : LineOp) (d : Drift) : Drift :=
  match op with
  | .constAddPc => ⟨d.sequence + 1, d.address + 1⟩
  | .setAddress .. => { d with address := 0 }
  | _ => d

/-- The drift that the next operation starts with. -/
def Drift.next (op : LineOp) (d : Drift) : Drift :=
  match op with
  | .endSequence _ => {}
  | _ => d

/-- The bytes that the second pass advances too far at a time. -/
def constAddGap (header : LineHeader) : Int :=
  ((header.opcodeBase.toNat - 1 : Int) -
    ((255 - header.opcodeBase.toNat) / header.lineRange.toNat : Nat)) * header.minInstLength.toNat

/-- Whether the drift comes to nothing, for the address and for the line. -/
def Drift.Vanishes (header : LineHeader) (d : Drift) : Prop :=
  (d.address * constAddGap header) % 0x100000000 = 0 ∧
    (d.sequence * header.lineRange.toNat) % 0x100000000 = 0

/-- Registers that have drifted. -/
def drifted (header : LineHeader) (d : Drift) (r : Registers) : Registers :=
  { r with
    address := r.address + BitVec.ofInt 32 (d.address * constAddGap header)
    line := r.line + BitVec.ofNat 32 (d.sequence * header.lineRange.toNat) }

/-- A distance is nothing exactly if it is a multiple of the size of a word. -/
theorem add_ofInt_eq_self (x : BitVec 32) (distance : Int) :
    x + BitVec.ofInt 32 distance = x ↔ distance % 0x100000000 = 0 := by
  have bound := x.isLt
  rw [← BitVec.toNat_inj]
  simp only [BitVec.toNat_add, BitVec.toNat_ofInt]
  omega

/-- The registers agree exactly if the drift vanishes. -/
theorem drifted_eq_iff (header : LineHeader) (d : Drift) (r : Registers) :
    ((drifted header d r).address = r.address ∧ (drifted header d r).line = r.line) ↔
      d.Vanishes header := by
  have line := add_ofInt_eq_self r.line (d.sequence * header.lineRange.toNat : Nat)
  rw [BitVec.ofInt_natCast] at line
  simp only [drifted, Drift.Vanishes, add_ofInt_eq_self, line]
  omega

/-- Two advances may be made in either order. -/
theorem add_swap (x first second : BitVec 32) : x + first + second = x + second + first := by
  rw [BitVec.add_assoc, BitVec.add_comm first, ← BitVec.add_assoc]

/-- An operation acts on drifted registers as the reference does, but for the drift. -/
theorem runParsed_drifted {header : LineHeader} (base : header.opcodeBase ≠ 0) (op : LineOp)
    (d : Drift) (r : Registers) :
    LineOp.runParsed header op (drifted header d r) =
      drifted header (d.after op) (op.run header r) := by
  have positive : 1 ≤ header.opcodeBase.toNat := by
    rcases Nat.eq_zero_or_pos header.opcodeBase.toNat with zero | positive
    · exact absurd (UInt8.toNat_inj.mp zero) base
    · exact positive
  cases op with
  | constAddPc =>
    -- The gap is what the second pass advances beyond the reference.
    have addresses : BitVec.ofInt 32 (d.address * constAddGap header) +
        BitVec.ofNat 32 ((header.opcodeBase.toNat - 1) * header.minInstLength.toNat) =
          BitVec.ofNat 32 ((255 - header.opcodeBase.toNat) / header.lineRange.toNat *
            header.minInstLength.toNat) +
              BitVec.ofInt 32 ((d.address + 1 : Nat) * constAddGap header) := by
      rw [← BitVec.ofInt_natCast, ← BitVec.ofInt_natCast, ← BitVec.ofInt_add, ← BitVec.ofInt_add]
      congr 1
      rw [Int.natCast_add, Int.natCast_one, Int.add_mul, Int.one_mul]
      simp only [constAddGap]
      rw [Int.sub_mul, Int.natCast_mul, Int.natCast_mul, Int.natCast_sub positive]
      simp only [Int.natCast_one]
      omega
    have lines : BitVec.ofNat 32 (d.sequence * header.lineRange.toNat) +
        BitVec.ofNat 32 header.lineRange.toNat =
          BitVec.ofNat 32 ((d.sequence + 1) * header.lineRange.toNat) := by
      rw [← BitVec.ofNat_add, Nat.add_mul, Nat.one_mul]
    simp only [LineOp.runParsed, LineOp.run, Registers.advance, drifted, Drift.after,
      specialAdvance]
    rw [BitVec.add_assoc, addresses, ← BitVec.add_assoc, BitVec.add_assoc r.line, lines]
    rfl
  | setAddress n target => simp [LineOp.runParsed, LineOp.run, drifted, Drift.after]
  | advancePc n =>
    simp only [LineOp.runParsed, LineOp.run, Registers.advance, drifted, Drift.after]
    rw [add_swap]
  | advanceLine n =>
    simp only [LineOp.runParsed, LineOp.run, drifted, Drift.after]
    rw [add_swap]
  | fixedAdvancePc value =>
    simp only [LineOp.runParsed, LineOp.run, drifted, Drift.after]
    rw [add_swap]
  | special code =>
    simp only [LineOp.runParsed, LineOp.run, Registers.advance, drifted, Drift.after]
    rw [add_swap, add_swap r.line]
  | _ => rfl

/-- A new sequence starts without a drift. -/
theorem next_drifted (header : LineHeader) (op : LineOp) (d : Drift) (r : Registers) :
    op.next (drifted header d r) = drifted header (d.next op) (op.next r) := by
  cases op with
  | endSequence n => simp [LineOp.next, drifted, Drift.next]
  | _ => rfl

/-! The file numbers -/

/-- The rows of a section, each with its unit. -/
def sectionRows (units : List LineUnit) : List (LineUnit × Row) :=
  units.flatMap fun unit => unit.rows.map fun row => (unit, row)

/--
Whether a file number of a row still names its file in the table.

The map has the files of the unit that were stored, as far as a byte counts. The number 256 is
kept as it is, and may be that of a file of the table.
-/
def FileKept (names : List (List UInt8)) (before : Nat) (unit : LineUnit)
    (table : List (List UInt8)) (file : BitVec 32) : Prop :=
  if file.toNat = 0 then True
  else if file.toNat < 256 then
    file.toNat ≤ storedCount before unit.files.length ∨ table.length < file.toNat
  else if file.toNat = 256 then names[255]? = table[255]?
  else table.length < file.toNat

/-- The names from the place of a unit on. -/
def NamesFrom (names : List (List UInt8)) (before : Nat) (units : List LineUnit) : Prop :=
  before ≤ 256 ∧ (before < 256 → names.drop before = fileNamesOf units)

/-- Behind a unit come the names of the other ones. -/
theorem NamesFrom.cons {names : List (List UInt8)} {before : Nat} {unit : LineUnit}
    {units : List LineUnit} (names_from : NamesFrom names before (unit :: units)) :
    NamesFrom names (min 256 (before + unit.files.length)) units := by
  refine ⟨Nat.min_le_left _ _, fun room => ?_⟩
  have few : before + unit.files.length < 256 := by omega
  have same := names_from.2 (by omega)
  rw [Nat.min_eq_right (Nat.le_of_lt few), ← List.drop_drop, same]
  simp [fileNamesOf]

/-- The stored name of a row, for the names of a whole section. -/
theorem rowFileName_mapped {names : List (List UInt8)} {lines : List DwarfLineEntry}
    {before : Nat} {unit : LineUnit} {units : List LineUnit}
    (names_from : NamesFrom names before (unit :: units)) (row : Row) :
    rowFileName { lines, fileNames := names.take 256 }
        (entryOf (mapOf before (storedCount before unit.files.length)) row) =
      let file := row.registers.file.toNat
      if 0 < file ∧ file < 256 then
        if file ≤ storedCount before unit.files.length then
          (unit.files.map FileEntry.name)[file - 1]?
        else none
      else if file = 256 then names[255]? else none := by
  have bound := row.registers.file.isLt
  have signed := BitVec.toInt_eq_toNat_cond row.registers.file
  simp only [entryOf, mappedFile, rowFileName, List.length_take]
  by_cases small : 0 < row.registers.file.toNat ∧ row.registers.file.toNat < 256
  · -- A number of a byte goes through the map.
    have number : row.registers.file.toInt = row.registers.file.toNat := by
      rw [signed, if_pos (by omega)]
    have inside : 0 < row.registers.file.toInt ∧ row.registers.file.toInt < 256 := by omega
    rw [if_pos inside, if_pos small, getElem_mapOf _ _ small.2, Option.getD_some]
    by_cases stored : row.registers.file.toNat ≤ storedCount before unit.files.length
    · have count := stored
      simp only [storedCount] at count
      have same := names_from.2 (by omega)
      have found : names[before + (row.registers.file.toNat - 1)]? =
          (unit.files.map FileEntry.name)[row.registers.file.toNat - 1]? := by
        rw [← List.getElem?_drop, same]
        simp only [fileNamesOf, List.flatMap_cons, List.map_append]
        rw [List.getElem?_append_left (by rw [List.length_map]; omega)]
      have listed : before + row.registers.file.toNat ≤ names.length := by
        have lengths := congrArg List.length same
        simp only [fileNamesOf, List.flatMap_cons, List.map_append, List.length_drop,
          List.length_append, List.length_map] at lengths
        omega
      have place : ((before + row.registers.file.toNat : Nat) - 1 : Int).toNat =
          before + (row.registers.file.toNat - 1) := by omega
      have mapped : 1 ≤ row.registers.file.toNat ∧
          row.registers.file.toNat ≤ storedCount before unit.files.length := ⟨small.1, stored⟩
      simp only [if_pos mapped, if_pos stored]
      rw [if_pos (by omega), place, List.getElem?_take_of_lt (by omega), found]
    · have none : ¬ (1 ≤ row.registers.file.toNat ∧
          row.registers.file.toNat ≤ storedCount before unit.files.length) := by omega
      simp [if_neg stored, if_neg none]
  · rw [if_neg small]
    have outside : ¬ (0 < row.registers.file.toInt ∧ row.registers.file.toInt < 256) := by
      rw [signed]
      split <;> omega
    rw [if_neg outside]
    by_cases last : row.registers.file.toNat = 256
    · -- The number behind those of the map is kept.
      have number : row.registers.file.toInt = 256 := by
        rw [signed, if_pos (by omega), last]
        rfl
      rw [if_pos last, number]
      by_cases full : 256 ≤ names.length
      · have place : ((256 : Int) - 1).toNat = 255 := rfl
        rw [if_pos (by omega), place, List.getElem?_take_of_lt (by decide)]
      · rw [if_neg (by omega), List.getElem?_eq_none (by omega)]
    · rw [if_neg last, if_neg]
      rw [signed]
      split <;> omega

/-- A row names its file exactly if its file number is kept. -/
theorem rowFileName_eq_iff {names : List (List UInt8)} {lines : List DwarfLineEntry}
    {before : Nat} {unit : LineUnit} {units : List LineUnit}
    (names_from : NamesFrom names before (unit :: units)) (row : Row) (more : List (List UInt8)) :
    rowFileName { lines, fileNames := names.take 256 }
        (entryOf (mapOf before (storedCount before unit.files.length)) row) =
      nameOf (unit.files.map FileEntry.name ++ more) row.registers.file ↔
        FileKept names before unit (unit.files.map FileEntry.name ++ more) row.registers.file := by
  have zero_iff : row.registers.file = 0 ↔ row.registers.file.toNat = 0 := by
    rw [← BitVec.toNat_inj]
    rfl
  rw [rowFileName_mapped names_from]
  simp only [nameOf, FileKept, zero_iff]
  generalize row.registers.file.toNat = file
  by_cases zero : file = 0
  · simp [zero]
  rw [if_neg zero, if_neg zero]
  by_cases small : file < 256
  · rw [if_pos ⟨Nat.pos_of_ne_zero zero, small⟩, if_pos small]
    by_cases stored : file ≤ storedCount before unit.files.length
    · have count := stored
      simp only [storedCount] at count
      rw [if_pos stored, List.getElem?_append_left (by rw [List.length_map]; omega)]
      simp [stored]
    · rw [if_neg stored, eq_comm, List.getElem?_eq_none_iff]
      omega
  · rw [if_neg fun both => small both.2, if_neg small]
    by_cases last : file = 256
    · rw [if_pos last, if_pos last, last]
    · rw [if_neg last, if_neg last, eq_comm, List.getElem?_eq_none_iff]
      omega

/-! Rows next to each other -/

/-- Whether the registers of every row of a program meet a condition, with their drift. -/
def RowsMeet (header : LineHeader) (kept : Drift → Registers → Prop) :
    Drift → Registers → List LineOp → Prop
  | _, _, [] => True
  | d, r, op :: rest =>
    ((op.row (op.run header r)).isSome → kept (d.after op) (op.run header r)) ∧
      RowsMeet header kept ((d.after op).next op) (op.next (op.run header r)) rest

/-- Whether the registers of every row of a section do. -/
def UnitsMeet (kept : Nat → LineUnit → Drift → Registers → Prop) : Nat → List LineUnit → Prop
  | _, [] => True
  | before, unit :: rest =>
    RowsMeet unit.header (kept before unit) {} {} unit.program ∧
      UnitsMeet kept (min 256 (before + unit.files.length)) rest

/-- The rows of a program agree with the stored ones exactly if their registers do. -/
theorem rowsMeet_iff {header : LineHeader} (base : header.opcodeBase ≠ 0) {fileMap : List Nat}
    {R : DwarfLineEntry → Row → Prop} {kept : Drift → Registers → Prop}
    (exact_row : ∀ d r ends, R (entryOf fileMap ⟨drifted header d r, ends⟩) ⟨r, ends⟩ ↔ kept d r)
    (d : Drift) (r : Registers) (program : List LineOp) :
    List.Forall₂ R ((rowsWith (LineOp.runParsed header) (drifted header d r) program).map
        (entryOf fileMap)) (rowsWith (LineOp.run header) r program) ↔
      RowsMeet header kept d r program := by
  -- Each operation puts out the same number of rows on both sides, one at most.
  induction program generalizing d r with
  | nil => simp [rowsWith, RowsMeet]
  | cons op program ih =>
    have next := ih ((d.after op).next op) (op.next (op.run header r))
    simp only [rowsWith, RowsMeet, runParsed_drifted base, next_drifted, List.map_append]
    have lengths : ((op.row (drifted header (d.after op) (op.run header r))).toList.map
        (entryOf fileMap)).length = (op.row (op.run header r)).toList.length := by
      cases op <;> rfl
    rw [forall₂_append_iff lengths, next]
    refine and_congr_left fun _ => ?_
    cases op <;> simp [LineOp.row, exact_row]

/-- The rows of a section agree with the stored ones exactly if their registers do. -/
theorem unitsMeet_iff {names : List (List UInt8)} {R : LineUnit → DwarfLineEntry → Row → Prop}
    {kept : Nat → LineUnit → Drift → Registers → Prop}
    (exact_row : ∀ before unit units, NamesFrom names before (unit :: units) → ∀ d r ends,
      R unit (entryOf (mapOf before (storedCount before unit.files.length))
        ⟨drifted unit.header d r, ends⟩) ⟨r, ends⟩ ↔ kept before unit d r)
    {before : Nat} {units : List LineUnit} (names_from : NamesFrom names before units) :
    List.Forall₂ (fun entry row => R row.1 entry row.2) (sectionEntries before units)
        (sectionRows units) ↔
      UnitsMeet kept before units := by
  induction units generalizing before with
  | nil => simp [sectionEntries, sectionRows, UnitsMeet]
  | cons unit units ih =>
    have unit_iff := rowsMeet_iff unit.base (exact_row before unit units names_from) {} {}
      unit.program
    have start : drifted unit.header {} {} = {} := by simp [drifted]
    rw [start] at unit_iff
    have lengths : (unitEntries before unit).length =
        (unit.rows.map fun row => (unit, row)).length := by
      rw [length_unitEntries, List.length_map, LineUnit.rows, length_rowsWith]
    have rows : sectionRows (unit :: units) =
        (unit.rows.map fun row => (unit, row)) ++ sectionRows units := by
      simp [sectionRows]
    rw [sectionEntries, rows, forall₂_append_iff lengths, ih names_from.cons, UnitsMeet,
      List.forall₂_map_right_iff]
    exact and_congr_left fun _ => unit_iff

/-- The names of a section start at the place of its first unit. -/
theorem namesFrom_start (units : List LineUnit) : NamesFrom (fileNamesOf units) 0 units :=
  ⟨Nat.zero_le _, fun _ => rfl⟩

/-! The rows of the reference -/

/-- A stored row is the one of the reference, and its file index names the same file. -/
structure SameRow (info : DwarfInfo) (unit : LineUnit) (entry : DwarfLineEntry) (row : Row) :
    Prop where
  address : entry.address = row.registers.address
  line : entry.line = row.registers.line
  segment : entry.segment = row.registers.segment
  endSequence : entry.endSequence = row.endSequence
  file : rowFileName info entry = nameOf unit.fileTable row.registers.file

/-- Whether a row has no drift and keeps the name of its file. -/
def RowKept (names : List (List UInt8)) (before : Nat) (unit : LineUnit) (d : Drift)
    (r : Registers) : Prop :=
  d.Vanishes unit.header ∧ FileKept names before unit unit.fileTable r.file

/-- What a section has to meet for all its rows to be stored as they are. -/
def RowsStored (s : LineSection) (memory : LineMemory) : Prop :=
  ShortNumbers s.units ∧ (¬ Stores s.units memory → sectionRows s.units = []) ∧
    (Stores s.units memory → FirstFilesFit s.units ∧
      UnitsMeet (RowKept (fileNamesOf s.units)) 0 s.units)

/-- A stored row is the one of the reference exactly if it is kept. -/
theorem sameRow_iff {names : List (List UInt8)} {lines : List DwarfLineEntry} {before : Nat}
    {unit : LineUnit} {units : List LineUnit}
    (names_from : NamesFrom names before (unit :: units)) (d : Drift) (r : Registers)
    (ends : Bool) :
    SameRow { lines, fileNames := names.take 256 } unit
        (entryOf (mapOf before (storedCount before unit.files.length))
          ⟨drifted unit.header d r, ends⟩) ⟨r, ends⟩ ↔
      RowKept names before unit d r := by
  have table : unit.fileTable = unit.files.map FileEntry.name ++
      (unit.program.filterMap LineOp.definedFile).map FileEntry.name := by
    simp [LineUnit.fileTable]
  have file : rowFileName { lines, fileNames := names.take 256 } _ = _ ↔ _ :=
    rowFileName_eq_iff names_from ⟨drifted unit.header d r, ends⟩
      ((unit.program.filterMap LineOp.definedFile).map FileEntry.name)
  rw [← table] at file
  have registers := drifted_eq_iff unit.header d r
  constructor
  · intro same
    exact ⟨registers.mp ⟨same.address, same.line⟩, file.mp same.file⟩
  · rintro ⟨vanishes, kept⟩
    obtain ⟨address, line⟩ := registers.mpr vanishes
    exact ⟨address, line, rfl, rfl, file.mpr kept⟩

/--
The rows of a section are stored exactly as the reference has them if and only if none has drifted.

Each number has to fit in a word, there have to be files and memory, the files have to fit in the
map of their unit, and the file numbers of the rows have to be kept.
-/
theorem stored_rows_reference_iff (s : LineSection) (memory : LineMemory) :
    (∀ steps, s.region.bytes.length < steps →
        ∃ parsed, parseDebugLine (some s.region) memory steps = .ok parsed ∧
          List.Forall₂ (fun entry row => SameRow parsed.info row.1 entry row.2) parsed.storedRows
            (sectionRows s.units)) ↔
      RowsStored s memory := by
  have rows_iff : List.Forall₂
      (fun entry row => SameRow (parsedSection s.units).info row.1 entry row.2)
        (parsedSection s.units).storedRows (sectionRows s.units) ↔
      UnitsMeet (RowKept (fileNamesOf s.units)) 0 s.units := by
    rw [storedRows_parsedSection]
    exact unitsMeet_iff (fun _ _ _ names_from => sameRow_iff names_from)
      (namesFrom_start s.units)
  rw [RowsStored, ← rows_iff]
  -- Where nothing is stored there may be no rows.
  exact parseDebugLine_right_iff s memory fun ret => List.forall₂_nil_left_iff

/-- A unit with one file, and a program that advances by the one operation. -/
def constAddUnit : LineUnit :=
  plainUnit 1 [.constAddPc, .copy, endOfSequence] (by
    simp only [List.mem_cons, List.not_mem_nil, or_false]
    rintro op (rfl | rfl | rfl)
    · exact (by decide : (8 : UInt8) < 10)
    · exact (by decide : (1 : UInt8) < 10)
    · rfl)

/-- A section of this unit. -/
def constAddSection : LineSection := ⟨0x10000, [constAddUnit], by decide⟩

/-- The row behind the operation is stored at 9 and line 5, where it belongs at 61 and line 1. -/
theorem const_add_rows_differ :
    ¬ ∀ steps, constAddSection.region.bytes.length < steps →
      ∃ parsed, parseDebugLine (some constAddSection.region) ⟨true, true⟩ steps = .ok parsed ∧
        List.Forall₂ (fun entry row => SameRow parsed.info row.1 entry row.2) parsed.storedRows
          (sectionRows constAddSection.units) := by
  intro right
  obtain ⟨parsed, ran, same⟩ := right _ (Nat.lt_succ_self _)
  have stores : Stores constAddSection.units ⟨true, true⟩ := by decide
  have stored := parseDebugLine_stores (s := constAddSection) (Nat.lt_succ_self _) (by decide)
    stores
  rw [if_pos (by decide)] at stored
  cases ran.symm.trans stored
  have rows : (parsedSection constAddSection.units).storedRows =
      [⟨0, 9, 5, 1, false⟩, ⟨0, 9, 5, 1, true⟩] := by decide
  have reference : sectionRows constAddSection.units =
      [(constAddUnit, ⟨⟨61, 0, 1, 1⟩, false⟩), (constAddUnit, ⟨⟨61, 0, 1, 1⟩, true⟩)] := rfl
  rw [rows, reference, List.forall₂_cons] at same
  exact absurd same.1.line (by decide)

end TwoIne
