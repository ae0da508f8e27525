import TwoIne.Proofs.Debugger.LineRows

/-!
The files that the stored rows name, next to those of the headers of their units.

Files are numbered anew in each unit, and the map of a unit leads to the files of all of them.
-/

namespace TwoIne

open Regions Leb128 DwarfLines

/-- The names of the files in the header of a unit. -/
def headerNames (unit : LineUnit) : List (List UInt8) := unit.files.map FileEntry.name

/-- The stored rows name the files of their numbers, and no more files are stored than have room. -/
structure FilesNamed (units : List LineUnit) (parsed : ParsedLines) : Prop where
  names : List.Forall₂
    (fun entry row =>
      rowFileName parsed.info entry = nameOf (headerNames row.1) row.2.registers.file)
    parsed.storedRows ((sectionRows units).take parsed.stored)
  room : parsed.fileNames.length ≤ parsed.fileSlots

/-- Whether the file number of every row of a section is kept. -/
def FileNumbersKept (units : List LineUnit) : Prop :=
  UnitsMeet (fun before unit _ r =>
    FileKept (fileNamesOf units) before unit (headerNames unit) r.file) 0 units

/-- As many rows are stored as the programs put out. -/
theorem length_sectionRows (units : List LineUnit) :
    (sectionRows units).length = (sectionEntries 0 units).length := by
  rw [length_sectionEntries]
  induction units with
  | nil => rfl
  | cons unit units ih =>
    simp only [sectionRows, List.flatMap_cons, List.length_append, List.length_map,
      List.countP_append] at ih ⊢
    rw [ih, LineUnit.rows, length_rowsWith]

/-- The rows of a table that was stored name their files exactly if their numbers are kept. -/
theorem filesNamed_iff (units : List LineUnit) :
    FilesNamed units (parsedSection units) ↔ FileNumbersKept units := by
  -- A drift changes no file number.
  have rows_iff : List.Forall₂ (fun entry row =>
      rowFileName (parsedSection units).info entry = nameOf (headerNames row.1)
        row.2.registers.file) (sectionEntries 0 units) (sectionRows units) ↔
      FileNumbersKept units := by
    apply unitsMeet_iff (R := fun unit entry row => rowFileName (parsedSection units).info entry =
      nameOf (headerNames unit) row.registers.file) _ (namesFrom_start units)
    intro before unit later names_from d r ends
    have kept : rowFileName (parsedSection units).info _ = _ ↔ _ :=
      rowFileName_eq_iff names_from ⟨drifted unit.header d r, ends⟩ []
    rw [List.append_nil] at kept
    exact kept
  have all : (sectionRows units).take (parsedSection units).stored = sectionRows units :=
    List.take_of_length_le (Nat.le_of_eq (length_sectionRows units))
  have room : (parsedSection units).fileNames.length ≤ (parsedSection units).fileSlots := by
    simp only [parsedSection, List.length_take]
    omega
  rw [← rows_iff]
  constructor
  · intro named
    have names := named.names
    rw [all, storedRows_parsedSection] at names
    exact names
  · intro names
    refine ⟨?_, room⟩
    rw [all, storedRows_parsedSection]
    exact names

/--
The rows of a section name the files of their headers if and only if their file numbers are kept.

Where nothing is stored there is nothing to keep. Each number has to fit in a word, and the files in
the map of the first unit that has some.
-/
theorem file_numbers_right_iff (s : LineSection) (memory : LineMemory) :
    (∀ steps, s.region.bytes.length < steps →
        ∃ parsed, parseDebugLine (some s.region) memory steps = .ok parsed ∧
          FilesNamed s.units parsed) ↔
      ShortNumbers s.units ∧
        (Stores s.units memory → FirstFilesFit s.units ∧ FileNumbersKept s.units) := by
  have nothing : ∀ ret, FilesNamed s.units { ret } ↔ True := by
    intro ret
    refine iff_true_intro ⟨?_, Nat.le_refl _⟩
    rw [List.take_zero]
    exact List.Forall₂.nil
  rw [parseDebugLine_right_iff s memory nothing, filesNamed_iff]
  simp only [implies_true, true_and]

/-- A unit whose files do not fit in its map. -/
def crowdedUnit : LineUnit := plainUnit 256 [] fun _ member => absurd member List.not_mem_nil

/-- A section of this unit. -/
def crowdedSection : LineSection where
  base := 0x10000
  units := [crowdedUnit]
  fits := by
    rw [List.flatMap_singleton, crowdedUnit, length_plainUnit]
    decide

/-- The last of the 256 files is put behind the end of the map. -/
theorem crowded_map_overrun :
    ¬ ∀ steps, crowdedSection.region.bytes.length < steps →
      ∃ parsed, parseDebugLine (some crowdedSection.region) ⟨true, true⟩ steps = .ok parsed ∧
        FilesNamed crowdedSection.units parsed := by
  intro right
  obtain ⟨parsed, ran, _⟩ := right _ (Nat.lt_succ_self _)
  have short : ShortNumbers crowdedSection.units := by
    intro unit member op op_member
    rw [List.mem_singleton.mp member] at op_member
    exact absurd op_member List.not_mem_nil
  have stores : Stores crowdedSection.units ⟨true, true⟩ :=
    ⟨List.cons_ne_nil _ _, rfl, fun _ => rfl⟩
  have crowded : ¬ FirstFilesFit crowdedSection.units := by
    intro fit
    have few : crowdedUnit.files.length < 256 := fit
    rw [crowdedUnit, plainUnit, List.length_replicate] at few
    exact Nat.lt_irrefl _ few
  have stored := parseDebugLine_stores (s := crowdedSection) (Nat.lt_succ_self _) short stores
  rw [if_neg crowded] at stored
  cases ran.symm.trans stored

end TwoIne
