import TwoIne.Proofs.Debugger.LineLookups
import TwoIne.Proofs.Debugger.LineSections

/-!
The number of rows that is counted, next to the number that is stored.

The first pass counts every standard operation, and only one of them puts out a row.
-/

namespace TwoIne

open Regions Leb128 DwarfLines

/-- Whether every operation of some units that is counted puts out a row. -/
def CountsRows (units : List LineUnit) : Prop :=
  ∀ unit ∈ units, ∀ op ∈ unit.program, LineOp.counted op = true → LineOp.putsRow op = true

/-- Counting by a weaker condition gives the same number exactly if it holds no more often. -/
theorem countP_eq_iff {α : Type} {strong weak : α → Bool} {items : List α}
    (weaker : ∀ item, strong item = true → weak item = true) :
    items.countP weak = items.countP strong ↔
      ∀ item ∈ items, weak item = true → strong item = true := by
  induction items with
  | nil => simp
  | cons item items ih =>
    have fewer : items.countP strong ≤ items.countP weak :=
      List.countP_mono_left fun item _ => weaker item
    rw [List.countP_cons, List.countP_cons, List.forall_mem_cons, ← ih]
    cases holds : strong item with
    | true => simp [weaker item holds]
    | false =>
      cases weak item with
      | true =>
        simp only [if_true, Bool.false_eq_true, if_false, Nat.add_zero, true_implies, false_and,
          iff_false]
        omega
      | false => simp

/-- As many rows are stored as were counted exactly if nothing else was counted. -/
theorem countedRows_eq_iff (units : List LineUnit) :
    countedRows units = (sectionEntries 0 units).length ↔ CountsRows units := by
  rw [length_sectionEntries, countedRows, countP_eq_iff fun _ => counted_of_putsRow]
  simp only [List.mem_flatMap, CountsRows]
  constructor
  · intro all unit unit_member op member
    exact all op ⟨unit, unit_member, member⟩
  · intro all op found
    obtain ⟨unit, unit_member, member⟩ := found
    exact all unit unit_member op member

/-- The table has the rows that were stored and no others, so no lookup comes to another one. -/
structure OnlyStoredRows (parsed : ParsedLines) : Prop where
  count : parsed.lineCount = parsed.stored
  entries : parsed.lines = parsed.storedRows
  addrToLine : ∀ segment offset row,
    rowOfAddr parsed.info segment offset = some row → row ∈ parsed.storedRows
  lineToAddr : ∀ filename line row,
    rowOfLine parsed.info filename line = some row → row ∈ parsed.storedRows

/-- Where as many rows are stored as were counted, the lookups only come to stored rows. -/
theorem onlyStoredRows_of_count {parsed : ParsedLines} (count : parsed.lineCount = parsed.stored) :
    OnlyStoredRows parsed := by
  have entries : parsed.lines = parsed.storedRows := by
    rw [ParsedLines.storedRows, ← count, ParsedLines.lineCount, List.take_length]
  exact ⟨count, entries, fun _ _ _ found => entries ▸ rowOfAddr_mem found, fun _ _ _ found =>
    entries ▸ rowOfLine_mem found⟩

/--
The two passes agree if and only if no standard operation but the copy of a row is used.

Where nothing is stored they agree about that. Each number has to fit in a word, and the files in
the map of their unit.
-/
theorem passes_agree_iff (s : LineSection) (memory : LineMemory) :
    (∀ steps, s.region.bytes.length < steps →
        ∃ parsed, parseDebugLine (some s.region) memory steps = .ok parsed ∧
          OnlyStoredRows parsed) ↔
      ShortNumbers s.units ∧
        (Stores s.units memory → FirstFilesFit s.units ∧ CountsRows s.units) := by
  have counts_iff : OnlyStoredRows (parsedSection s.units) ↔ CountsRows s.units := by
    have fewer := length_sectionEntries_le 0 s.units
    have lines : (parsedSection s.units).lineCount = countedRows s.units := by
      simp only [ParsedLines.lineCount, parsedSection, List.length_append, List.length_replicate]
      omega
    rw [← countedRows_eq_iff]
    constructor
    · exact fun only => lines.symm.trans only.count
    · exact fun same => onlyStoredRows_of_count (lines.trans same)
  have nothing : ∀ ret, OnlyStoredRows { ret } ↔ True := fun ret =>
    iff_true_intro (onlyStoredRows_of_count rfl)
  rw [parseDebugLine_right_iff s memory nothing, counts_iff]
  simp only [implies_true, true_and]

/-- A unit with one file, and a program that advances the address once. -/
def advancePcUnit : LineUnit :=
  plainUnit 1 [.copy, .advancePc (.single 4), endOfSequence] (by
    simp only [List.mem_cons, List.not_mem_nil, or_false]
    rintro op (rfl | rfl | rfl)
    · exact (by decide : (1 : UInt8) < 10)
    · exact (by decide : (2 : UInt8) < 10)
    · rfl)

/-- A section of this unit. -/
def advancePcSection : LineSection := ⟨0x10000, [advancePcUnit], by decide⟩

/-- Three rows are counted and two are stored, so every higher address leads to an empty row. -/
theorem advance_pc_passes_differ :
    ¬ ∀ steps, advancePcSection.region.bytes.length < steps →
      ∃ parsed, parseDebugLine (some advancePcSection.region) ⟨true, true⟩ steps = .ok parsed ∧
        OnlyStoredRows parsed := by
  intro right
  obtain ⟨parsed, ran, only⟩ := right _ (Nat.lt_succ_self _)
  have stores : Stores advancePcSection.units ⟨true, true⟩ := by decide
  have stored := parseDebugLine_stores (s := advancePcSection) (Nat.lt_succ_self _) (by decide)
    stores
  rw [if_pos (by decide)] at stored
  cases ran.symm.trans stored
  have found : rowOfAddr (parsedSection advancePcSection.units).info 0 100 = some {} := by decide
  exact absurd (only.addrToLine 0 100 {} found) (by decide)

end TwoIne
