import TwoIne.Proofs.Debugger.LineLookups
import TwoIne.Proofs.Debugger.LineSections

/-!
The lookup of a line, and the lookup of the address that it leads to.

The last row of a sequence may stand at the address where the sequence ends, and then the address
is in no sequence at all.
-/

namespace TwoIne

open Regions Leb128 DwarfLines

/-- A row that stands at an address of a segment and ends no sequence. -/
structure StandsAt (segment : BitVec 16) (offset : BitVec 32) (row : DwarfLineEntry) : Prop where
  segment : row.segment = segment
  address : row.address = offset
  within : row.endSequence = false

/-- Whether one of the rows stands at an address, with the end of its sequence above it. -/
def Covered (segment : BitVec 16) (offset : BitVec 32) : List DwarfLineEntry → Prop
  | [] => False
  | row :: rest =>
    (StandsAt segment offset row ∧ offset < endAddress rest) ∨ Covered segment offset rest

/-! The lookup of an address -/

/-- What is known of the best row so far. -/
structure BestSoFar (segment : BitVec 16) (offset : BitVec 32) (best : Option DwarfLineEntry)
    (bestAddr : BitVec 32) : Prop where
  row : ∀ row, best = some row → row.segment = segment ∧ row.endSequence = false ∧
    row.address = bestAddr
  below : bestAddr ≤ offset

/-- The best row stands at the offset exactly if some row does, before the end of its sequence. -/
theorem bestRow_standsAt_iff {segment : BitVec 16} {offset : BitVec 32}
    {rows : List DwarfLineEntry} {best : Option DwarfLineEntry} {bestAddr : BitVec 32}
    (known : BestSoFar segment offset best bestAddr) :
    (∃ row, bestRow segment offset rows best bestAddr = some row ∧
        StandsAt segment offset row) ↔
      (∃ row, best = some row ∧ StandsAt segment offset row) ∨ Covered segment offset rows := by
  -- A row that is passed over stands elsewhere, and one that is taken is no worse than the last.
  induction rows generalizing best bestAddr with
  | nil => simp [bestRow, Covered]
  | cons row rest ih =>
    by_cases taken : Around segment offset row rest ∧ bestAddr ≤ row.address
    · obtain ⟨around, better⟩ := taken
      have known' : BestSoFar segment offset (some row) row.address := by
        refine ⟨fun chosen chosen_eq => ?_, around.below⟩
        cases chosen_eq
        exact ⟨around.segment, around.within, rfl⟩
      rw [bestRow_taken around better, ih known', Covered]
      constructor
      · rintro (⟨chosen, chosen_eq, stands⟩ | covered)
        · cases chosen_eq
          exact Or.inr (Or.inl ⟨stands, around.before⟩)
        · exact Or.inr (Or.inr covered)
      · rintro (⟨chosen, chosen_eq, stands⟩ | ⟨stands, _⟩ | covered)
        · -- The last best row stood at the offset, so this one cannot stand lower.
          have reached := (known.row chosen chosen_eq).2.2.symm.trans stands.address
          rw [reached] at better
          have address := BitVec.le_antisymm around.below better
          exact Or.inl ⟨row, rfl, around.segment, address, around.within⟩
        · exact Or.inl ⟨row, rfl, stands⟩
        · exact Or.inr covered
    · have elsewhere : ¬ (StandsAt segment offset row ∧ offset < endAddress rest) := by
        intro stands
        have address := stands.1.address
        apply taken
        refine ⟨⟨stands.1.within, stands.1.segment, ?_, stands.2⟩, ?_⟩
        · exact BitVec.le_of_eq address
        · exact address ▸ known.below
      rw [bestRow_passed taken, ih known, Covered, or_iff_right elsewhere]

/-- An address leads to a row that stands there exactly if one does in a sequence around it. -/
theorem rowOfAddr_standsAt_iff (info : DwarfInfo) (segment : BitVec 16) (offset : BitVec 32) :
    (∃ row, rowOfAddr info segment offset = some row ∧ StandsAt segment offset row) ↔
      info.loaded = true ∧ Covered segment offset info.lines := by
  have start : BestSoFar segment offset none 0 :=
    ⟨fun _ none => (nomatch none), BitVec.le_def.mpr (Nat.zero_le _)⟩
  unfold rowOfAddr
  cases info.loaded with
  | false => simp
  | true =>
    by_cases empty : info.lines = []
    · simp [empty, Covered]
    · have some_lines : (info.lines.length == 0) = false := by simpa using empty
      simp only [some_lines, Bool.not_true, Bool.or_self, Bool.false_eq_true, if_false]
      rw [bestRow_standsAt_iff start]
      simp

/-! The lookup of a line -/

/-- Whether a row is of a file whose name no file before it shares. -/
def FirstNamed (info : DwarfInfo) (row : DwarfLineEntry) : Prop :=
  ∃ i name, row.file = (i + 1 : Nat) ∧ info.fileNames[i]? = some name ∧
    ∀ j < i, ∀ earlier, info.fileNames[j]? = some earlier → baseName earlier ≠ baseName name

/-- Whether a row is the first for its line that ends no sequence. -/
structure FirstOfLine (info : DwarfInfo) (front : List DwarfLineEntry) (row : DwarfLineEntry) :
    Prop where
  within : row.endSequence = false
  named : FirstNamed info row
  first : ∀ earlier ∈ front, earlier.endSequence = false → earlier.file = row.file →
    earlier.line ≠ row.line

/-- The index that a name leads to is that of the first file with its base name. -/
theorem fileIndexOf_eq_some_iff (info : DwarfInfo) (filename : List UInt8) (number : Nat) :
    fileIndexOf info filename = some number ↔
      ∃ i name, number = i + 1 ∧ info.fileNames[i]? = some name ∧
        baseName name = baseName filename ∧
        ∀ j < i, ∀ earlier, info.fileNames[j]? = some earlier →
          baseName earlier ≠ baseName filename := by
  rw [fileIndexOf, Option.map_eq_some_iff]
  simp only [List.findIdx?_eq_some_iff_getElem, decide_eq_true_eq]
  constructor
  · rintro ⟨i, ⟨bound, same, first⟩, rfl⟩
    refine ⟨i, info.fileNames[i], rfl, List.getElem?_eq_getElem bound, same, ?_⟩
    intro j before earlier found
    obtain ⟨_, rfl⟩ := List.getElem?_eq_some_iff.mp found
    exact first j before
  · rintro ⟨i, name, rfl, found, same, first⟩
    obtain ⟨bound, rfl⟩ := List.getElem?_eq_some_iff.mp found
    refine ⟨i, ⟨bound, same, fun j before => ?_⟩, rfl⟩
    exact first j before _ (List.getElem?_eq_getElem (Nat.lt_trans before bound))

/-- A line leads to a row exactly if the row is the first one for its line. -/
theorem rowOfLine_eq_some_iff (info : DwarfInfo) (row : DwarfLineEntry) :
    (∃ filename line, rowOfLine info filename line = some row) ↔
      info.loaded = true ∧ ∃ front rest, info.lines = front ++ row :: rest ∧
        FirstOfLine info front row := by
  unfold rowOfLine
  cases info.loaded with
  | false => simp
  | true =>
    constructor
    · rintro ⟨filename, line, found⟩
      refine ⟨rfl, ?_⟩
      split at found
      · cases found
      · split at found
        · cases found
        · rename_i number index
          obtain ⟨i, name, rfl, name_found, same, first⟩ :=
            (fileIndexOf_eq_some_iff info filename number).mp index
          obtain ⟨holds, front, rest, split, earlier⟩ := List.find?_eq_some_iff_append.mp found
          simp only [Bool.and_eq_true, Bool.not_eq_true', beq_iff_eq] at holds
          refine ⟨front, rest, split, holds.1.1, ⟨i, name, holds.1.2, name_found, ?_⟩, ?_⟩
          · rw [same]
            exact first
          · intro before member within file line_eq
            have passed := earlier before member
            simp [within, file, holds.1.2, line_eq, holds.2] at passed
    · rintro ⟨_, front, rest, split, first⟩
      obtain ⟨i, name, file, found, earlier⟩ := first.named
      have index : fileIndexOf info name = some (i + 1) :=
        (fileIndexOf_eq_some_iff info name (i + 1)).mpr ⟨i, name, rfl, found, rfl, earlier⟩
      have some_lines : (info.lines.length == 0) = false := by simp [split]
      refine ⟨name, row.line, ?_⟩
      simp only [some_lines, Bool.not_true, Bool.or_self, Bool.false_eq_true, if_false, index]
      refine List.find?_eq_some_iff_append.mpr ⟨?_, front, rest, split, ?_⟩
      · simp [first.within, file]
      · intro before member
        have apart := first.first before member
        rw [file] at apart
        simp only [Bool.not_eq_true', Bool.and_eq_false_iff, Bool.not_eq_false', beq_eq_false_iff_ne]
        cases within : before.endSequence with
        | true => exact Or.inl (Or.inl rfl)
        | false =>
          by_cases same : before.file = (i + 1 : Nat)
          · exact Or.inr (apart within same)
          · exact Or.inl (Or.inr same)

/-! The round trip -/

/-- A line leads to an address that leads to a row at that address. -/
def LinesRoundTrip (info : DwarfInfo) : Prop :=
  ∀ filename line segment offset, dwarfLineToAddr info filename line = some (segment, offset) →
    ∃ row, rowOfAddr info segment offset = some row ∧ StandsAt segment offset row

/-- Whether the first row of each line stands before the end of a sequence around it. -/
def FirstRowsCovered (info : DwarfInfo) : Prop :=
  info.loaded = true → ∀ front row rest, info.lines = front ++ row :: rest →
    FirstOfLine info front row → Covered row.segment row.address info.lines

/-- Lines lead back to their rows if and only if the first row of each line is in a sequence. -/
theorem line_round_trip_iff (info : DwarfInfo) :
    LinesRoundTrip info ↔ FirstRowsCovered info := by
  constructor
  · intro trip loaded front row rest split first
    obtain ⟨filename, line, found⟩ :=
      (rowOfLine_eq_some_iff info row).mpr ⟨loaded, front, rest, split, first⟩
    have address : dwarfLineToAddr info filename line = some (row.segment, row.address) := by
      rw [dwarfLineToAddr, found]
      rfl
    exact ((rowOfAddr_standsAt_iff info _ _).mp (trip _ _ _ _ address)).2
  · intro covered filename line segment offset address
    rw [dwarfLineToAddr, Option.map_eq_some_iff] at address
    obtain ⟨row, found, same⟩ := address
    cases same
    obtain ⟨loaded, front, rest, split, first⟩ :=
      (rowOfLine_eq_some_iff info row).mp ⟨filename, line, found⟩
    exact (rowOfAddr_standsAt_iff info _ _).mpr ⟨loaded, covered loaded front row rest split first⟩

/-- A unit of one sequence, whose last row stands at its end. -/
def lastRowUnit : LineUnit :=
  plainUnit 1 [.copy, endOfSequence] (by
    simp only [List.mem_cons, List.not_mem_nil, or_false]
    rintro op (rfl | rfl)
    · exact (by decide : (1 : UInt8) < 10)
    · rfl)

/-- A section of this unit. -/
def lastRowSection : LineSection := ⟨0x10000, [lastRowUnit], by decide⟩

/-- The first line of the file leads to an address that leads to no line. -/
theorem last_row_not_found_again :
    ¬ ∀ debugLine memory steps parsed, parseDebugLine debugLine memory steps = .ok parsed →
      LinesRoundTrip parsed.info := by
  intro right
  have stores : Stores lastRowSection.units ⟨true, true⟩ := by decide
  have stored := parseDebugLine_stores (s := lastRowSection) (Nat.lt_succ_self _) (by decide) stores
  rw [if_pos (by decide)] at stored
  have trip := right _ _ _ _ stored
  have address : dwarfLineToAddr (parsedSection lastRowSection.units).info [97] 1 = some (0, 0) := by
    decide
  obtain ⟨row, found, _⟩ := trip _ _ _ _ address
  have none : rowOfAddr (parsedSection lastRowSection.units).info 0 0 = none := by decide
  cases none.symm.trans found

end TwoIne
