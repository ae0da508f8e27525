import Mathlib.Data.List.Perm.Subperm
import TwoIne.Debugger.LinearLookup
import TwoIne.Proofs.Debugger.LineLookups

/-!
The lines that linear addresses lead to, next to the segments of the program.

Segments are numbered in each module, and the table of slots is one for all modules.
-/

namespace TwoIne

/-- A program whose segments have slots of their own, as the loader allocates them. -/
structure NeProgram where
  mmaps : List LxMmaps
  distinct : (mmaps.map LxMmaps.alias16).Nodup
  inside : ∀ m ∈ mmaps, m.alias16 < lxMaxLdtSlots

/-- Whether a number is that of the segment of the program in a slot. -/
def NeProgram.Numbers (program : NeProgram) (slot : Nat) (number : BitVec 16) : Prop :=
  ∃ i m, program.mmaps[i]? = some m ∧ m.alias16 = slot ∧ number = BitVec.ofNat 16 (i + 1)

/-- A program has no more segments than there are slots. -/
theorem NeProgram.length_le (program : NeProgram) : program.mmaps.length ≤ lxMaxLdtSlots := by
  -- The slots are distinct, and each is a place of the table.
  have places : program.mmaps.map LxMmaps.alias16 ⊆ List.range lxMaxLdtSlots := by
    intro slot member
    obtain ⟨m, m_member, rfl⟩ := List.mem_map.mp member
    exact List.mem_range.mpr (program.inside m m_member)
  have few := (program.distinct.subperm places).length_le
  rwa [List.length_map, List.length_range] at few

/-- No segment has the number zero. -/
theorem NeProgram.Numbers.ne_zero {program : NeProgram} {slot : Nat} {number : BitVec 16}
    (numbers : program.Numbers slot number) : number ≠ 0 := by
  obtain ⟨i, m, found, _, rfl⟩ := numbers
  obtain ⟨bound, _⟩ := List.getElem?_eq_some_iff.mp found
  have few := program.length_le
  simp only [lxMaxLdtSlots] at few
  intro zero
  have value : (i + 1) % 2 ^ 16 = 0 := congrArg BitVec.toNat zero
  omega

/-! The shared table -/

/-- Objects in other slots leave a slot as it is. -/
theorem markObjects_other {slot : Nat} (mmaps : List LxMmaps)
    (other : ∀ m ∈ mmaps, m.alias16 ≠ slot) (i : Nat) (state : DebugSharedState) :
    (markObjects i mmaps state).neSegment slot = state.neSegment slot := by
  induction mmaps generalizing i state with
  | nil => rfl
  | cons m rest ih =>
    have here := other m List.mem_cons_self
    rw [markObjects, ih fun m member => other m (List.mem_cons_of_mem _ member), markObject]
    split
    · exact Function.update_of_ne here.symm _ _
    · rfl

/-- The slot of an object is marked with the number of the object, if no later one has it. -/
theorem markObjects_own {mmaps : List LxMmaps} (distinct : (mmaps.map LxMmaps.alias16).Nodup)
    {k : Nat} {m : LxMmaps} (found : mmaps[k]? = some m) (inside : m.alias16 < lxMaxLdtSlots)
    (i : Nat) (state : DebugSharedState) :
    (markObjects i mmaps state).neSegment m.alias16 = BitVec.ofNat 16 (i + k + 1) := by
  induction mmaps generalizing i k state with
  | nil => cases found
  | cons first rest ih =>
    rw [List.map_cons, List.nodup_cons] at distinct
    rw [markObjects]
    cases k with
    | zero =>
      obtain rfl : first = m := Option.some.inj found
      have other : ∀ later ∈ rest, later.alias16 ≠ first.alias16 := by
        intro later member same
        exact distinct.1 (same ▸ List.mem_map_of_mem member)
      have marked : first.alias16 ≠ 0xFFFF ∧ first.alias16 < lxMaxLdtSlots := by
        refine ⟨?_, inside⟩
        simp only [lxMaxLdtSlots] at inside
        omega
      rw [markObjects_other rest other, markObject, if_pos marked]
      exact Function.update_self _ _ _
    | succ k =>
      rw [ih distinct.2 found, Nat.add_right_comm i 1 k, Nat.add_assoc i k 1]

/-- Marking changes no selector. -/
theorem markObjects_selectors (i : Nat) (mmaps : List LxMmaps) (state : DebugSharedState) :
    (markObjects i mmaps state).selectors = state.selectors := by
  induction mmaps generalizing i state with
  | nil => rfl
  | cons m rest ih =>
    rw [markObjects, ih, markObject]
    split <;> rfl

/-- Marking modules changes no selector. -/
theorem markModules_selectors (modules : List (List LxMmaps)) (state : DebugSharedState) :
    (markModules modules state).selectors = state.selectors := by
  induction modules generalizing state with
  | nil => rfl
  | cons mmaps rest ih => rw [markModules, ih, markObjects_selectors]

/-- Modules are marked one list after the other. -/
theorem markModules_append (front rest : List (List LxMmaps)) (state : DebugSharedState) :
    markModules (front ++ rest) state = markModules rest (markModules front state) := by
  induction front generalizing state with
  | nil => rfl
  | cons mmaps front ih => exact ih _

variable {info : DwarfInfo} {program : NeProgram} {loadedModules : List (List LxMmaps)}
  {ldt : Nat → Nat} {before : DebugSharedState}

/-- The slots of the program are marked with the numbers of its segments. -/
theorem fillDebugState_numbers {slot : Nat} {number : BitVec 16}
    (numbers : program.Numbers slot number) :
    (fillDebugState ldt loadedModules program.mmaps before).neSegment slot = number := by
  -- The program is marked last.
  obtain ⟨i, m, found, rfl, rfl⟩ := numbers
  have inside := program.inside m (List.mem_of_getElem? found)
  rw [fillDebugState, markModules_append]
  simp only [markModules]
  rw [markObjects_own program.distinct found inside, Nat.zero_add]

/-! The lookup -/

/-- Whether a range spans an offset. -/
def DwarfAddrRange.Spans (range : DwarfAddrRange) (offset : BitVec 32) : Prop :=
  range.address.toNat ≤ offset.toNat ∧ offset.toNat < range.address.toNat + range.length.toNat

/-- A range spans what the lookup takes it to cover. -/
theorem DwarfAddrRange.spans_of_covers {range : DwarfAddrRange} {offset : BitVec 32}
    (covers : range.covers offset = true) : range.Spans offset := by
  -- The end that wraps around is lower than the true one.
  simp only [DwarfAddrRange.covers, Bool.and_eq_true, decide_eq_true_eq, BitVec.le_def,
    BitVec.lt_def, BitVec.toNat_add] at covers
  refine ⟨covers.1, Nat.lt_of_lt_of_le covers.2 (Nat.mod_le _ _)⟩

/-- A report is about the segment of the program in the slot, where a range spans the offset. -/
structure ReportRight (info : DwarfInfo) (program : NeProgram) (slot : Nat) (offset : BitVec 32)
    (report : LineReport) : Prop where
  own : program.Numbers slot report.segment
  place : report.offset = offset
  spanned : ∃ range ∈ info.ranges, range.segment = report.segment ∧ range.Spans offset
  row : ∃ row, rowOfAddr info report.segment offset = some row ∧ row.segment = report.segment ∧
    report.line = row.line

/-- A segment that is looked in has a range that covers the offset. -/
theorem searchedSegment_covers {ranges : List DwarfAddrRange} {marked segment : BitVec 16}
    {offset : BitVec 32} (searched : searchedSegment ranges marked offset = some segment) :
    ∃ range ∈ ranges, range.segment = segment ∧ range.covers offset = true := by
  rw [searchedSegment] at searched
  split at searched
  · rename_i own
    obtain ⟨range, member, covers⟩ := List.any_eq_true.mp own.2
    simp only [Bool.and_eq_true, decide_eq_true_eq] at covers
    cases searched
    exact ⟨range, member, covers⟩
  · obtain ⟨range, found, same⟩ := Option.map_eq_some_iff.mp searched
    have covers := List.find?_some found
    exact ⟨range, List.mem_of_find?_eq_some found, same, covers⟩

/-- A marked segment with a range that covers the offset is the one to look in. -/
theorem searchedSegment_marked {ranges : List DwarfAddrRange} {marked : BitVec 16}
    {offset : BitVec 32} (some_segment : marked ≠ 0)
    (covered : ∃ range ∈ ranges, range.segment = marked ∧ range.covers offset = true) :
    searchedSegment ranges marked offset = some marked := by
  obtain ⟨range, member, same, covers⟩ := covered
  have own : (ranges.any fun range => range.segment = marked && range.covers offset) = true :=
    List.any_eq_true.mpr ⟨range, member, by simp [same, covers]⟩
  rw [searchedSegment, if_pos ⟨some_segment, own⟩]

/-- What is reported of a segment and an offset. -/
theorem reportAt_eq_some_iff {segment : BitVec 16} {offset : BitVec 32} {report : LineReport} :
    reportAt info segment offset = some report ↔
      ∃ row, rowOfAddr info segment offset = some row ∧
        report = ⟨rowFileName info row, row.line, segment, offset⟩ := by
  simp only [reportAt, dwarfAddrToLine, Option.map_map, Option.map_eq_some_iff,
    Function.comp_apply]
  constructor
  · rintro ⟨row, found, rfl⟩
    exact ⟨row, found, rfl⟩
  · rintro ⟨row, found, rfl⟩
    exact ⟨row, found, rfl⟩

/-- Every selector is that of a slot. -/
theorem selectorSlot_lt (cs : BitVec 16) : selectorSlot cs < lxMaxLdtSlots := by
  have bound := cs.isLt
  rw [selectorSlot, BitVec.toNat_ushiftRight, Nat.shiftRight_eq_div_pow, lxMaxLdtSlots]
  omega

/-- A lookup reports of the segment it looks in, above the base of the slot. -/
theorem dwarfLinearToLine_eq_some_iff {state : DebugSharedState} {linearAddr : BitVec 32}
    {cs : BitVec 16} {report : LineReport} :
    dwarfLinearToLine info (some state) false linearAddr cs = some report ↔
      state.selectors (selectorSlot cs) ≠ 0 ∧ state.selectors (selectorSlot cs) ≤ linearAddr ∧
        ∃ segment, searchedSegment info.ranges (state.neSegment (selectorSlot cs))
            (linearAddr - state.selectors (selectorSlot cs)) = some segment ∧
          reportAt info segment (linearAddr - state.selectors (selectorSlot cs)) = some report := by
  have inside : ¬ lxMaxLdtSlots ≤ selectorSlot cs := Nat.not_le.mpr (selectorSlot_lt cs)
  unfold dwarfLinearToLine
  by_cases skip : (!info.loaded || info.ranges.length == 0) = true
  · -- Without information or ranges nothing is found in the other form either.
    have nothing : ∀ segment offset, searchedSegment info.ranges
        (state.neSegment (selectorSlot cs)) offset = some segment →
          reportAt info segment offset ≠ some report := by
      intro segment offset searched found
      simp only [Bool.or_eq_true, Bool.not_eq_true', beq_iff_eq, List.length_eq_zero_iff] at skip
      rcases skip with unloaded | empty
      · simp [reportAt, dwarfAddrToLine, rowOfAddr, unloaded] at found
      · simp [searchedSegment, empty] at searched
    rw [if_pos skip]
    constructor
    · intro found
      cases found
    · rintro ⟨_, _, segment, searched, found⟩
      exact absurd found (nothing segment _ searched)
  · rw [if_neg skip, if_neg Bool.false_ne_true]
    simp only [if_neg inside]
    by_cases zero : state.selectors (selectorSlot cs) = 0
    · simp [zero]
    · by_cases lower : linearAddr < state.selectors (selectorSlot cs)
      · simp [lower, BitVec.not_le.mpr lower]
      · simp only [if_neg zero, if_neg lower, Option.bind_eq_some_iff]
        exact ⟨fun found => ⟨zero, BitVec.not_lt.mp lower, found⟩, fun found => found.2.2⟩

/-- Whether a lookup of an address in the slot of a selector is right. -/
def LookupRight (info : DwarfInfo) (program : NeProgram) (state : DebugSharedState)
    (linearAddr : BitVec 32) (cs : BitVec 16) : Prop :=
  let base := state.selectors (selectorSlot cs)
  let offset := linearAddr - base
  base = 0 ∨ linearAddr < base ∨
    (∃ number, program.Numbers (selectorSlot cs) number ∧
      ∃ range ∈ info.ranges, range.segment = number ∧ range.covers offset = true) ∨
    ∀ segment, searchedSegment info.ranges (state.neSegment (selectorSlot cs)) offset = some segment →
      ¬ (info.loaded = true ∧ InSequence segment offset info.lines)

/-- A program with one segment, in slot 4. -/
def oneSegment : NeProgram where
  mmaps := [{ addr := 0x10000000, size := 0x10000, alias16 := 4 }]
  distinct := by decide
  inside := by decide

/-- The debug information of one line in it. -/
def oneLine : DwarfInfo where
  lines := [⟨1, 0, 10, 1, false⟩, ⟨1, 0x100, 10, 1, true⟩]
  fileNames := [[97]]
  ranges := [⟨1, 0, 0x100⟩]

/-- The table that holds the program in slot 4, and a library with one segment in slot 5. -/
def sharedSlots : DebugSharedState :=
  fillDebugState (fun slot => if slot = 4 then 0x10000000 else if slot = 5 then 0x10010000 else 0)
    [[{ addr := 0x10010000, size := 0x10000, alias16 := 5 }]] oneSegment.mmaps
    ⟨fun _ => 0, fun _ => 0, fun _ => 0, fun _ => 0, fun _ => 0⟩

end TwoIne
