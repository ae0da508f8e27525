import TwoIne.Debugger.LineTable

/-! Rows that the lookups in the line table come to. -/

namespace TwoIne

variable {segment : BitVec 16} {offset : BitVec 32} {rows rest : List DwarfLineEntry}
  {best : Option DwarfLineEntry} {bestAddr : BitVec 32} {row : DwarfLineEntry}

/-- Whether a row stands at an offset or below, in a sequence that ends above it. -/
structure Around (segment : BitVec 16) (offset : BitVec 32) (row : DwarfLineEntry)
    (rest : List DwarfLineEntry) : Prop where
  within : row.endSequence = false
  segment : row.segment = segment
  below : row.address ≤ offset
  before : offset < endAddress rest

/-- Whether an offset lies in the sequence of one of the rows. -/
def InSequence (segment : BitVec 16) (offset : BitVec 32) : List DwarfLineEntry → Prop
  | [] => False
  | row :: rest => Around segment offset row rest ∨ InSequence segment offset rest

/-- A row around the offset is taken if it is no worse than the last one. -/
theorem bestRow_taken (around : Around segment offset row rest)
    (better : bestAddr ≤ row.address) :
    bestRow segment offset (row :: rest) best bestAddr =
      bestRow segment offset rest (some row) row.address := by
  -- None of the reasons to pass over the row applies.
  have other : ¬ row.segment ≠ segment := not_not.mpr around.segment
  rw [bestRow, if_neg (Bool.eq_false_iff.mp around.within), if_neg other,
    if_neg (BitVec.not_lt.mpr around.below), if_neg (BitVec.not_le.mpr around.before),
    if_pos better]

/-- A row is passed over if it is not around the offset, or worse than the last one. -/
theorem bestRow_passed
    (worse : ¬ (Around segment offset row rest ∧ bestAddr ≤ row.address)) :
    bestRow segment offset (row :: rest) best bestAddr =
      bestRow segment offset rest best bestAddr := by
  -- One of the reasons to pass over the row applies.
  rw [bestRow]
  split
  · rfl
  · rename_i within
    split
    · rfl
    · rename_i same
      split
      · rfl
      · rename_i below
        split
        · rfl
        · rename_i before
          have around : Around segment offset row rest := ⟨Bool.eq_false_iff.mpr within,
            not_not.mp same, BitVec.not_lt.mp below, BitVec.not_le.mp before⟩
          exact if_neg fun better => worse ⟨around, better⟩

/-- The best row is of the segment, if the best one so far is. -/
theorem bestRow_segment (so_far : ∀ row, best = some row → row.segment = segment)
    (found : bestRow segment offset rows best bestAddr = some row) : row.segment = segment := by
  -- A row that is taken is of the segment.
  induction rows generalizing best bestAddr with
  | nil => exact so_far row found
  | cons first rest ih =>
    by_cases taken : Around segment offset first rest ∧ bestAddr ≤ first.address
    · rw [bestRow_taken taken.1 taken.2] at found
      apply ih _ found
      intro chosen chosen_eq
      cases chosen_eq
      exact taken.1.segment
    · rw [bestRow_passed taken] at found
      exact ih so_far found

/-- A row is found exactly if the offset lies in the sequence of one, or one was found before. -/
theorem bestRow_isSome_iff (start : best = none → bestAddr = 0) :
    (bestRow segment offset rows best bestAddr).isSome = true ↔
      best.isSome = true ∨ InSequence segment offset rows := by
  -- Any first row around the offset is no worse than none.
  induction rows generalizing best bestAddr with
  | nil => simp [bestRow, InSequence]
  | cons first rest ih =>
    by_cases taken : Around segment offset first rest ∧ bestAddr ≤ first.address
    · have some_best : some first = none → first.address = 0 := fun none => nomatch none
      rw [bestRow_taken taken.1 taken.2, ih some_best]
      simp [InSequence, taken.1]
    · rw [bestRow_passed taken, ih start, InSequence]
      cases best with
      | some chosen => simp
      | none =>
        have elsewhere : ¬ Around segment offset first rest := by
          intro around
          rw [start rfl] at taken
          exact taken ⟨around, BitVec.le_def.mpr (Nat.zero_le _)⟩
        rw [or_iff_right elsewhere]

/-- The best row is one of the table, or the best one so far. -/
theorem bestRow_mem (found : bestRow segment offset rows best bestAddr = some row) :
    row ∈ rows ∨ best = some row := by
  -- Each row of the table is taken or passed over.
  fun_induction bestRow segment offset rows best bestAddr with
  | case1 => exact Or.inr found
  | case6 best bestAddr first rest _ _ _ _ _ ih =>
    rcases ih found with member | same
    · exact Or.inl (List.mem_cons_of_mem _ member)
    · rw [Option.some.injEq] at same
      exact Or.inl (same ▸ List.mem_cons_self)
  | _ =>
    rename_i ih
    exact (ih found).imp_left (List.mem_cons_of_mem _)

/-- An address is only looked up in a row of the table. -/
theorem rowOfAddr_mem {info : DwarfInfo} (found : rowOfAddr info segment offset = some row) :
    row ∈ info.lines := by
  unfold rowOfAddr at found
  split at found
  · cases found
  · exact (bestRow_mem found).resolve_right (by simp)

/-- An address is only looked up in a row of its segment. -/
theorem rowOfAddr_segment {info : DwarfInfo} (found : rowOfAddr info segment offset = some row) :
    row.segment = segment := by
  unfold rowOfAddr at found
  split at found
  · cases found
  · have nothing_yet : ∀ row : DwarfLineEntry, none = some row → row.segment = segment :=
      fun _ found => nomatch found
    exact bestRow_segment nothing_yet found

/-- An address is found exactly if it lies in the sequence of a row. -/
theorem rowOfAddr_isSome_iff (info : DwarfInfo) :
    (rowOfAddr info segment offset).isSome = true ↔
      info.loaded = true ∧ InSequence segment offset info.lines := by
  unfold rowOfAddr
  cases info.loaded with
  | false => simp
  | true =>
    by_cases empty : info.lines = []
    · simp [empty, InSequence]
    · have some_lines : (info.lines.length == 0) = false := by simpa using empty
      simp only [some_lines, Bool.not_true, Bool.or_self, Bool.false_eq_true, if_false]
      rw [bestRow_isSome_iff fun _ => rfl]
      simp

/-- A line is only looked up in a row of the table. -/
theorem rowOfLine_mem {info : DwarfInfo} {filename : List UInt8} {line : BitVec 32}
    (found : rowOfLine info filename line = some row) :
    row ∈ info.lines := by
  unfold rowOfLine at found
  split at found
  · cases found
  · split at found
    · cases found
    · exact List.mem_of_find?_eq_some found

end TwoIne
