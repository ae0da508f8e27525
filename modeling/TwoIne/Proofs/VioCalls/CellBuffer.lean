import Mathlib.Data.Nat.Prime.Basic
import TwoIne.VioCalls.CellBuffer

/-!
The calls on the cells of the screen stay inside of its buffer, and read what was written; the
length that is reported of the buffer is another one.
-/

namespace TwoIne

open ByteBlocks

/-- A screen of some size that was started. -/
structure ScreenOf (scrw scrh : UInt16) (s : VioState) : Prop where
  started : s.started = true
  width : s.scrw = scrw
  height : s.scrh = scrh
  buffer : s.buffer.length = (vioBufferLen scrw scrh).toNat

/-- Where the cell of a row and a column is in the buffer. -/
def cellPlace (scrw row col : UInt16) : Nat := 2 * (row.toNat * scrw.toNat + col.toNat)

/-- How many bytes are left from a cell on to the end of the screen. -/
def bytesLeft (scrw scrh row col : UInt16) : Nat :=
  2 * (scrh.toNat * scrw.toNat) - cellPlace scrw row col

/--
A call writes data from a cell on, up to the end of the screen. It changes nothing else, and reading
at the same position gives what was written.
-/
def WritesCells (scrw scrh : UInt16) (s : VioState) (row col : UInt16) (data : List UInt8)
    (answer : Option VioAnswer) : Prop :=
  ∃ after drawn, answer = some ⟨.noError, after, drawn⟩ ∧ ScreenOf scrw scrh after ∧
    StoredAt s.buffer (cellPlace scrw row col) (data.take (bytesLeft scrw scrh row col))
      after.buffer ∧
    ∀ cb : UInt16, cb.toNat ≤ (data.take (bytesLeft scrw scrh row col)).length →
      vioReadCellStr after cb row col 0 =
        some (.noError, cb, (data.take (bytesLeft scrw scrh row col)).take cb.toNat)

/-- A call that is refused changes nothing. -/
def RefusesWrite (s : VioState) (answer : Option VioAnswer) : Prop :=
  ∃ rc, rc ≠ .noError ∧ answer = some { rc, state := s }

/-- The calls on the cells of a screen stay inside of its buffer. -/
structure CellCallsRight (scrw scrh : UInt16) : Prop where
  wrtCellStr : ∀ s, ScreenOf scrw scrh s → ∀ pch cb row col, row < scrh → col < scrw →
    WritesCells scrw scrh s row col (bytesOf pch cb.toNat) (vioWrtCellStr s pch cb row col 0)
  wrtCharStrAtt : ∀ s, ScreenOf scrw scrh s → ∀ pch cb row col attr, row < scrh → col < scrw →
    WritesCells scrw scrh s row col ((bytesOf pch cb.toNat).flatMap fun c => [c, attr])
      (vioWrtCharStrAtt s pch cb row col attr 0)
  wrtNCell : ∀ s, ScreenOf scrw scrh s → ∀ cell cb row col, row < scrh → col < scrw →
    WritesCells scrw scrh s row col ((List.replicate cb.toNat [cell.1, cell.2]).flatten)
      (vioWrtNCell s cell cb row col 0)
  readCellStr : ∀ s, ScreenOf scrw scrh s → ∀ cb row col, row < scrh → col < scrw →
    ∃ read cells, vioReadCellStr s cb row col 0 = some (.noError, read, cells) ∧
      read.toNat = min cb.toNat (bytesLeft scrw scrh row col) ∧
      cells = (s.buffer.drop (cellPlace scrw row col)).take read.toNat
  refused : ∀ s, ScreenOf scrw scrh s → ∀ row col hvio, hvio ≠ 0 ∨ scrh ≤ row ∨ scrw ≤ col →
    (∀ pch cb, RefusesWrite s (vioWrtCellStr s pch cb row col hvio)) ∧
    (∀ pch cb attr, RefusesWrite s (vioWrtCharStrAtt s pch cb row col attr hvio)) ∧
    (∀ cell cb, RefusesWrite s (vioWrtNCell s cell cb row col hvio)) ∧
    ∀ cb, ∃ rc, rc ≠ .noError ∧ vioReadCellStr s cb row col hvio = some (rc, cb, [])

/-- The length that is reported of the buffer is the one it has. -/
def LengthReported (scrw scrh : UInt16) : Prop :=
  ∀ s, ScreenOf scrw scrh s → ∃ pcbLVB, vioGetBuf s 0 = (.noError, some pcbLVB) ∧
    pcbLVB.toNat = s.buffer.length

section Screens

variable {scrw scrh row col cb : UInt16} {s : VioState} {avail : UInt32}

/-- A length is cut off where less is available. -/
theorem clipLength_toNat (cb : UInt16) (avail : UInt32) :
    (clipLength cb avail).toNat = min cb.toNat avail.toNat := by
  unfold clipLength
  have bound := cb.toNat_lt
  by_cases less : avail < cb.toUInt32
  · have below : avail.toNat < cb.toNat := by simpa [UInt32.lt_iff_toNat_lt] using less
    rw [if_pos less, UInt32.toNat_toUInt16]
    omega
  · have enough : cb.toNat ≤ avail.toNat := by simpa [UInt32.lt_iff_toNat_lt] using less
    rw [if_neg less]
    omega

/-- The cells in front of one are fewer than those of the screen. -/
theorem cell_lt (below : row < scrh) (inside : col < scrw) :
    row.toNat * scrw.toNat + col.toNat < scrh.toNat * scrw.toNat := by
  have rows : row.toNat + 1 ≤ scrh.toNat := UInt16.lt_iff_toNat_lt.mp below
  have columns : col.toNat < scrw.toNat := UInt16.lt_iff_toNat_lt.mp inside
  -- The row of the cell is on the screen as a whole.
  have whole := Nat.mul_le_mul_right scrw.toNat rows
  rw [Nat.add_mul, Nat.one_mul] at whole
  omega

/-- The place of a cell is what it is without wrapping around. -/
theorem cellIndex_toNat (small : scrw.toNat * scrh.toNat < 2 ^ 31) (width : s.scrw = scrw)
    (below : row < scrh) (inside : col < scrw) :
    (s.cellIndex row col).toNat = row.toNat * scrw.toNat + col.toNat ∧
      (s.cellIndex row col * 2).toNat = cellPlace scrw row col := by
  have here := cell_lt below inside
  have two : (2 : UInt32).toNat = 2 := rfl
  rw [Nat.mul_comm] at small
  unfold VioState.cellIndex cellPlace
  rw [width]
  simp only [UInt32.toNat_mul, UInt32.toNat_add, UInt16.toNat_toUInt32, two]
  omega

/-- The cells that are left are those without wrapping around. -/
theorem cellsLeft_toNat (small : scrw.toNat * scrh.toNat < 2 ^ 31) (width : s.scrw = scrw)
    (height : s.scrh = scrh) (below : row < scrh) (inside : col < scrw) :
    2 * (s.cellsLeft row col).toNat = bytesLeft scrw scrh row col ∧
      (s.cellsLeft row col * 2).toNat = bytesLeft scrw scrh row col := by
  have here := cell_lt below inside
  have two : (2 : UInt32).toNat = 2 := rfl
  have rows : row.toNat < scrh.toNat := UInt16.lt_iff_toNat_lt.mp below
  have bound := scrh.toNat_lt
  have product : (scrh.toNat - row.toNat) * scrw.toNat =
      scrh.toNat * scrw.toNat - row.toNat * scrw.toNat := Nat.sub_mul _ _ _
  have difference : (scrh.toUInt32 - row.toUInt32).toNat = scrh.toNat - row.toNat := by
    rw [UInt32.toNat_sub, UInt16.toNat_toUInt32, UInt16.toNat_toUInt32]
    omega
  rw [Nat.mul_comm] at small
  unfold VioState.cellsLeft bytesLeft cellPlace
  rw [width, height]
  simp only [UInt32.toNat_mul, UInt32.toNat_sub, UInt16.toNat_toUInt32, difference, product, two]
  omega

/-- The buffer has two bytes for each cell. -/
theorem ScreenOf.length_eq (screen : ScreenOf scrw scrh s)
    (small : scrw.toNat * scrh.toNat < 2 ^ 31) :
    s.buffer.length = 2 * (scrh.toNat * scrw.toNat) := by
  have two : (2 : UInt32).toNat = 2 := rfl
  rw [screen.buffer, vioBufferLen]
  simp only [UInt32.toNat_mul, UInt16.toNat_toUInt32, two]
  rw [Nat.mul_comm scrh.toNat]
  omega

/-- What is checked first is passed. -/
theorem vioChecked_pass {α : Type} (screen : ScreenOf scrw scrh s) (below : row < scrh)
    (inside : col < scrw) (refused : ApiRet → α) (call : Option α) :
    vioChecked s row col 0 refused call = call := by
  have rows : ¬ scrh ≤ row := UInt16.not_le.mpr below
  have columns : ¬ scrw ≤ col := UInt16.not_le.mpr inside
  unfold vioChecked
  rw [if_neg (not_not.mpr rfl), screen.started, if_neg Bool.noConfusion, screen.height,
    screen.width, if_neg rows, if_neg columns]

/-- What is checked first fails. -/
theorem vioChecked_refused {α : Type} (screen : ScreenOf scrw scrh s) {hvio : UInt16}
    (bad : hvio ≠ 0 ∨ scrh ≤ row ∨ scrw ≤ col) (refused : ApiRet → α) (call : Option α) :
    ∃ rc, rc ≠ .noError ∧ vioChecked s row col hvio refused call = some (refused rc) := by
  unfold vioChecked
  rw [screen.started, screen.height, screen.width]
  by_cases handle : hvio ≠ 0
  · exact ⟨.errorVioInvalidHandle, by decide, if_pos handle⟩
  · rw [if_neg handle, if_neg Bool.noConfusion]
    by_cases rows : scrh ≤ row
    · exact ⟨.errorVioRow, by decide, if_pos rows⟩
    · have columns : scrw ≤ col := (bad.resolve_left handle).resolve_left rows
      exact ⟨.errorVioCol, by decide, by rw [if_neg rows, if_pos columns]⟩

/-- Cells within the buffer can be drawn. -/
theorem cellsFrom_inside {buffer : List UInt8} (count : Nat) :
    ∀ place, place + 2 * count ≤ buffer.length →
      ∃ cells, cellsFrom buffer place count = some cells := by
  induction count with
  | zero => exact fun place _ => ⟨[], rfl⟩
  | succ count ih =>
    intro place room
    obtain ⟨cells, drawn⟩ := ih (place + 2) (by omega)
    rw [cellsFrom, List.getElem?_eq_getElem (by omega), List.getElem?_eq_getElem (by omega)]
    dsimp only
    rw [drawn]
    exact ⟨_, rfl⟩

/-- Reading on a screen. -/
theorem vioReadCellStr_eq (small : scrw.toNat * scrh.toNat < 2 ^ 31)
    (screen : ScreenOf scrw scrh s) (below : row < scrh) (inside : col < scrw) (cb : UInt16) :
    ∃ read, vioReadCellStr s cb row col 0 =
        ((loadBytes s.buffer (cellPlace scrw row col) read.toNat).map fun cells =>
          (.noError, read, cells)) ∧
      read.toNat = min cb.toNat (bytesLeft scrw scrh row col) ∧
      (cb.toNat ≤ bytesLeft scrw scrh row col → read = cb) := by
  have index := cellIndex_toNat small screen.width below inside
  have here := cell_lt below inside
  have two : (2 : UInt32).toNat = 2 := rfl
  have avail : ((s.scrh.toUInt32 * s.scrw.toUInt32 - s.cellIndex row col) * 2).toNat =
      bytesLeft scrw scrh row col := by
    rw [Nat.mul_comm] at small
    rw [screen.width, screen.height]
    simp only [UInt32.toNat_mul, UInt32.toNat_sub, UInt16.toNat_toUInt32, index.1, two]
    unfold bytesLeft cellPlace
    omega
  unfold vioReadCellStr
  rw [vioChecked_pass screen below inside]
  dsimp only
  rw [index.2]
  refine ⟨_, rfl, ?_, ?_⟩
  · rw [clipLength_toNat, avail]
  · intro enough
    apply UInt16.toNat_inj.mp
    rw [clipLength_toNat, avail]
    omega

/-- Drawing stays inside of the buffer. -/
theorem pushToNcurses_inside (small : scrw.toNat * scrh.toNat < 2 ^ 31)
    (screen : ScreenOf scrw scrh s) (below : row < scrh) (inside : col < scrw)
    (numcells : UInt16) : ∃ cells, pushToNcurses s row col numcells = some cells := by
  have here := cell_lt below inside
  have left := cellsLeft_toNat small screen.width screen.height below inside
  unfold pushToNcurses
  apply cellsFrom_inside
  rw [(cellIndex_toNat small screen.width below inside).2, clipLength_toNat,
    screen.length_eq small]
  unfold bytesLeft cellPlace at *
  omega

/-- A call writes its data if it is cut off where the screen ends. -/
theorem vioWrt_writes (small : scrw.toNat * scrh.toNat < 2 ^ 31) (screen : ScreenOf scrw scrh s)
    (below : row < scrh) (inside : col < scrw) {data : Nat → List UInt8} {whole : List UInt8}
    {numcells : UInt16 → UInt16}
    (cut : data (clipLength cb avail).toNat = whole.take (bytesLeft scrw scrh row col)) :
    WritesCells scrw scrh s row col whole (vioWrt s cb row col 0 avail data numcells) := by
  have here := cell_lt below inside
  have short : (whole.take (bytesLeft scrw scrh row col)).length ≤
      bytesLeft scrw scrh row col := by
    rw [List.length_take]
    exact Nat.min_le_left _ _
  have fits : cellPlace scrw row col + (whole.take (bytesLeft scrw scrh row col)).length ≤
      s.buffer.length := by
    rw [screen.length_eq small]
    unfold bytesLeft cellPlace at *
    omega
  obtain ⟨buffer, done, stored⟩ := storeBytes_inside fits
  have after : ScreenOf scrw scrh { s with buffer } :=
    ⟨screen.started, screen.width, screen.height, stored.length.trans screen.buffer⟩
  obtain ⟨drawn, pushed⟩ :=
    pushToNcurses_inside small after below inside (numcells (clipLength cb avail))
  refine ⟨{ s with buffer }, drawn, ?_, after, stored, fun cb' enough => ?_⟩
  · unfold vioWrt
    rw [vioChecked_pass screen below inside]
    dsimp only
    rw [(cellIndex_toNat small screen.width below inside).2, cut, done]
    dsimp only
    rw [pushed]
    rfl
  · -- What is read back is available.
    obtain ⟨read, reads, _, full⟩ := vioReadCellStr_eq small after below inside cb'
    obtain rfl := full (by omega)
    rw [reads, stored.load fits enough]
    rfl

/-- A call that writes is refused by what is checked first. -/
theorem vioWrt_refused (screen : ScreenOf scrw scrh s) {hvio : UInt16}
    (bad : hvio ≠ 0 ∨ scrh ≤ row ∨ scrw ≤ col) {data : Nat → List UInt8}
    {numcells : UInt16 → UInt16} :
    RefusesWrite s (vioWrt s cb row col hvio avail data numcells) :=
  vioChecked_refused screen bad (fun rc => ({ rc, state := s } : VioAnswer)) _

/-- Data of two bytes each is cut off in between of them. -/
theorem flatMap_take_two {α : Type} (pieces : List α) {data : α → List UInt8}
    (two : ∀ piece, (data piece).length = 2) (count : Nat) :
    (pieces.take count).flatMap data = (pieces.flatMap data).take (2 * count) := by
  induction pieces generalizing count with
  | nil => rw [List.take_nil, List.flatMap_nil, List.take_nil]
  | cons piece pieces ih =>
    cases count with
    | zero => rfl
    | succ count =>
      have room : 2 * (count + 1) - (data piece).length = 2 * count := by
        rw [two]
        omega
      have first : (data piece).length ≤ 2 * (count + 1) := by
        rw [two]
        omega
      rw [List.take_succ_cons, List.flatMap_cons, List.flatMap_cons, ih, List.take_append, room,
        List.take_of_length_le first]

/-- A smaller length takes fewer bytes of the caller. -/
theorem bytesOf_min (memory : Nat → UInt8) (count room : Nat) :
    bytesOf memory (min count room) = (bytesOf memory count).take room := by
  unfold bytesOf
  rw [← List.map_take, List.take_range, Nat.min_comm]

/-- On a screen whose bytes can be counted in 32 bits, the calls stay inside of the buffer. -/
theorem cellCalls_right (small : scrw.toNat * scrh.toNat < 2 ^ 31) :
    CellCallsRight scrw scrh := by
  constructor
  · intro s screen pch cb row col below inside
    apply vioWrt_writes small screen below inside
    rw [clipLength_toNat, (cellsLeft_toNat small screen.width screen.height below inside).2]
    exact bytesOf_min pch cb.toNat _
  · intro s screen pch cb row col attr below inside
    apply vioWrt_writes small screen below inside
    -- Each character has two bytes of the cells that are left.
    rw [clipLength_toNat, bytesOf_min, flatMap_take_two _ fun _ => rfl,
      (cellsLeft_toNat small screen.width screen.height below inside).1]
  · intro s screen cell cb row col below inside
    apply vioWrt_writes small screen below inside
    have cells (n : Nat) : (List.replicate n [cell.1, cell.2]).flatten =
        (List.replicate n cell).flatMap fun c => [c.1, c.2] := by
      rw [List.flatMap, List.map_replicate]
    rw [clipLength_toNat, cells, cells, Nat.min_comm, ← List.take_replicate,
      flatMap_take_two _ fun _ => rfl,
      (cellsLeft_toNat small screen.width screen.height below inside).1]
  · intro s screen cb row col below inside
    have here := cell_lt below inside
    obtain ⟨read, reads, length, _⟩ := vioReadCellStr_eq small screen below inside cb
    refine ⟨read, _, ?_, length, rfl⟩
    have fits : cellPlace scrw row col + read.toNat ≤ s.buffer.length := by
      rw [screen.length_eq small, length]
      unfold bytesLeft cellPlace
      omega
    rw [reads, loadBytes, if_pos fits]
    rfl
  · intro s screen row col hvio bad
    refine ⟨fun pch cb => ?_, fun pch cb attr => ?_, fun cell cb => ?_, fun cb => ?_⟩
    · exact vioWrt_refused screen bad
    · exact vioWrt_refused screen bad
    · exact vioWrt_refused screen bad
    · exact vioChecked_refused screen bad (fun rc => (rc, cb, [])) _

/-- No screen of 16-bit sizes has so many cells that the length of its buffer wraps to zero. -/
theorem area_ne {width height : Nat} (narrow : width < 2 ^ 16) (low : height < 2 ^ 16) :
    width * height ≠ 2 ^ 31 := by
  intro area
  -- Both sizes would be powers of two, of which one is too large.
  obtain ⟨a, _, power⟩ := (Nat.dvd_prime_pow Nat.prime_two).mp ⟨height, area.symm⟩
  have small : a < 16 := (Nat.pow_lt_pow_iff_right (by decide)).mp (power ▸ narrow)
  have rest : 2 ^ a * 2 ^ (31 - a) = 2 ^ a * height := by
    rw [← Nat.pow_add, ← power, area]
    congr 1
    omega
  have same : 2 ^ (31 - a) = height := Nat.eq_of_mul_eq_mul_left (Nat.two_pow_pos a) rest
  have large : 2 ^ 16 ≤ 2 ^ (31 - a) := Nat.pow_le_pow_right (by decide) (by omega)
  omega

/-- The length is reported of no screen that has any cells. -/
theorem length_reported_iff : LengthReported scrw scrh ↔ scrw.toNat * scrh.toNat = 0 := by
  have width := scrw.toNat_lt
  have height := scrh.toNat_lt
  have two : (2 : UInt32).toNat = 2 := rfl
  have four : (4 : UInt32).toNat = 4 := rfl
  have area : scrw.toNat * scrh.toNat < 2 ^ 32 := by
    have product := Nat.mul_lt_mul'' width height
    omega
  have report (s : VioState) (screen : ScreenOf scrw scrh s) :
      vioGetBuf s 0 =
        (.noError, some (scrw.toUInt32 * scrh.toUInt32 * 4).toUInt16) := by
    unfold vioGetBuf
    rw [if_neg (not_not.mpr rfl), screen.started, if_neg Bool.noConfusion, screen.width,
      screen.height]
  have value : (scrw.toUInt32 * scrh.toUInt32 * 4).toUInt16.toNat =
      scrw.toNat * scrh.toNat * 4 % 2 ^ 16 := by
    simp only [UInt32.toNat_toUInt16, UInt32.toNat_mul, UInt16.toNat_toUInt32, four]
    omega
  have length : (vioBufferLen scrw scrh).toNat = scrw.toNat * scrh.toNat * 2 % 2 ^ 32 := by
    unfold vioBufferLen
    simp only [UInt32.toNat_mul, UInt16.toNat_toUInt32, two]
    omega
  constructor
  · intro reported
    have screen : ScreenOf scrw scrh (initNcurses scrw scrh) :=
      ⟨rfl, rfl, rfl, List.length_replicate⟩
    obtain ⟨pcbLVB, answer, same⟩ := reported _ screen
    rw [report _ screen] at answer
    cases answer
    rw [value, screen.buffer, length] at same
    have other := area_ne width height
    omega
  · intro empty s screen
    refine ⟨_, report s screen, ?_⟩
    rw [value, screen.buffer, length, empty]
    omega

end Screens

/-- The cell buffer is right: the calls stay inside of it, and its length is reported. -/
structure VioBufferRight (scrw scrh : UInt16) : Prop where
  calls : CellCallsRight scrw scrh
  length : LengthReported scrw scrh

/--
The cell buffer is right only for a screen without cells, since the length is reported for cells of
four bytes. All the calls are right on every screen whose bytes can be counted in 32 bits.
-/
theorem vio_buffer_right_iff (scrw scrh : UInt16) :
    (VioBufferRight scrw scrh ↔ scrw.toNat * scrh.toNat = 0) ∧
      (scrw.toNat * scrh.toNat < 2 ^ 31 → CellCallsRight scrw scrh) := by
  refine ⟨⟨fun right => length_reported_iff.mp right.length, fun empty => ?_⟩, cellCalls_right⟩
  exact ⟨cellCalls_right (by omega), length_reported_iff.mpr empty⟩

/-- Of a screen of 80 columns and 25 rows, twice the length of the buffer is reported. -/
theorem usual_screen_misreported :
    vioGetBuf (initNcurses 80 25) 0 = (.noError, some 8000) ∧
      (initNcurses 80 25).buffer.length = 4000 ∧ ¬ VioBufferRight 80 25 := by
  have report : vioGetBuf (initNcurses 80 25) 0 = (.noError, some 8000) := rfl
  have length : (initNcurses 80 25).buffer.length = 4000 := List.length_replicate
  refine ⟨report, length, fun right => ?_⟩
  -- The screen was just started.
  obtain ⟨pcbLVB, answer, same⟩ :=
    right.length (initNcurses 80 25) ⟨rfl, rfl, rfl, List.length_replicate⟩
  rw [report] at answer
  cases answer
  rw [length] at same
  exact absurd same (by decide)

end TwoIne
