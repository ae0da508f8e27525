import TwoIne.DosCalls.ResetBuffer

/-!
Resetting all buffers reads the table at the handle that was passed, for each slot again, so it does
what it has to only where there is no slot at all.
-/

namespace TwoIne

/-- The handles that are open, with their descriptors, in the order of the table. -/
def HandleTable.openHandles (t : HandleTable) : List (Nat × Int) :=
  (List.range t.maxHFiles).filterMap fun handle =>
    let fd := getHFileUnixDescriptor t handle
    if 0 ≤ fd then some (handle, fd) else none

/-- What resetting all buffers has to do. -/
structure ResetsAll (t : HandleTable) (r : Reset) : Prop where
  /-- The table is read within its bounds. -/
  within : ∀ index ∈ r.indexes, index < t.maxHFiles
  /-- Each open handle is flushed once, and nothing else is. -/
  once : (r.flushes.map fun flush => (flush.handle, flush.fd)).Perm t.openHandles
  /-- Without a failure there is no error. -/
  succeeds : (∀ flush ∈ r.flushes, flush.ret = .noError) → r.err = .noError
  /-- The error is the one of the lowest handle that failed. -/
  lowest : ∀ flush ∈ r.flushes, flush.ret ≠ .noError →
    (∀ other ∈ r.flushes, other.ret ≠ .noError → flush.handle ≤ other.handle) → r.err = flush.ret

variable {fsync : Fsync} {stray : Nat → Int} {t : HandleTable} {hFile : Nat} {r : Reset}

/-- Looking at a slot reads the table at its index. -/
theorem resetSlot_indexes :
    (resetSlot fsync stray t hFile r).indexes = r.indexes ++ [hFile] := by
  rw [resetSlot]
  split <;> rfl

/-- The loop reads the table at one and the same index, once for each slot. -/
theorem resetSlots_indexes (left : Nat) :
    (resetSlots fsync stray t hFile left r).indexes = r.indexes ++ List.replicate left hFile := by
  -- The index does not change from one turn to the next.
  induction left generalizing r with
  | zero => simp [resetSlots]
  | succ left ih =>
    rw [resetSlots, ih, resetSlot_indexes, List.append_assoc, List.replicate_succ]
    rfl

/-- The highest index is none of a table that fits the address space. -/
theorem HandleTable.Sized.below_all (sized : t.Sized) : t.maxHFiles < allHandles := by
  have fits := sized.fits
  simp only [sizeofHFileInfo] at fits
  show t.maxHFiles < 0xFFFFFFFF
  omega

/-- Resetting all buffers is right exactly if the table has no slots. -/
theorem reset_all_right_iff (sized : t.Sized) (fsync : Fsync) (stray : Nat → Int) :
    ResetsAll t (DosResetBuffer fsync stray t allHandles) ↔ t.maxHFiles = 0 := by
  rw [DosResetBuffer, if_pos rfl]
  constructor
  · intro right
    -- The first turn already reads the table behind its end.
    by_contra slots
    have indexes : (resetSlots fsync stray t allHandles t.maxHFiles {}).indexes =
        List.replicate t.maxHFiles allHandles := by
      rw [resetSlots_indexes, List.nil_append]
    have read := right.within allHandles (by
      rw [indexes]
      exact List.mem_replicate.mpr ⟨slots, rfl⟩)
    exact absurd read (Nat.lt_asymm sized.below_all)
  · intro empty
    rw [empty, resetSlots]
    have none_open : t.openHandles = [] := by
      rw [HandleTable.openHandles, empty]
      rfl
    constructor
    · intro index among
      cases among
    · rw [none_open]
      exact List.Perm.nil
    · intro _
      rfl
    · intro flush among
      cases among

/-- A table without slots is reset as it has to be. -/
theorem no_slots_reset :
    ResetsAll ⟨[], 0⟩ (DosResetBuffer (fun _ _ => none) (fun _ => 7) ⟨[], 0⟩ allHandles) :=
  (reset_all_right_iff (t := ⟨[], 0⟩) ⟨rfl, by decide⟩ _ _).mpr rfl

/-- With one open handle, a descriptor from outside the table is flushed instead of its own. -/
theorem open_handle_not_reset :
    let t : HandleTable := ⟨[⟨3, 0, 0, 0⟩], 1⟩
    let r := DosResetBuffer (fun _ _ => none) (fun _ => 7) t allHandles
    r.indexes = [0xFFFFFFFF] ∧ r.flushes = [⟨0xFFFFFFFF, 7, .noError⟩] ∧ ¬ ResetsAll t r := by
  intro t r
  refine ⟨rfl, rfl, fun right => ?_⟩
  have read := right.within 0xFFFFFFFF (List.mem_singleton.mpr rfl)
  exact absurd read (by decide)

end TwoIne
