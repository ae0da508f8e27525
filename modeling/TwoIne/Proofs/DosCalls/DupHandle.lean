import TwoIne.DosCalls.DupHandle
import TwoIne.Proofs.DosCalls.Open

/-!
A handle is duplicated as it has to be exactly if a call that gets as far as the copy has an open
handle to copy and a descriptor left for it.
-/

namespace TwoIne

open Posix

/-- The slot that a call would use: any one that is available, or a certain one if it is free. -/
def targetSlot (t : HandleTable) (pHfile : Nat) : Option Nat :=
  if pHfile = anyHandle then t.freeSlot
  else if getHFileUnixDescriptor t pHfile = -1 ∧ pHfile < t.maxHFiles then some pHfile
  else none

/-- The file behind a handle, if the handle is an open one in range. -/
def fileOf (h : Host) (t : HandleTable) (hFile : Nat) : Option String :=
  pathOf (getHFileUnixDescriptor t hFile) h

/-- The new handle leads to the file of the old one, with its type, attributes and flags. -/
structure CopiesHandle (hFile slot : Nat) (h : Host) (t : HandleTable) (out : Duplicated) :
    Prop where
  answer : out.ret = .noError
  handle : out.pHfile = slot
  file : fileOf out.host out.table slot = fileOf h t hFile
  info : ∃ old new, t.hFiles[hFile]? = some old ∧ out.table.hFiles[slot]? = some new ∧
    new.type = old.type ∧ new.attr = old.attr ∧ new.flags = old.flags
  others : ∀ other ≠ slot, out.table.hFiles[other]? = t.hFiles[other]?
  slots : out.table.maxHFiles = t.maxHFiles
  descriptors : ∀ fd path, h.descriptors fd = some path → out.host.descriptors fd = some path

/-- A call that fails leaves everything as it was. -/
structure KeepsHandles (pHfile : Nat) (h : Host) (t : HandleTable) (out : Duplicated) : Prop where
  answer : out.ret ≠ .noError
  handle : out.pHfile = pHfile
  table : out.table = t
  host : out.host = h

/--
What a call has to do: for an open handle, a slot for the copy and a descriptor that is left it makes
the copy, and otherwise it fails.
-/
def DupRight (limit hFile pHfile : Nat) (h : Host) (t : HandleTable) (out : Duplicated) : Prop :=
  match targetSlot t pHfile with
  | some slot =>
    if (fileOf h t hFile).isSome ∧ ∃ next < limit, h.descriptors next = none then
      CopiesHandle hFile slot h t out
    else KeepsHandles pHfile h t out
  | none => KeepsHandles pHfile h t out

/--
The condition for a call: a certain target is in range, and where there is a slot for the copy the
handle is open and a descriptor is left.
-/
def DupCond (limit hFile pHfile : Nat) (h : Host) (t : HandleTable) : Prop :=
  (pHfile ≠ anyHandle → pHfile < t.maxHFiles) ∧
    (targetSlot t pHfile ≠ none →
      (fileOf h t hFile).isSome ∧ ∃ next < limit, h.descriptors next = none)

section Copying

variable {limit hFile i : Nat} {h : Host} {t : HandleTable}

/-- The descriptor behind a handle of the table. -/
theorem descriptor_of_slot (sized : t.Sized) {info : HFileInfo} (slot : t.hFiles[i]? = some info) :
    i < t.maxHFiles ∧ getHFileUnixDescriptor t i = info.fd := by
  obtain ⟨inside, _⟩ := List.getElem?_eq_some_iff.mp slot
  rw [sized.slots] at inside
  refine ⟨inside, ?_⟩
  rw [getHFileUnixDescriptor, if_pos inside, slot]
  rfl

/-- Copying a slot of the table, with the answer of the host. -/
theorem copySlot_inside {info : HFileInfo} (slot : t.hFiles[hFile]? = some info)
    (inside : i < t.hFiles.length) :
    copySlot limit hFile i h t =
      match dup info.fd limit h with
      | .ok (h, fd) => some (h, t.setSlot i { info with fd := fd })
      | .error _ => some (h, t.setSlot i { info with fd := -1 }) := by
  rw [copySlot, slot]
  exact if_pos inside

/-- Copying an open handle while a descriptor is left. -/
theorem copySlot_copies {info : HFileInfo} (slot : t.hFiles[hFile]? = some info)
    (inside : i < t.hFiles.length) (opened : (pathOf info.fd h).isSome)
    (room : ∃ next < limit, h.descriptors next = none) :
    ∃ k fd, dup info.fd limit h = .ok (k, fd) ∧
      copySlot limit hFile i h t = some (k, t.setSlot i { info with fd := fd }) := by
  obtain ⟨⟨k, fd⟩, duplicated⟩ := (dup_ok_iff info.fd limit h).mpr ⟨opened, room⟩
  refine ⟨k, fd, duplicated, ?_⟩
  rw [copySlot_inside slot inside, duplicated]

/-- Copying a handle that is not open, or without a descriptor for it, succeeds in nothing. -/
theorem copySlot_fails {info : HFileInfo} (slot : t.hFiles[hFile]? = some info)
    (inside : i < t.hFiles.length)
    (fails : ¬ ((pathOf info.fd h).isSome ∧ ∃ next < limit, h.descriptors next = none)) :
    copySlot limit hFile i h t = some (h, t.setSlot i { info with fd := -1 }) := by
  rw [copySlot_inside slot inside]
  cases duplicated : dup info.fd limit h with
  | error err => rfl
  | ok answer => exact absurd ((dup_ok_iff info.fd limit h).mp ⟨answer, duplicated⟩) fails

/-- Negative descriptors lead nowhere. -/
theorem pathOf_negative {fd : Int} (negative : fd < 0) (h : Host) : pathOf fd h = none :=
  if_neg (Int.not_le.mpr negative)

/-- It makes no difference that the slot was reserved, not even for a copy of itself. -/
theorem copySlot_reserved {info : HFileInfo} (slot : t.hFiles[i]? = some info) (free : info.fd = -1) :
    copySlot limit hFile i h (t.setSlot i { info with fd := -2 }) = copySlot limit hFile i h t := by
  obtain ⟨inside, _⟩ := List.getElem?_eq_some_iff.mp slot
  have length : i < (t.setSlot i { info with fd := -2 }).hFiles.length := by
    rw [HandleTable.setSlot, List.length_set]
    exact inside
  by_cases same : hFile = i
  · -- Neither the mark of a free slot nor that of a reserved one is a descriptor.
    subst same
    have reserved := pathOf_negative (show (-2 : Int) < 0 by decide) h
    have unused := pathOf_negative (show (-1 : Int) < 0 by decide) h
    rw [copySlot_fails (setSlot_get slot _) length (by simp [reserved]), setSlot_twice,
      copySlot_fails slot inside (by simp [free, unused])]
  · have other : (t.setSlot i { info with fd := -2 }).hFiles[hFile]? = t.hFiles[hFile]? :=
      List.getElem?_set_ne (Ne.symm same)
    rw [copySlot, copySlot, other]
    cases t.hFiles[hFile]? with
    | none => rfl
    | some old =>
      dsimp only
      rw [if_pos length, if_pos inside]
      cases dup old.fd limit h with
      | ok answer => simp only [setSlot_twice]
      | error err => simp only [setSlot_twice]

/-- A slot that a call would use is a free one of the table. -/
theorem targetSlot_spec (sized : t.Sized) {pHfile slot : Nat}
    (target : targetSlot t pHfile = some slot) :
    ∃ info, t.hFiles[slot]? = some info ∧ info.fd = -1 := by
  unfold targetSlot at target
  split at target
  · exact freeSlot_spec target
  · split at target
    · next free =>
      cases target
      have inside : pHfile < t.hFiles.length := by
        rw [sized.slots]
        exact free.2
      have read := List.getElem?_eq_getElem inside
      refine ⟨_, read, ?_⟩
      rw [← (descriptor_of_slot sized read).2]
      exact free.1
    · cases target

/-- With a slot for it, a call makes the copy whatever comes of it. -/
theorem dupHandle_slot (sized : t.Sized) {pHfile slot : Nat}
    (target : targetSlot t pHfile = some slot) :
    DosDupHandle limit hFile pHfile h t =
      (copySlot limit hFile slot h t).map fun (h, t) => ⟨h, t, slot, .noError⟩ := by
  obtain ⟨info, read, free⟩ := targetSlot_spec sized target
  unfold targetSlot at target
  rw [DosDupHandle]
  split at target
  · next any =>
    rw [if_pos any, target]
    dsimp only
    rw [read]
    dsimp only
    rw [copySlot_reserved read free]
  · next certain =>
    split at target
    · cases target
      rw [if_neg certain, read]
      dsimp only
      rw [if_neg (not_not.mpr free)]
    · cases target

/-- Without a slot for it, a call fails, or looks at a slot outside of the table. -/
theorem dupHandle_noSlot (sized : t.Sized) (limit hFile : Nat) (h : Host) {pHfile : Nat}
    (target : targetSlot t pHfile = none) :
    (pHfile = anyHandle ∧
        DosDupHandle limit hFile pHfile h t = some ⟨h, t, pHfile, .errorTooManyOpenFiles⟩) ∨
      (pHfile ≠ anyHandle ∧ pHfile < t.maxHFiles ∧
        DosDupHandle limit hFile pHfile h t = some ⟨h, t, pHfile, .errorInvalidTargetHandle⟩) ∨
      (pHfile ≠ anyHandle ∧ ¬ pHfile < t.maxHFiles ∧
        DosDupHandle limit hFile pHfile h t = none) := by
  unfold targetSlot at target
  rw [DosDupHandle]
  split at target
  · next any =>
    rw [if_pos any, target]
    exact .inl ⟨any, rfl⟩
  · next certain =>
    rw [if_neg certain]
    split at target
    · cases target
    · next occupied =>
      by_cases inside : pHfile < t.maxHFiles
      · have read := List.getElem?_eq_getElem (sized.slots ▸ inside)
        rw [(descriptor_of_slot sized read).2] at occupied
        have open_slot := fun free => occupied ⟨free, inside⟩
        rw [read]
        exact .inr (.inl ⟨certain, inside, if_pos open_slot⟩)
      · have outside : t.hFiles[pHfile]? = none := by
          rw [List.getElem?_eq_none_iff, sized.slots]
          exact Nat.le_of_not_lt inside
        rw [outside]
        exact .inr (.inr ⟨certain, inside, rfl⟩)

/-- The copy of an open handle is what it has to be. -/
theorem copiesHandle {slot fd : Nat} {k : Host} {old info : HFileInfo}
    (sized : t.Sized) (source : t.hFiles[hFile]? = some old) (read : t.hFiles[slot]? = some info)
    (duplicated : dup old.fd limit h = .ok (k, fd)) :
    CopiesHandle hFile slot h t ⟨k, t.setSlot slot { old with fd := fd }, slot, .noError⟩ := by
  obtain ⟨same_path, _, unused, _, kept⟩ := dup_spec duplicated
  have inside := (descriptor_of_slot sized read).1
  have written := setSlot_get read { old with fd := (fd : Int) }
  have new_descriptor :
      getHFileUnixDescriptor (t.setSlot slot { old with fd := fd }) slot = fd := by
    rw [getHFileUnixDescriptor, written]
    exact if_pos inside
  refine ⟨rfl, rfl, ?_, ⟨old, _, source, written, rfl, rfl, rfl⟩, ?_, rfl, ?_⟩
  · show pathOf (getHFileUnixDescriptor (t.setSlot slot { old with fd := fd }) slot) k = _
    rw [new_descriptor, same_path, fileOf, (descriptor_of_slot sized source).2]
  · exact fun other away => List.getElem?_set_ne (Ne.symm away)
  · intro other path opened
    show k.descriptors other = some path
    rw [kept other (fun same => by rw [same, unused] at opened; cases opened), opened]

end Copying

/--
For every table, handle and target a call does what it has to do exactly if a certain target is in
range, and, where there is a slot for the copy, the handle is open and a descriptor is left.
-/
theorem dup_handle_right_iff {t : HandleTable} (sized : t.Sized) (limit hFile pHfile : Nat)
    (h : Host) :
    (∃ out, DosDupHandle limit hFile pHfile h t = some out ∧
      DupRight limit hFile pHfile h t out) ↔ DupCond limit hFile pHfile h t := by
  unfold DupRight DupCond
  cases target : targetSlot t pHfile with
  | none =>
    rcases dupHandle_noSlot sized limit hFile h target with
      ⟨any, does⟩ | ⟨certain, inside, does⟩ | ⟨certain, outside, does⟩
    · refine iff_of_true ⟨_, does, ⟨by simp, rfl, rfl, rfl⟩⟩ ?_
      exact ⟨fun certain => absurd any certain, fun slot => absurd rfl slot⟩
    · refine iff_of_true ⟨_, does, ⟨by simp, rfl, rfl, rfl⟩⟩ ?_
      exact ⟨fun _ => inside, fun slot => absurd rfl slot⟩
    · -- The table is read behind its end.
      refine iff_of_false ?_ (fun condition => outside (condition.1 certain))
      intro right
      obtain ⟨out, answer, _⟩ := right
      rw [does] at answer
      cases answer
  | some slot =>
    obtain ⟨info, read, free⟩ := targetSlot_spec sized target
    obtain ⟨inside, _⟩ := List.getElem?_eq_some_iff.mp read
    have in_range : pHfile ≠ anyHandle → pHfile < t.maxHFiles := by
      intro certain
      rw [targetSlot, if_neg certain] at target
      split at target
      · next both => exact both.2
      · cases target
    simp only [dupHandle_slot sized target]
    have condition :
        ((pHfile ≠ anyHandle → pHfile < t.maxHFiles) ∧
          (some slot ≠ none →
            (fileOf h t hFile).isSome ∧ ∃ next < limit, h.descriptors next = none)) ↔
        (fileOf h t hFile).isSome ∧ ∃ next < limit, h.descriptors next = none :=
      ⟨fun both => both.2 (by simp), fun good => ⟨in_range, fun _ => good⟩⟩
    rw [condition]
    cases source : t.hFiles[hFile]? with
    | none =>
      -- The handle is read behind the end of the table, and is no open one.
      have outside : ¬ hFile < t.maxHFiles := by
        rw [List.getElem?_eq_none_iff, sized.slots] at source
        omega
      have closed : fileOf h t hFile = none := by
        rw [fileOf, getHFileUnixDescriptor, if_neg outside]
        exact pathOf_negative (by decide) h
      have fault : copySlot limit hFile slot h t = none := by rw [copySlot, source]
      rw [fault]
      simp [closed]
    | some old =>
      have file : fileOf h t hFile = pathOf old.fd h := by
        rw [fileOf, (descriptor_of_slot sized source).2]
      by_cases good : (fileOf h t hFile).isSome ∧ ∃ next < limit, h.descriptors next = none
      · refine iff_of_true ?_ good
        rw [file] at good
        obtain ⟨k, fd, duplicated, does⟩ := copySlot_copies source inside good.1 good.2
        rw [← file] at good
        rw [does]
        refine ⟨_, rfl, ?_⟩
        rw [if_pos good]
        exact copiesHandle sized source read duplicated
      · -- The call claims to have succeeded.
        refine iff_of_false ?_ good
        have fails := good
        rw [file] at fails
        rw [copySlot_fails source inside fails]
        intro right
        obtain ⟨out, answer, kept⟩ := right
        cases answer
        rw [if_neg good] at kept
        exact kept.answer rfl

/-- For a table of the size that 16 bits have room for, nothing is lost on the way back. -/
theorem dos16DupHandle_eq {t : HandleTable} (sized : t.Sized) (small : t.maxHFiles ≤ 0x8000)
    {pHfile : Nat} (narrow : pHfile < 0x10000) (limit hFile : Nat) (h : Host) :
    Dos16DupHandle limit hFile pHfile h t =
      (DosDupHandle limit hFile (signExtend16 pHfile) h t).map fun out =>
        { out with pHfile := if out.ret = .noError then out.pHfile else pHfile } := by
  have cut : signExtend16 pHfile % 0x10000 = pHfile := by
    unfold signExtend16
    split <;> omega
  unfold Dos16DupHandle
  cases target : targetSlot t (signExtend16 pHfile) with
  | none =>
    rcases dupHandle_noSlot sized limit hFile h target with
      ⟨_, does⟩ | ⟨_, _, does⟩ | ⟨_, _, does⟩ <;> rw [does] <;> simp [cut]
  | some slot =>
    -- The slot is one of the table, so 16 bits have room for it.
    obtain ⟨info, read, _⟩ := targetSlot_spec sized target
    have inside := (descriptor_of_slot sized read).1
    have fits : slot % 0x10000 = slot := Nat.mod_eq_of_lt (by omega)
    rw [dupHandle_slot sized target]
    cases copySlot limit hFile slot h t with
    | none => rfl
    | some copied => simp [fits]

/-- A table with an open handle and a free one, on a host with a file behind the descriptor. -/
def twoHandles : HandleTable := ⟨[⟨0, 0, 0, 0⟩, .unused], 2⟩

/-- A host with one descriptor. -/
def oneDescriptor : Host where
  files _ := none
  descriptors fd := if fd = 0 then some "con" else none

/-- The open handle is duplicated to the free one. -/
theorem open_handle_duplicated :
    (∃ out, DosDupHandle 4 0 1 oneDescriptor twoHandles = some out ∧
      DupRight 4 0 1 oneDescriptor twoHandles out) ↔ DupCond 4 0 1 oneDescriptor twoHandles :=
  dup_handle_right_iff ⟨rfl, by decide⟩ 4 0 1 oneDescriptor

/-- Duplicating the free handle to itself is answered with success. -/
theorem free_handle_duplicated :
    (∃ out, DosDupHandle 4 1 anyHandle oneDescriptor twoHandles = some out ∧
      out.ret = .noError ∧ out.pHfile = 1 ∧ out.table = twoHandles) ∧
    ¬ ∃ out, DosDupHandle 4 1 anyHandle oneDescriptor twoHandles = some out ∧
      DupRight 4 1 anyHandle oneDescriptor twoHandles out := by
  refine ⟨⟨_, rfl, rfl, rfl, rfl⟩, ?_⟩
  intro right
  obtain ⟨out, answer, does⟩ := right
  cases answer
  -- No file is behind the handle, so the call has to fail.
  have kept : KeepsHandles anyHandle oneDescriptor twoHandles _ := does
  exact kept.answer rfl

end TwoIne
