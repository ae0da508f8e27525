import TwoIne.DosCalls.Handles

/-! Growing the handle table: what the relative call does to the handles that are already open. -/

namespace TwoIne

/-- Initialised slots are unused, and the other slots of the block are as they were. -/
theorem initSlots_spec {count i : Nat} {block : List HFileInfo}
    (inside : i + count ≤ block.length) :
    ∃ out, initSlots count i block = some out ∧
      ∀ j, out[j]? = if i ≤ j ∧ j < i + count then some .unused else block[j]? := by
  -- Each step initialises one slot and leaves the length of the block as it was.
  induction count generalizing i block with
  | zero => exact ⟨block, rfl, fun j => by rw [if_neg (by omega)]⟩
  | succ count ih =>
    obtain ⟨out, done, slots⟩ := @ih (i + 1) (block.set i .unused) (by rw [List.length_set]; omega)
    refine ⟨out, by simp only [initSlots, if_pos (show i < block.length by omega), done],
      fun j => ?_⟩
    rw [slots j]
    -- The slot is the one initialised in this step, or the later steps decide.
    rcases eq_or_ne j i with rfl | other
    · rw [if_neg (by omega), if_pos (by omega), List.getElem?_set_self (by omega)]
    · rw [List.getElem?_set_ne (Ne.symm other)]
      by_cases later : i + 1 ≤ j ∧ j < i + 1 + count
      · rw [if_pos later, if_pos (by omega)]
      · rw [if_neg later, if_neg (by omega)]

/-- Initialising more slots than the block has is a fault. -/
theorem initSlots_fault {count i : Nat} {block : List HFileInfo} (some_slot : 0 < count)
    (beyond : block.length < i + count) : initSlots count i block = none := by
  -- Sooner or later the loop comes to a slot the block does not have.
  induction count generalizing i block with
  | zero => omega
  | succ count ih =>
    unfold initSlots
    split
    · -- The slot at hand is inside, so it is a later one that is not.
      apply ih
      · omega
      · rw [List.length_set]
        omega
    · rfl

/--
The block a reallocation returns: the old slots, and behind them whatever the memory contains.
-/
def grownBlock (contents : Nat → HFileInfo) (slots : Nat) (hFiles : List HFileInfo) :
    List HFileInfo :=
  (List.range slots).map fun i => hFiles[i]?.getD (contents i)

@[simp] theorem grownBlock_length (contents : Nat → HFileInfo) (slots : Nat)
    (hFiles : List HFileInfo) :
    (grownBlock contents slots hFiles).length = slots := by
  simp [grownBlock]

/-- A slot of the new block is the old slot, if there was one. -/
theorem grownBlock_get {contents : Nat → HFileInfo} {slots j : Nat} {hFiles : List HFileInfo}
    (inside : j < slots) : (grownBlock contents slots hFiles)[j]? =
      some (hFiles[j]?.getD (contents j)) := by
  simp [grownBlock, inside]

/-- A slot that existed before is in the new block as it was. -/
theorem grownBlock_old {contents : Nat → HFileInfo} {slots j : Nat} {hFiles : List HFileInfo}
    (inside : j < slots) (old : j < hFiles.length) :
    (grownBlock contents slots hFiles)[j]? = hFiles[j]? := by
  -- Inside the old block, the reallocation keeps the contents.
  rw [grownBlock_get inside, List.getElem?_eq_getElem old, Option.getD_some]

/-- A slot that is new contains what the memory contains. -/
theorem grownBlock_new {contents : Nat → HFileInfo} {slots j : Nat} {hFiles : List HFileInfo}
    (inside : j < slots) (new : hFiles.length ≤ j) :
    (grownBlock contents slots hFiles)[j]? = some (contents j) := by
  -- Behind the old block, the reallocation leaves the memory as it finds it.
  rw [grownBlock_get inside, List.getElem?_eq_none new, Option.getD_none]

/-- Asking for memory gives a block of as many slots as the byte count has room for. -/
theorem reallocHFiles_moved {contents : Nat → HFileInfo} {slots : Nat} {hFiles : List HFileInfo}
    (asked : tableBytes slots ≠ 0) :
    reallocHFiles (some contents) (tableBytes slots) hFiles =
      .moved (grownBlock contents (tableBytes slots / sizeofHFileInfo) hFiles) := by
  rw [reallocHFiles, if_neg asked]
  rfl

/-- The byte count wraps at 4 gigabytes, which is 2^28 slots. -/
theorem tableBytes_slots (slots : Nat) : tableBytes slots = sizeofHFileInfo * (slots % 2 ^ 28) := by
  unfold tableBytes sizeofHFileInfo
  omega

/-- The new slots are free, the old ones are as they were, and there are exactly so many more. -/
structure TableGrown (incr : Nat) (t u : HandleTable) : Prop where
  kept : ∀ h, h < t.maxHFiles → u.hFiles[h]? = t.hFiles[h]?
  added : ∀ h, t.maxHFiles ≤ h → h < t.maxHFiles + incr →
    ∃ info, u.hFiles[h]? = some info ∧ info.fd = -1
  grown : u.maxHFiles = t.maxHFiles + incr

/-- Both calls have the same effect: the table grows, or stays as it was when there is no memory. -/
def GrowsAlike (memory : Option (Nat → HFileInfo)) (incr : Nat) (t : HandleTable) : Prop :=
  ∃ u current ret, DosSetRelMaxFH memory (some incr) t = some (u, current) ∧
    DosSetMaxFH memory (t.maxHFiles + incr) t = some (u, ret) ∧
    (memory = none → u = t) ∧ (memory ≠ none → TableGrown incr t u) ∧
    ∀ h, h < t.maxHFiles → getHFileUnixDescriptor u h = getHFileUnixDescriptor t h

/--
What it takes for the relative call to grow the table properly.

Without memory, the byte count must not wrap to nothing. With memory, it must not wrap at all, the
slots at the front that are initialised again must be unused, and the memory of the new slots behind
them must happen to look unused.
-/
def RelGrowthHarmless (memory : Option (Nat → HFileInfo)) (incr : Nat) (t : HandleTable) : Prop :=
  match memory with
  | none => (t.maxHFiles + incr) % 2 ^ 28 ≠ 0
  | some contents =>
    t.maxHFiles + incr < 2 ^ 28 ∧
      (∀ h, h < t.maxHFiles → h < incr → t.hFiles[h]? = some .unused) ∧
      ∀ h, t.maxHFiles ≤ h → incr ≤ h → h < t.maxHFiles + incr → contents h = .unused

/-- When the byte count does not wrap, the relative call initialises the front of the new block. -/
theorem DosSetRelMaxFH_moved {contents : Nat → HFileInfo} {incr : Nat} {t : HandleTable}
    (positive : 0 < incr) (fits : t.maxHFiles + incr < 2 ^ 28) :
    ∃ block, DosSetRelMaxFH (some contents) (some incr) t =
        some (⟨block, t.maxHFiles + incr⟩, t.maxHFiles + incr) ∧
      ∀ j, block[j]? =
        if j < incr then some .unused
        else (grownBlock contents (t.maxHFiles + incr) t.hFiles)[j]? := by
  -- The byte count has room for exactly the slots asked for, and is not zero.
  have slots : tableBytes (t.maxHFiles + incr) / sizeofHFileInfo = t.maxHFiles + incr := by
    rw [tableBytes_slots, Nat.mod_eq_of_lt fits, sizeofHFileInfo,
      Nat.mul_div_cancel_left _ (by decide)]
  have asked : tableBytes (t.maxHFiles + incr) ≠ 0 := by
    rw [tableBytes_slots, Nat.mod_eq_of_lt fits, sizeofHFileInfo]
    omega
  have small : t.maxHFiles + incr < 4294967296 := by omega
  -- The loop starts at slot 0, although the new slots are at the end.
  obtain ⟨block, done, gets⟩ :=
    @initSlots_spec incr 0 (grownBlock contents (t.maxHFiles + incr) t.hFiles) (by simp)
  refine ⟨block, ?_, fun j => ?_⟩
  · simp [DosSetRelMaxFH, Nat.pos_iff_ne_zero.mp positive, reallocHFiles_moved asked, slots,
      done, small]
  · rw [gets j]
    simp

/-- When the byte count does not wrap, the absolute call initialises the end of the new block. -/
theorem DosSetMaxFH_moved {contents : Nat → HFileInfo} {incr : Nat} {t : HandleTable}
    (positive : 0 < incr) (fits : t.maxHFiles + incr < 2 ^ 28) :
    ∃ block, DosSetMaxFH (some contents) (t.maxHFiles + incr) t =
        some (⟨block, t.maxHFiles + incr⟩, .noError) ∧
      ∀ j, block[j]? =
        if t.maxHFiles ≤ j ∧ j < t.maxHFiles + incr then some .unused
        else (grownBlock contents (t.maxHFiles + incr) t.hFiles)[j]? := by
  -- The byte count has room for exactly the slots asked for, and is not zero.
  have slots : tableBytes (t.maxHFiles + incr) / sizeofHFileInfo = t.maxHFiles + incr := by
    rw [tableBytes_slots, Nat.mod_eq_of_lt fits, sizeofHFileInfo,
      Nat.mul_div_cancel_left _ (by decide)]
  have asked : tableBytes (t.maxHFiles + incr) ≠ 0 := by
    rw [tableBytes_slots, Nat.mod_eq_of_lt fits, sizeofHFileInfo]
    omega
  -- The loop starts behind the old slots.
  obtain ⟨block, done, gets⟩ := @initSlots_spec incr t.maxHFiles
    (grownBlock contents (t.maxHFiles + incr) t.hFiles) (by simp)
  refine ⟨block, ?_, gets⟩
  simp [DosSetMaxFH, Nat.pos_iff_ne_zero.mp positive, reallocHFiles_moved asked, slots, done]

/-- When the byte count wraps, the relative call writes outside the block or loses it. -/
theorem DosSetRelMaxFH_wrapped {contents : Nat → HFileInfo} {incr : Nat} {t : HandleTable}
    (sized : t.Sized) (positive : 0 < incr) (wraps : 2 ^ 28 ≤ t.maxHFiles + incr) :
    DosSetRelMaxFH (some contents) (some incr) t = none := by
  have fits := sized.fits
  unfold sizeofHFileInfo at fits
  have nonzero : incr ≠ 0 := Nat.pos_iff_ne_zero.mp positive
  by_cases asked : tableBytes (t.maxHFiles + incr) = 0
  · -- A reallocation to no bytes frees the block.
    simp [DosSetRelMaxFH, nonzero, reallocHFiles, asked]
  · -- The block has fewer slots than are added.
    have short : tableBytes (t.maxHFiles + incr) / sizeofHFileInfo < incr := by
      rw [tableBytes_slots, sizeofHFileInfo, Nat.mul_div_cancel_left _ (by decide)]
      omega
    have fault := @initSlots_fault incr 0
      (grownBlock contents (tableBytes (t.maxHFiles + incr) / sizeofHFileInfo) t.hFiles) positive
      (by simpa using short)
    simp [DosSetRelMaxFH, nonzero, reallocHFiles_moved asked, fault]

/-- Handles with the same slots have the same descriptors. -/
theorem TableGrown.descriptors {incr : Nat} {t u : HandleTable}
    (grown : TableGrown incr t u) {h : Nat}
    (old : h < t.maxHFiles) : getHFileUnixDescriptor u h = getHFileUnixDescriptor t h := by
  -- The handle is below both maxima, and its slot is as it was.
  have inside : h < u.maxHFiles := by rw [grown.grown]; omega
  rw [getHFileUnixDescriptor, getHFileUnixDescriptor, if_pos old, if_pos inside, grown.kept h old]

/--
Without memory both calls change nothing, unless the byte count is zero and the old block is freed.
-/
theorem growsAlike_none_iff {incr : Nat} {t : HandleTable} (positive : 0 < incr) :
    GrowsAlike none incr t ↔ (t.maxHFiles + incr) % 2 ^ 28 ≠ 0 := by
  have nonzero : incr ≠ 0 := Nat.pos_iff_ne_zero.mp positive
  have bytes : tableBytes (t.maxHFiles + incr) = 0 ↔ (t.maxHFiles + incr) % 2 ^ 28 = 0 := by
    rw [tableBytes_slots, sizeofHFileInfo]
    omega
  rw [Ne, ← bytes]
  constructor
  · -- A reallocation to no bytes has no answer that could be told from a failure.
    intro grows lost
    obtain ⟨u, current, ret, stepped, _⟩ := grows
    simp [DosSetRelMaxFH, nonzero, reallocHFiles, lost] at stepped
  · intro kept
    refine ⟨t, t.maxHFiles, .noError, ?_, ?_, fun _ => rfl, ?_, fun _ _ => rfl⟩
    · simp [DosSetRelMaxFH, nonzero, reallocHFiles, kept]
    · simp [DosSetMaxFH, nonzero, reallocHFiles, kept]
    · exact fun some_memory => absurd rfl some_memory

/-- When the two new blocks agree, their front is unused and the memory behind it looks unused. -/
theorem blocks_agree_iff {contents : Nat → HFileInfo} {incr : Nat} {t : HandleTable}
    {rel set : List HFileInfo} (slots : t.hFiles.length = t.maxHFiles)
    (rel_slots : ∀ j, rel[j]? =
      if j < incr then some .unused
      else (grownBlock contents (t.maxHFiles + incr) t.hFiles)[j]?)
    (set_slots : ∀ j, set[j]? =
      if t.maxHFiles ≤ j ∧ j < t.maxHFiles + incr then some .unused
      else (grownBlock contents (t.maxHFiles + incr) t.hFiles)[j]?) :
    rel = set ↔ (∀ h, h < t.maxHFiles → h < incr → t.hFiles[h]? = some .unused) ∧
      ∀ h, t.maxHFiles ≤ h → incr ≤ h → h < t.maxHFiles + incr → contents h = .unused := by
  constructor
  · intro same
    constructor
    · -- An old slot at the front is initialised by the relative call only.
      intro h old front
      have both := (rel_slots h).symm.trans (same ▸ set_slots h)
      rw [if_pos front, if_neg (by omega), grownBlock_old (by omega) (by omega)] at both
      exact both.symm
    · -- A new slot behind the front is initialised by the absolute call only.
      intro h new behind inside
      have both := (rel_slots h).symm.trans (same ▸ set_slots h)
      rw [if_neg (by omega), if_pos ⟨new, inside⟩, grownBlock_new inside (by omega)] at both
      exact Option.some.inj both
  · intro harmless
    obtain ⟨front, behind⟩ := harmless
    apply List.ext_getElem?
    intro h
    rw [rel_slots h, set_slots h]
    by_cases new : t.maxHFiles ≤ h ∧ h < t.maxHFiles + incr
    · rw [if_pos new]
      split
      · rfl
      · rw [grownBlock_new new.2 (by omega), behind h new.1 (by omega) new.2]
    · rw [if_neg new]
      split
      · have old : h < t.maxHFiles := by omega
        rw [grownBlock_old (by omega) (by omega), front h old (by omega)]
      · rfl

/-- A block whose end was initialised is the old table with free slots behind it. -/
theorem tableGrown_of_slots {contents : Nat → HFileInfo} {incr : Nat} {t : HandleTable}
    {set : List HFileInfo} (slots : t.hFiles.length = t.maxHFiles)
    (set_slots : ∀ j, set[j]? =
      if t.maxHFiles ≤ j ∧ j < t.maxHFiles + incr then some .unused
      else (grownBlock contents (t.maxHFiles + incr) t.hFiles)[j]?) :
    TableGrown incr t ⟨set, t.maxHFiles + incr⟩ where
  kept h old := by
    show set[h]? = _
    rw [set_slots h, if_neg (by omega), grownBlock_old (by omega) (by omega)]
  added h new inside := by
    refine ⟨.unused, ?_, rfl⟩
    show set[h]? = _
    rw [set_slots h, if_pos ⟨new, inside⟩]
  grown := rfl

/-- With memory and a byte count that does not wrap, the calls agree when their blocks do. -/
theorem growsAlike_moved_iff {contents : Nat → HFileInfo} {incr : Nat} {t : HandleTable}
    (slots : t.hFiles.length = t.maxHFiles) (positive : 0 < incr)
    (small : t.maxHFiles + incr < 2 ^ 28) :
    GrowsAlike (some contents) incr t ↔
      (∀ h, h < t.maxHFiles → h < incr → t.hFiles[h]? = some .unused) ∧
        ∀ h, t.maxHFiles ≤ h → incr ≤ h → h < t.maxHFiles + incr → contents h = .unused := by
  obtain ⟨rel, rel_done, rel_slots⟩ := @DosSetRelMaxFH_moved contents incr t positive small
  obtain ⟨set, set_done, set_slots⟩ := @DosSetMaxFH_moved contents incr t positive small
  rw [← blocks_agree_iff slots rel_slots set_slots]
  constructor
  · -- Both calls end in one table, so both blocks are its slots.
    intro grows
    obtain ⟨u, current, ret, rel_stepped, set_stepped, _⟩ := grows
    cases rel_done.symm.trans rel_stepped
    have tables := set_done.symm.trans set_stepped
    simp only [Option.some.injEq, Prod.mk.injEq, HandleTable.mk.injEq] at tables
    exact tables.1.1.symm
  · intro same
    have grown : TableGrown incr t ⟨rel, t.maxHFiles + incr⟩ :=
      same ▸ tableGrown_of_slots slots set_slots
    exact ⟨_, _, _, rel_done, same ▸ set_done, fun absent => absurd absent (Option.some_ne_none _),
      fun _ => grown, fun h old => grown.descriptors old⟩

/--
For every table and every increment, the relative and the absolute call grow the table alike exactly
when reinitialising its front is harmless.
-/
theorem handle_table_grows_alike_iff (memory : Option (Nat → HFileInfo)) {incr : Nat}
    {t : HandleTable} (sized : t.Sized) (positive : 0 < incr) (_long : incr < 2 ^ 31) :
    GrowsAlike memory incr t ↔ RelGrowthHarmless memory incr t := by
  cases memory with
  | none => exact growsAlike_none_iff positive
  | some contents =>
    rcases Nat.lt_or_ge (t.maxHFiles + incr) (2 ^ 28) with small | wraps
    · rw [growsAlike_moved_iff sized.slots positive small]
      exact (and_iff_right small).symm
    · -- A wrapped byte count gives a block that is too small.
      have fault := @DosSetRelMaxFH_wrapped contents incr t sized positive wraps
      constructor
      · intro grows
        obtain ⟨u, current, ret, stepped, _⟩ := grows
        rw [fault] at stepped
        cases stepped
      · exact fun harmless => absurd harmless.1 (Nat.not_lt.mpr wraps)

/-- Two free handles and memory that looks unused: one more handle is added properly. -/
theorem free_handles_grow_alike :
    GrowsAlike (some fun _ => .unused) 1 ⟨[.unused, .unused], 2⟩ :=
  (handle_table_grows_alike_iff _ ⟨rfl, by decide⟩ (by decide) (by decide)).mpr
    ⟨by decide, by decide, fun _ _ _ _ => rfl⟩

/-- One open handle is lost when the table grows by one slot. -/
theorem open_handle_lost :
    ¬ GrowsAlike (some fun _ => .unused) 1 ⟨[⟨3, 0, 0, 0⟩], 1⟩ := by
  intro ⟨u, current, ret, rel_stepped, _, _, grown, _⟩
  -- The only handle is initialised again.
  have first : (DosSetRelMaxFH (some fun _ => .unused) (some (1 : Nat)) ⟨[⟨3, 0, 0, 0⟩], 1⟩).map
      (fun out => out.1.hFiles[0]?) = some (some .unused) := by decide
  rw [rel_stepped, Option.map_some, (grown (by simp)).kept 0 (by decide)] at first
  revert first
  decide

end TwoIne
