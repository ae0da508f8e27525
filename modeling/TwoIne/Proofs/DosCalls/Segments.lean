import TwoIne.DosCalls.Segments
import TwoIne.Proofs.LxLoader.Ldt

/-! Segments take free slots, and a huge block that finds no run of them gives everything back. -/

namespace TwoIne

/-- No slot holds the address already. -/
def Unheld (ldt : Nat → Nat) (addr : Nat) : Prop :=
  ∀ slot, slot < lxMaxLdtSlots → ldt slot ≠ 0 → tileHolds (ldt slot) addr = false

/-- The slot a new tile is entered into: its own when that is free, or else the last free one. -/
structure TakesSlot (ldt : Nat → Nat) (addr slot : Nat) : Prop where
  inside : slot < lxMaxLdtSlots
  free : ldt slot = 0
  own : ∀ idx, tiledIndex addr = some idx → ldt idx = 0 → slot = idx
  last : (∀ idx, tiledIndex addr = some idx → ldt idx ≠ 0) →
    ∀ later, slot < later → later < lxMaxLdtSlots → ldt later ≠ 0

/-- The descriptor of a segment. -/
def segmentEntry (addr : Nat) : UserDesc :=
  { baseAddr := addr, limit := 16, seg32bit := false, contents := .data }

/-- A table has at most one slot that a new tile is entered into. -/
theorem TakesSlot.unique {ldt : Nat → Nat} {addr slot other : Nat}
    (takes : TakesSlot ldt addr slot) (takes' : TakesSlot ldt addr other) : slot = other := by
  by_cases own : ∃ idx, tiledIndex addr = some idx ∧ ldt idx = 0
  · obtain ⟨idx, tiled, free⟩ := own
    exact (takes.own idx tiled free).trans (takes'.own idx tiled free).symm
  · -- Both are the last free slot, so neither comes before the other.
    have unowned : ∀ idx, tiledIndex addr = some idx → ldt idx ≠ 0 :=
      fun idx tiled free => own ⟨idx, tiled, free⟩
    rcases Nat.lt_trichotomy slot other with before | same | after
    · exact absurd takes'.free (takes.last unowned other before takes'.inside)
    · exact same
    · exact absurd takes.free (takes'.last unowned slot after takes.inside)

/-- The slot a lookup selects is the one the tile is entered into; a full table offers none. -/
theorem scanSlots_takes {ldt : Nat → Nat} {addr : Nat} {last : Option Nat}
    (scanned : scanSlots ldt addr lxMaxLdtSlots 0 (preferredSlot ldt addr) = .missing last) :
    (last = none ∧ ∀ slot, slot < lxMaxLdtSlots → ldt slot ≠ 0) ∨
      ∃ available, last = some available ∧
        TakesSlot ldt addr ((preferredSlot ldt addr).getD available) := by
  have scan := scanSlots_last scanned
  cases preferred : preferredSlot ldt addr with
  | some idx =>
    -- The slot of the tile is free, so the one the scan remembers is not used.
    obtain ⟨tiled, free⟩ := Option.filter_eq_some_iff.mp preferred
    have free : ldt idx = 0 := by simpa using free
    refine .inr ⟨last.getD 0, ?_, (tiledIndex_lt tiled).1, free, ?_, ?_⟩
    · rcases scan with ⟨same, _⟩ | ⟨k, same, _⟩
      · rw [same, preferred]
        rfl
      · rw [same]
        rfl
    · intro other tiled' _
      exact Option.some.inj (tiled.symm.trans tiled')
    · intro taken
      exact absurd free (taken idx tiled)
  | none =>
    -- The scan comes across every free slot of the table, and the last one stays remembered.
    rw [preferred] at scan
    rcases scan with ⟨same, taken⟩ | ⟨k, same, inside, free, taken⟩
    · exact .inl ⟨same, fun slot inside => taken slot (Nat.zero_le slot) (by omega)⟩
    · have unowned : ∀ idx, tiledIndex addr = some idx → ldt idx ≠ 0 := by
        intro idx tiled free'
        simp [preferredSlot, tiled, free'] at preferred
      refine .inr ⟨k, same, by simpa using inside, free, ?_, ?_⟩
      · intro idx tiled free'
        exact absurd free' (unowned idx tiled)
      · intro _ later after before
        exact taken later after (by omega)

/-- A slot is free for a new tile, no slot has the tile already, and the kernel takes the change. -/
def TileFits (modifyLdt : Nat → Bool) (ldt : Nat → Nat) (addr : Nat) : Prop :=
  Unheld ldt addr ∧ ∃ slot, TakesSlot ldt addr slot ∧ modifyLdt slot = true

/-- All the lookup of a new tile can do: find a slot that holds it, enter it, or give up. -/
theorem lxFindSelector_tile (modifyLdt : Nat → Bool) {addr : Nat} (s : LdtState)
    (low : 4096 ≤ addr) (aligned : addr % 0x10000 = 0) :
    (∃ slot, slot < lxMaxLdtSlots ∧ s.ldt slot ≠ 0 ∧ tileHolds (s.ldt slot) addr = true ∧
        lxFindSelector [] modifyLdt addr (some false) s =
          some (s, some (slotOffset s.ldt slot addr))) ∨
      (∃ slot, Unheld s.ldt addr ∧ TakesSlot s.ldt addr slot ∧ modifyLdt slot = true ∧
        lxFindSelector [] modifyLdt addr (some false) s =
          some (s.install slot addr (segmentEntry addr), some (slot, 0))) ∨
      ¬ TileFits modifyLdt s.ldt addr ∧
        lxFindSelector [] modifyLdt addr (some false) s = some (s, none) := by
  have accepted : ¬ addr < 4096 := by omega
  cases fast : tiledSlot s.ldt addr with
  | some idx =>
    -- The tile is in its own slot.
    left
    obtain ⟨tiled, taken⟩ := Option.filter_eq_some_iff.mp fast
    simp only [ne_eq, Bool.and_eq_true, decide_eq_true_eq] at taken
    refine ⟨idx, (tiledIndex_lt tiled).1, taken.1, taken.2, ?_⟩
    simp only [lxFindSelector, accepted, if_false, fast]
  | none =>
    cases scanned : scanSlots s.ldt addr lxMaxLdtSlots 0 (preferredSlot s.ldt addr) with
    | found i =>
      -- The tile is in some other slot.
      left
      obtain ⟨_, inside, used, holds⟩ := scanSlots_found scanned
      refine ⟨i, by omega, used, holds, ?_⟩
      simp only [lxFindSelector, accepted, if_false, fast, scanned]
    | missing last =>
      right
      have unheld : Unheld s.ldt addr := fun slot inside =>
        (scanSlots_missing scanned).1 slot (Nat.zero_le slot) (by omega)
      rcases scanSlots_takes scanned with ⟨rfl, full⟩ | ⟨available, rfl, takes⟩
      · -- The table is full.
        right
        refine ⟨?_, by simp only [lxFindSelector, accepted, if_false, fast, scanned]⟩
        intro fits
        obtain ⟨_, slot, takes, _⟩ := fits
        exact full slot takes.inside takes.free
      · -- A slot is free for the tile, and the kernel has the last word.
        have contents : selectorContents [] addr (some false) = .data := rfl
        cases allowed : modifyLdt ((preferredSlot s.ldt addr).getD available) with
        | true =>
          left
          refine ⟨_, unheld, takes, allowed, ?_⟩
          unfold lxFindSelector allocateSelector
          simp only [accepted, if_false, fast, scanned, contents, aligned, Nat.sub_zero]
          simp [takes.inside, takes.free, allowed, segmentEntry]
        | false =>
          right
          refine ⟨?_, ?_⟩
          · intro fits
            obtain ⟨_, slot, takes', allowed'⟩ := fits
            rw [takes'.unique takes, allowed] at allowed'
            cases allowed'
          · unfold lxFindSelector allocateSelector
            simp only [accepted, if_false, fast, scanned, contents, aligned, Nat.sub_zero]
            simp [takes.inside, takes.free, allowed]

/-- Whether a slot lies in a run of slots. -/
def inSlots (first count slot : Nat) : Bool := first ≤ slot && slot < first + count

/-- The state in which a block has taken a run of slots, and the next tiles in order. -/
def SegState.take (s : SegState) (first count : Nat) : SegState :=
  let tile := fun slot => s.table.baseaddr + (slot - first) * 0x10000
  { s with
    table :=
      { ldt := fun slot => if inSlots first count slot then tile slot else s.table.ldt slot
        descriptors := fun slot =>
          if inSlots first count slot then some (segmentEntry (tile slot))
          else s.table.descriptors slot
        baseaddr := s.table.baseaddr + count * 0x10000 }
    memory := fun addr => s.memory addr || inTiles s.table.baseaddr count addr }

/-- The state in which a block has given its slots and its tiles back. -/
def SegState.drop (s : SegState) (first count base : Nat) : SegState :=
  { s with
    table :=
      { s.table with
        ldt := fun slot => if inSlots first count slot then 0 else s.table.ldt slot
        descriptors := fun slot =>
          if inSlots first count slot then none else s.table.descriptors slot }
    memory := fun addr => s.memory addr && !inTiles base count addr }

/-- The state in which tiles have been passed over. -/
def SegState.skip (s : SegState) (count : Nat) : SegState :=
  { s with table := { s.table with baseaddr := s.table.baseaddr + count * 0x10000 } }

/-- What always holds of the table and the memory of the segments. -/
structure SegSound (s : SegState) : Prop where
  aligned : s.table.baseaddr % 0x10000 = 0
  low : 0x10000 ≤ s.table.baseaddr
  synced : ∀ slot, s.table.ldt slot = 0 → s.table.descriptors slot = none
  ahead : ∀ addr, s.table.baseaddr ≤ addr → s.memory addr = false

/-- A slot is in a run of slots between its two ends. -/
@[simp] theorem inSlots_iff {first count slot : Nat} :
    inSlots first count slot = true ↔ first ≤ slot ∧ slot < first + count := by
  -- Both sides are the same two comparisons.
  rw [inSlots, Bool.and_eq_true, decide_eq_true_eq, decide_eq_true_eq]

/-- An address is in a run of tiles between its two ends. -/
@[simp] theorem inTiles_iff {base count addr : Nat} :
    inTiles base count addr = true ↔ base ≤ addr ∧ addr < base + count * 0x10000 := by
  -- Both sides are the same two comparisons.
  rw [inTiles, Bool.and_eq_true, decide_eq_true_eq, decide_eq_true_eq]

/-- No slot is in an empty run. -/
@[simp] theorem inSlots_zero (first slot : Nat) : inSlots first 0 slot = false := by
  -- The run ends where it starts.
  rw [Bool.eq_false_iff, ne_eq, inSlots_iff]
  omega

/-- No address is in an empty run of tiles. -/
@[simp] theorem inTiles_zero (base addr : Nat) : inTiles base 0 addr = false := by
  -- The run ends where it starts.
  rw [Bool.eq_false_iff, ne_eq, inTiles_iff]
  omega

/-- A run of one slot has that slot only. -/
@[simp] theorem inSlots_one (first slot : Nat) : inSlots first 1 slot = true ↔ slot = first := by
  -- The run ends right behind its first slot.
  rw [inSlots_iff]
  omega

/-- Two states with the same table and memory are the same. -/
theorem SegState.ext' {s t : SegState} (ldt : ∀ slot, s.table.ldt slot = t.table.ldt slot)
    (descriptors : ∀ slot, s.table.descriptors slot = t.table.descriptors slot)
    (baseaddr : s.table.baseaddr = t.table.baseaddr) (memory : ∀ addr, s.memory addr = t.memory addr)
    (huge : s.hugeBlockSegs = t.hugeBlockSegs) : s = t := by
  obtain ⟨⟨_, _, _⟩, _, _⟩ := s
  obtain ⟨⟨_, _, _⟩, _, _⟩ := t
  simp only at ldt descriptors baseaddr memory huge
  rw [funext ldt, funext descriptors, baseaddr, funext memory, huge]

/-- Taking no slot changes nothing. -/
@[simp] theorem SegState.take_zero (s : SegState) (first : Nat) : s.take first 0 = s := by
  -- No slot is in the empty run, and no address in the empty run of tiles.
  apply SegState.ext' <;> simp [SegState.take]

/-- Giving back no slot changes nothing. -/
@[simp] theorem SegState.drop_zero (s : SegState) (first base : Nat) : s.drop first 0 base = s := by
  -- No slot is in the empty run, and no address in the empty run of tiles.
  apply SegState.ext' <;> simp [SegState.drop]

/-- Passing over no tile changes nothing. -/
@[simp] theorem SegState.skip_zero (s : SegState) : s.skip 0 = s := by
  apply SegState.ext' <;> simp [SegState.skip]

/-- Passing over tiles changes nothing but the address of the next one. -/
theorem SegState.skip_eq {s : SegState} {count next : Nat}
    (there : s.table.baseaddr + count * 0x10000 = next) :
    s.skip count = { s with table := { s.table with baseaddr := next } } := by
  rw [← there]
  rfl

/-- Passing over tiles twice passes over all of them. -/
theorem SegState.skip_skip (s : SegState) (first second : Nat) :
    (s.skip first).skip second = s.skip (first + second) := by
  -- The addresses have names, so that they are not computed.
  obtain ⟨one, there⟩ : ∃ one, s.table.baseaddr + first * 0x10000 = one :=
    Exists.intro _ (Eq.refl _)
  obtain ⟨two, behind⟩ : ∃ two, one + second * 0x10000 = two := Exists.intro _ (Eq.refl _)
  have whole : s.table.baseaddr + (first + second) * 0x10000 = two := by
    rw [Nat.add_mul, ← Nat.add_assoc, there, behind]
  rw [SegState.skip_eq there, SegState.skip_eq whole]
  exact SegState.skip_eq behind

/-- It does not matter whether tiles are passed over before slots are given back or after. -/
theorem SegState.skip_drop (s : SegState) (skipped first count base : Nat) :
    (s.skip skipped).drop first count base = (s.drop first count base).skip skipped := by
  unfold SegState.skip SegState.drop
  dsimp only

/-- Taking the slot behind a run of slots makes the run longer. -/
theorem SegState.take_take (s : SegState) (first count : Nat) :
    (s.take first count).take (first + count) 1 = s.take first (count + 1) := by
  -- The slot behind the run is the only one that is in the longer run and not in the shorter.
  have split : ∀ slot, inSlots first (count + 1) slot = true ↔
      slot = first + count ∨ inSlots first count slot = true := by
    intro slot
    simp only [inSlots_iff]
    omega
  have last : ∀ slot, inSlots (first + count) 1 slot = true ↔ slot = first + count := by
    intro slot
    simp only [inSlots_iff]
    omega
  apply SegState.ext'
  · intro slot
    simp only [SegState.take, split, last]
    by_cases new : slot = first + count
    · subst new
      simp
    · simp [new]
  · intro slot
    simp only [SegState.take, split, last]
    by_cases new : slot = first + count
    · subst new
      simp
    · simp [new]
  · simp only [SegState.take]
    omega
  · intro addr
    simp only [SegState.take, Bool.or_assoc]
    congr 1
    rw [Bool.eq_iff_iff, Bool.or_eq_true]
    simp only [inTiles_iff]
    omega
  · rfl

/-- Giving back the first slot of a run and then the others gives back the run. -/
theorem SegState.drop_drop (s : SegState) (first count base : Nat) :
    (s.drop first 1 base).drop (first + 1) count (base + 0x10000) = s.drop first (count + 1) base := by
  -- The first slot is the only one that is in the longer run and not in the shorter.
  have split : ∀ slot, inSlots first (count + 1) slot = true ↔
      inSlots (first + 1) count slot = true ∨ inSlots first 1 slot = true := by
    intro slot
    simp only [inSlots_iff]
    omega
  apply SegState.ext'
  · intro slot
    simp only [SegState.drop, split]
    by_cases later : inSlots (first + 1) count slot = true <;> simp [later]
  · intro slot
    simp only [SegState.drop, split]
    by_cases later : inSlots (first + 1) count slot = true <;> simp [later]
  · rfl
  · intro addr
    simp only [SegState.drop, Bool.and_assoc]
    congr 1
    rw [← Bool.not_or, Bool.not_inj_iff, Bool.eq_iff_iff, Bool.or_eq_true]
    simp only [inTiles_iff]
    omega
  · rfl

/-- Giving back a run of free slots that was just taken leaves only the tiles passed over. -/
theorem SegState.drop_take {s : SegState} {first count : Nat} (sound : SegSound s)
    (free : ∀ slot, first ≤ slot → slot < first + count → s.table.ldt slot = 0) :
    (s.take first count).drop first count s.table.baseaddr = s.skip count := by
  apply SegState.ext'
  · intro slot
    simp only [SegState.take, SegState.drop, SegState.skip, inSlots_iff]
    split
    · rename_i inside
      exact (free slot inside.1 inside.2).symm
    · rfl
  · -- A free slot has no descriptor.
    intro slot
    simp only [SegState.take, SegState.drop, SegState.skip, inSlots_iff]
    split
    · rename_i inside
      exact (sound.synced slot (free slot inside.1 inside.2)).symm
    · rfl
  · rfl
  · -- Nothing was mapped where the tiles were taken.
    intro addr
    simp only [SegState.take, SegState.drop, SegState.skip]
    cases tiled : inTiles s.table.baseaddr count addr with
    | true => simp [sound.ahead addr (inTiles_iff.mp tiled).1]
    | false => simp
  · rfl

/-- Taking free slots keeps the table and the memory sound. -/
theorem SegSound.take {s : SegState} (sound : SegSound s) (first count : Nat) :
    SegSound (s.take first count) := by
  have aligned := sound.aligned
  have low := sound.low
  refine ⟨?_, ?_, ?_, ?_⟩
  · simp only [SegState.take]
    omega
  · simp only [SegState.take]
    omega
  · -- The slots of the run are not free any more.
    intro slot
    simp only [SegState.take]
    split
    · intro empty
      omega
    · exact sound.synced slot
  · intro addr after
    simp only [SegState.take] at after ⊢
    rw [sound.ahead addr (by omega), Bool.false_or, Bool.eq_false_iff]
    simp only [ne_eq, inTiles_iff]
    omega

/-- Giving slots back keeps the table and the memory sound. -/
theorem SegSound.drop {s : SegState} (sound : SegSound s) (first count base : Nat) :
    SegSound (s.drop first count base) := by
  refine ⟨sound.aligned, sound.low, ?_, ?_⟩
  · -- A slot that was given back has lost its descriptor with its tile.
    intro slot
    simp only [SegState.drop]
    split
    · exact fun _ => rfl
    · exact sound.synced slot
  · intro addr after
    simp only [SegState.drop]
    rw [sound.ahead addr after, Bool.false_and]

/-- Passing over tiles keeps the table and the memory sound. -/
theorem SegSound.skip {s : SegState} (sound : SegSound s) (count : Nat) :
    SegSound (s.skip count) := by
  have aligned := sound.aligned
  have low := sound.low
  refine ⟨?_, ?_, sound.synced, ?_⟩
  · simp only [SegState.skip]
    omega
  · simp only [SegState.skip]
    omega
  · intro addr after
    simp only [SegState.skip] at after
    exact sound.ahead addr (by omega)

/-- A segment whose memory is not granted changes nothing. -/
theorem allocSegment_refused {os : SegKernel} {s : SegState}
    (refused : os.grants s.table.baseaddr = false) : allocSegment os s = some (s, none) := by
  -- The loader gives up before it touches the table.
  simp [allocSegment, lxAllocSegment, refused]

/--
All the allocation of a segment with memory can do: take a free slot and the next tile, come across
a slot that holds the tile already, or trip an assertion.
-/
theorem allocSegment_granted {os : SegKernel} {s : SegState} (sound : SegSound s)
    (granted : os.grants s.table.baseaddr = true) :
    (∃ slot, Unheld s.table.ldt s.table.baseaddr ∧
        TakesSlot s.table.ldt s.table.baseaddr slot ∧ os.modifyLdt slot = true ∧
        allocSegment os s = some (s.take slot 1, some slot)) ∨
      ¬ TileFits os.modifyLdt s.table.ldt s.table.baseaddr ∧
        (allocSegment os s = none ∨
          ∃ t slot, slot < lxMaxLdtSlots ∧ s.table.ldt slot ≠ 0 ∧
            tileHolds (s.table.ldt slot) s.table.baseaddr = true ∧ t.table.ldt = s.table.ldt ∧
            allocSegment os s = some (t, some slot)) := by
  have low := sound.low
  unfold allocSegment lxAllocSegment
  simp only [granted, Bool.true_eq_false, if_false]
  have accepted : 4096 ≤ s.table.baseaddr := by omega
  rcases lxFindSelector_tile os.modifyLdt { s.table with baseaddr := s.table.baseaddr + 0x10000 }
      accepted sound.aligned with
    ⟨slot, inside, used, holds, found⟩ | ⟨slot, unheld, takes, allowed, found⟩ | ⟨misfit, found⟩
  · -- The tile is held already, at its start or in its middle.
    right
    constructor
    · intro fits
      rw [fits.1 slot inside used] at holds
      cases holds
    · rw [found]
      unfold slotOffset
      dsimp only
      by_cases lost : slot = 0xFFFF ∨ (s.table.baseaddr - s.table.ldt slot) % 2 ^ 16 ≠ 0
      · rw [if_pos lost]
        exact .inl rfl
      · rw [if_neg lost]
        refine .inr ⟨_, slot, inside, used, holds, ?_, rfl⟩
        rfl
  · -- The tile is entered, and its slot is one of the table, so it is not taken for a failure.
    left
    refine ⟨slot, unheld, takes, allowed, ?_⟩
    have inside := takes.inside
    unfold lxMaxLdtSlots at inside
    have kept : ¬(slot = 0xFFFF ∨ (0 : Nat) ≠ 0) := by omega
    rw [found]
    dsimp only
    rw [if_neg kept]
    dsimp only
    congr 2
    apply SegState.ext'
    · intro other
      simp only [SegState.take, LdtState.install, inSlots_one, Function.update_apply]
      by_cases same : other = slot <;> simp [same]
    · intro other
      simp only [SegState.take, LdtState.install, inSlots_one, Function.update_apply]
      by_cases same : other = slot <;> simp [same]
    · rfl
    · intro addr
      rfl
    · rfl
  · -- No slot is left, or the kernel refuses it.
    right
    rw [found]
    exact ⟨misfit, .inl rfl⟩

/-- Freeing a segment gives its slot and its tile back. -/
theorem freeSegment_drop {os : SegKernel} {s : SegState} {slot : Nat}
    (allowed : os.modifyLdt slot = true) (inside : slot < lxMaxLdtSlots)
    (used : s.table.ldt slot ≠ 0) :
    freeSegment os slot s = some (s.drop slot 1 (s.table.ldt slot)) := by
  -- The slot is in the table, in use, and can be changed.
  unfold freeSegment lxFreeSegment lxFreeSelector
  simp only [inside, used, allowed, not_true_eq_false, Bool.true_eq_false, if_false,
    Option.map_some]
  congr 1
  apply SegState.ext'
  · intro other
    simp only [SegState.drop, LdtState.clear, inSlots_one, Function.update_apply]
  · intro other
    simp only [SegState.drop, LdtState.clear, inSlots_one, Function.update_apply]
  · rfl
  · intro addr
    rfl
  · rfl

/-- Freeing the segments of consecutive slots gives the whole run back. -/
theorem freeSegments_drop {os : SegKernel} {s : SegState} {first count base : Nat}
    (allowed : ∀ slot, first ≤ slot → slot < first + count → os.modifyLdt slot = true)
    (inside : first + count ≤ lxMaxLdtSlots) (low : 0 < base)
    (tiles : ∀ slot, first ≤ slot → slot < first + count →
      s.table.ldt slot = base + (slot - first) * 0x10000) :
    freeSegments os count first s = some (s.drop first count base) := by
  -- The first slot is given back, and the rest of the run by induction.
  induction count generalizing first base s with
  | zero =>
    rw [SegState.drop_zero]
    rfl
  | succ count ih =>
    have here : s.table.ldt first = base := by
      rw [tiles first (Nat.le_refl first) (by omega)]
      omega
    have small : first < lxMaxLdtSlots := by omega
    have whole : first % 2 ^ 16 = first := by
      unfold lxMaxLdtSlots at small
      omega
    have later : ∀ slot, first + 1 ≤ slot → slot < first + 1 + count →
        (s.drop first 1 base).table.ldt slot = base + 0x10000 + (slot - (first + 1)) * 0x10000 := by
      intro slot after before
      simp only [SegState.drop, inSlots_one]
      rw [if_neg (by omega), tiles slot (by omega) (by omega)]
      omega
    unfold freeSegments
    rw [whole, freeSegment_drop (allowed first (Nat.le_refl first) (by omega)) small (by omega),
      here]
    dsimp only
    rw [ih (fun slot after before => allowed slot (by omega) (by omega)) (by omega) (by omega)
      later, SegState.drop_drop]

/-- The address the segment with the given number in a chain is mapped at. -/
def SegState.tileAt (s : SegState) (k : Nat) : Nat := s.table.baseaddr + k * 0x10000

/--
Whether a chain comes to its segment with the given number: those before it were granted, and from
the third one on the slots of those before it are their own.
-/
def ComesTo (os : SegKernel) (s : SegState) (k : Nat) : Prop :=
  (∀ j, j < k → os.grants (s.tileAt j) = true) ∧
    (2 ≤ k → ∀ j, j < k → ∃ idx, tiledIndex (s.tileAt j) = some idx ∧ s.table.ldt idx = 0)

/--
Each segment that a chain comes to and memory is granted for fits into the table as the earlier ones
leave it.
-/
def SegmentsFit (os : SegKernel) (s : SegState) (count : Nat) : Prop :=
  ∀ k, k < count → ComesTo os s k → os.grants (s.tileAt k) = true →
    ∀ first, (0 < k → TakesSlot s.table.ldt s.table.baseaddr first) →
      TileFits os.modifyLdt (s.take first k).table.ldt (s.tileAt k)

/-- When the segments of a chain fit, the first one does. -/
theorem SegmentsFit.first {os : SegKernel} {s : SegState} {count : Nat}
    (fits : SegmentsFit os s count) (some_wanted : 0 < count)
    (granted : os.grants s.table.baseaddr = true) :
    TileFits os.modifyLdt s.table.ldt s.table.baseaddr := by
  -- A chain always comes to its first segment, and nothing was taken before it.
  have start : s.tileAt 0 = s.table.baseaddr := by simp [SegState.tileAt]
  have comes : ComesTo os s 0 := ⟨fun j before => by omega, fun two => by omega⟩
  have fits := fits 0 some_wanted comes (start ▸ granted) 0 fun none => by omega
  rwa [start, SegState.take_zero] at fits

/-- What is known of a chain when some of its segments are there. -/
structure ChainSoFar (os : SegKernel) (s : SegState) (first count : Nat) : Prop where
  some_taken : 0 < count
  inside : first + count ≤ lxMaxLdtSlots
  free : ∀ slot, first ≤ slot → slot < first + count → s.table.ldt slot = 0
  allowed : ∀ slot, first ≤ slot → slot < first + count → os.modifyLdt slot = true
  granted : ∀ j, j < count → os.grants (s.tileAt j) = true
  start : TakesSlot s.table.ldt s.table.baseaddr first
  own : tiledIndex s.table.baseaddr = some first ∨ count = 1

/-- Consecutive tiles have consecutive slots of their own. -/
theorem tiledIndex_next {base first j : Nat} (tiled : tiledIndex base = some first)
    (inside : first + j < lxMaxLdtSlots) : tiledIndex (base + j * 0x10000) = some (first + j) := by
  -- The table has a slot for every tile below the bound of the tiled memory.
  obtain ⟨_, same⟩ := tiledIndex_lt tiled
  unfold lxMaxLdtSlots at inside
  unfold tiledIndex
  rw [if_pos (by omega), Nat.shiftRight_eq_div_pow]
  congr 1
  omega

/-- A chain with some of its segments comes to the next one. -/
theorem ChainSoFar.comesTo {os : SegKernel} {s : SegState} {first count : Nat}
    (chain : ChainSoFar os s first count) : ComesTo os s count := by
  refine ⟨chain.granted, fun two j before => ?_⟩
  -- From the second segment on, the chain is in the slots of its own tiles.
  have inside := chain.inside
  rcases chain.own with tiled | ⟨one, _⟩
  · exact ⟨first + j, tiledIndex_next tiled (by omega), chain.free _ (by omega) (by omega)⟩
  · omega

/-- The first segment of a chain starts it. -/
theorem chainSoFar_first {os : SegKernel} {s : SegState} {slot : Nat}
    (granted : os.grants s.table.baseaddr = true)
    (takes : TakesSlot s.table.ldt s.table.baseaddr slot) (allowed : os.modifyLdt slot = true) :
    ChainSoFar os s slot 1 := by
  -- The chain has one slot only.
  have only : ∀ other, slot ≤ other → other < slot + 1 → other = slot :=
    fun other after before => by omega
  refine ⟨Nat.one_pos, takes.inside, ?_, ?_, ?_, takes, .inr rfl⟩
  · intro other after before
    rw [only other after before]
    exact takes.free
  · intro other after before
    rw [only other after before]
    exact allowed
  · intro j before
    have same : j = 0 := by omega
    simpa [same, SegState.tileAt] using granted

/-- A segment in the slot behind a chain extends it. -/
theorem ChainSoFar.extend {os : SegKernel} {s : SegState} {first count : Nat}
    (chain : ChainSoFar os s first count) (granted : os.grants (s.tileAt count) = true)
    (inside : first + count < lxMaxLdtSlots) (allowed : os.modifyLdt (first + count) = true)
    (free : (s.take first count).table.ldt (first + count) = 0) :
    ChainSoFar os s first (count + 1) := by
  -- The slot behind the chain was free before the chain was started.
  have free : s.table.ldt (first + count) = 0 := by
    simpa [SegState.take] using free
  have some_taken := chain.some_taken
  refine ⟨Nat.succ_pos count, inside, ?_, ?_, ?_, chain.start, ?_⟩
  · intro slot after before
    rcases Nat.eq_or_lt_of_le (Nat.le_of_lt_succ before) with rfl | earlier
    · exact free
    · exact chain.free slot after earlier
  · intro slot after before
    rcases Nat.eq_or_lt_of_le (Nat.le_of_lt_succ before) with rfl | earlier
    · exact allowed
    · exact chain.allowed slot after earlier
  · intro j before
    rcases Nat.eq_or_lt_of_le (Nat.le_of_lt_succ before) with rfl | earlier
    · exact granted
    · exact chain.granted j earlier
  · -- A chain that does not start in its own slot starts in the last free one, and never grows.
    left
    by_cases own : ∃ idx, tiledIndex s.table.baseaddr = some idx ∧ s.table.ldt idx = 0
    · obtain ⟨idx, tiled, idx_free⟩ := own
      rw [chain.start.own idx tiled idx_free]
      exact tiled
    · have last := chain.start.last fun idx tiled idx_free => own ⟨idx, tiled, idx_free⟩
      exact absurd free (last (first + count) (by omega) inside)

/-- A chain that goes no further gives its slots back. -/
theorem ChainSoFar.giveBack {os : SegKernel} {s : SegState} {first count : Nat}
    (sound : SegSound s) (chain : ChainSoFar os s first count) (skipped : Nat) :
    freeSegments os count first ((s.take first count).skip skipped) =
      some (s.skip (count + skipped)) := by
  have low := sound.low
  -- The slots of the chain still hold its tiles, whatever was passed over after them.
  have tiles : ∀ slot, first ≤ slot → slot < first + count →
      ((s.take first count).skip skipped).table.ldt slot =
        s.table.baseaddr + (slot - first) * 0x10000 := by
    intro slot after before
    simp only [SegState.skip, SegState.take, inSlots_iff]
    exact if_pos ⟨after, before⟩
  rw [freeSegments_drop chain.allowed chain.inside (by omega) tiles]
  have dropped := SegState.drop_take sound chain.free
  rw [SegState.skip_drop, dropped, SegState.skip_skip]

/-- All the loop of a chain can do when it fits: take the whole run, or give everything back. -/
inductive ChainDoes (os : SegKernel) (s : SegState) (segs : Nat) :
    SegState → Option Nat → Prop
  | taken {first : Nat} (chain : ChainSoFar os s first segs) :
      ChainDoes os s segs (s.take first segs) (some first)
  | refused (count : Nat) : ChainDoes os s segs (s.skip count) none

/-- A slot that does not extend a chain is given back with it. -/
theorem freeSegment_giveUp {os : SegKernel} {s : SegState} {first count slot : Nat}
    (sound : SegSound s)
    (takes : TakesSlot (s.take first count).table.ldt (s.tileAt count) slot)
    (allowed : os.modifyLdt slot = true) :
    freeSegment os slot ((s.take first count).take slot 1) = some ((s.take first count).skip 1) := by
  have low := sound.low
  have tile : ((s.take first count).take slot 1).table.ldt slot =
      (s.take first count).table.baseaddr := by
    simp [SegState.take]
  have used : ((s.take first count).take slot 1).table.ldt slot ≠ 0 := by
    rw [tile]
    simp only [SegState.take]
    omega
  have alone : ∀ other, slot ≤ other → other < slot + 1 →
      (s.take first count).table.ldt other = 0 := by
    intro other after before
    have same : other = slot := by omega
    rw [same]
    exact takes.free
  rw [freeSegment_drop allowed takes.inside used, tile,
    SegState.drop_take (sound.take first count) alone]

/-- From any segment on, the loop extends the chain to its end or gives everything back. -/
theorem allocChain_later {os : SegKernel} {s : SegState} {segs first left i : Nat}
    (sound : SegSound s) (fits : SegmentsFit os s segs) (remaining : i + left = segs)
    (chain : ChainSoFar os s first i) :
    ∃ t out, allocChain os left i first (s.take first i) = some (t, out) ∧
      ChainDoes os s segs t out := by
  -- The loop is at a segment that the chain comes to.
  induction left generalizing i with
  | zero =>
    have whole : i = segs := by omega
    subst whole
    exact ⟨_, _, rfl, .taken chain⟩
  | succ left ih =>
    have some_taken := chain.some_taken
    have inside := chain.inside
    unfold lxMaxLdtSlots at inside
    unfold allocChain
    cases granted : os.grants (s.tileAt i) with
    | false =>
      -- No memory is left for this segment, so the earlier ones are given back.
      have back := chain.giveBack sound 0
      rw [SegState.skip_zero] at back
      rw [allocSegment_refused granted]
      dsimp only
      rw [if_pos (by omega : first ≠ 0xFFFF), back]
      exact ⟨_, _, rfl, .refused _⟩
    | true =>
      have tileFits := fits i (by omega) chain.comesTo granted first fun _ => chain.start
      rcases allocSegment_granted (sound.take first i) granted with
        ⟨slot, _, takes, allowed, allocated⟩ | ⟨misfit, _⟩
      · have slot_inside := takes.inside
        have next_small : (first + i) % 2 ^ 16 = first + i := by omega
        rw [allocated]
        dsimp only
        rw [if_neg (by omega : ¬ i = 0), next_small]
        by_cases behind : slot = first + i
        · -- The slot is the one behind the chain.
          subst behind
          rw [if_neg (by simp), SegState.take_take]
          exact ih (by omega) (chain.extend granted slot_inside allowed takes.free)
        · -- The slot is somewhere else, so it is given back, and the chain with it.
          rw [if_pos behind, freeSegment_giveUp sound takes allowed]
          dsimp only
          rw [chain.giveBack sound 1]
          exact ⟨_, _, rfl, .refused _⟩
      · exact absurd tileFits misfit

/-- A chain that fits trips no assertion: it takes a whole run of slots, or leaves the table. -/
theorem allocChain_does {os : SegKernel} {s : SegState} {segs : Nat} (sound : SegSound s)
    (some_wanted : 0 < segs) (fits : SegmentsFit os s segs) :
    ∃ t out, allocChain os segs 0 0xFFFF s = some (t, out) ∧ ChainDoes os s segs t out := by
  obtain ⟨left, rfl⟩ : ∃ left, segs = left + 1 := ⟨segs - 1, by omega⟩
  unfold allocChain
  cases granted : os.grants s.table.baseaddr with
  | false =>
    -- Nothing was taken yet.
    rw [allocSegment_refused granted]
    exact ⟨_, _, rfl, .refused 0⟩
  | true =>
    have tileFits := fits.first some_wanted granted
    rcases allocSegment_granted sound granted with
      ⟨slot, _, takes, allowed, allocated⟩ | ⟨misfit, _⟩
    · rw [allocated]
      exact allocChain_later sound fits (by omega) (chainSoFar_first granted takes allowed)
    · exact absurd tileFits misfit

end TwoIne
