import Mathlib.Data.List.Pairwise
import TwoIne.Lib.Runs
import TwoIne.Proofs.DosCalls.Segments

/-! Runs of segment calls keep the live blocks apart, as long as every segment fits the table. -/

namespace TwoIne

/-- A block of segments that was handed out and not freed yet. -/
structure SegBlock where
  first : Nat
  count : Nat
  base : Nat
  huge : Bool
  deriving DecidableEq, Repr

/-- Whether a slot is one of the block. -/
def SegBlock.hasSlot (b : SegBlock) (slot : Nat) : Bool := inSlots b.first b.count slot

/-- Whether an address is in one of the tiles of the block. -/
def SegBlock.hasAddr (b : SegBlock) (addr : Nat) : Bool := inTiles b.base b.count addr

/-- The tile of a slot of the block. -/
def SegBlock.tile (b : SegBlock) (slot : Nat) : Nat := b.base + (slot - b.first) * 0x10000

/-- The selector a block is known by. -/
def SegBlock.selector (b : SegBlock) : Nat := lxSelectorToSegment b.first

/-- The segments together with the blocks the callers hold. -/
structure SegBooks where
  segs : SegState := {}
  live : List SegBlock := []

/-- A call on the segments, with what the kernel answers during it. -/
inductive SegCall where
  | allocSeg (os : SegKernel) (size : Nat) (wanted : Bool) (flags : Nat)
  | allocHuge (os : SegKernel) (numSeg size : Nat) (wanted : Bool) (maxNumSeg flags : Nat)
  | freeSeg (os : SegKernel) (sel : Nat)

/-- What the kernel answers during a call. -/
def SegCall.os : SegCall → SegKernel
  | .allocSeg os _ _ _ => os
  | .allocHuge os _ _ _ _ _ => os
  | .freeSeg os _ => os

/-- The block that a caller holds once it was given a selector. -/
def blockAt (segs : SegState) (sel count : Nat) (huge : Bool) : SegBlock :=
  { first := sel >>> 3, count, base := segs.table.ldt (sel >>> 3), huge }

/-- The change a request for a block makes to the blocks the callers hold. -/
def recordBlock (live : List SegBlock) (count : Nat) (huge : Bool)
    (answer : Option (SegState × ApiRet × Option Nat)) :
    Option (SegBooks × ApiRet × Option Nat) :=
  match answer with
  | none => none
  | some (segs, ret, none) => some (⟨segs, live⟩, ret, none)
  | some (segs, ret, some sel) => some (⟨segs, blockAt segs sel count huge :: live⟩, ret, some sel)

/-- One call, and the change it makes to the blocks the callers hold. -/
def segStep (s : SegBooks) : SegCall → Option (SegBooks × ApiRet × Option Nat)
  | .allocSeg os size wanted flags =>
    recordBlock s.live 1 false (dos16AllocSeg os size wanted flags s.segs)
  | .allocHuge os numSeg size wanted maxNumSeg flags =>
    recordBlock s.live (hugeSegCount numSeg size) true
      (dos16AllocHuge os numSeg size wanted maxNumSeg flags s.segs)
  | .freeSeg os sel =>
    match dos16FreeSeg os sel s.segs with
    | none => none
    | some (segs, ret) => some (⟨segs, s.live.filter fun b => b.selector ≠ sel⟩, ret, none)

/--
Sizes are 16-bit numbers, memory is granted inside the 32-bit addresses, and only selectors that
were returned and not freed yet are freed.
-/
def SegMay (s : SegBooks) (call : SegCall) : Prop :=
  (∀ addr, call.os.grants addr = true → addr + 0x10000 ≤ 2 ^ 32) ∧
    match call with
    | .allocSeg _ size _ _ => size < 2 ^ 16
    | .allocHuge _ _ size _ _ _ => size < 2 ^ 16
    | .freeSeg _ sel => ∃ b ∈ s.live, sel = b.selector

/-- A live block has its slots, in order, and their tiles. -/
structure BlockHeld (s : SegState) (b : SegBlock) : Prop where
  some_segs : 0 < b.count
  inside : b.first + b.count ≤ lxMaxLdtSlots
  low : 0 < b.base
  below : b.base + b.count * 0x10000 ≤ s.table.baseaddr
  within : b.base + b.count * 0x10000 ≤ 2 ^ 32
  slots : ∀ slot, b.hasSlot slot = true → s.table.ldt slot = b.tile slot
  entries : ∀ slot, b.hasSlot slot = true →
    s.table.descriptors slot = some (segmentEntry (b.tile slot))
  mapped : ∀ addr, b.hasAddr addr = true → s.memory addr = true
  counted : s.hugeBlockSegs b.first = if b.huge then b.count else 0
  single : b.huge = false → b.count = 1

/-- Two blocks share no slot and no address. -/
def SegBlock.Apart (a b : SegBlock) : Prop :=
  (∀ slot, ¬(a.hasSlot slot = true ∧ b.hasSlot slot = true)) ∧
    ∀ addr, ¬(a.hasAddr addr = true ∧ b.hasAddr addr = true)

/-- The live blocks have their slots and tiles, and are apart. -/
structure SegsGood (s : SegBooks) : Prop where
  sound : SegSound s.segs
  held : ∀ b ∈ s.live, BlockHeld s.segs b
  apart : s.live.Pairwise SegBlock.Apart
  heads : ∀ slot, s.segs.hugeBlockSegs slot ≠ 0 → ∃ b ∈ s.live, b.first = slot

/-- Table, memory and blocks are as they were. -/
structure SameSegs (s t : SegBooks) : Prop where
  ldt : t.segs.table.ldt = s.segs.table.ldt
  descriptors : t.segs.table.descriptors = s.segs.table.descriptors
  memory : t.segs.memory = s.segs.memory
  hugeBlockSegs : t.segs.hugeBlockSegs = s.segs.hugeBlockSegs
  live : t.live = s.live

/--
A block of free slots was handed out whose selectors are eight apart, whose tiles follow each other
and hold all the bytes; every other slot and address is as it was.
-/
structure GivesBlock (s t : SegBooks) (bytes sel : Nat) (b : SegBlock) : Prop where
  live : t.live = b :: s.live
  named : sel = b.selector
  covers : bytes ≤ b.count * 0x10000
  inside : b.first + b.count ≤ lxMaxLdtSlots
  free : ∀ slot, b.hasSlot slot = true → s.segs.table.ldt slot = 0
  selectors : ∀ k, k < b.count → lxSelectorToSegment (b.first + k) = sel + 8 * k
  tiles : ∀ k, k < b.count → t.segs.table.ldt (b.first + k) = b.base + k * 0x10000 ∧
    t.segs.table.descriptors (b.first + k) = some (segmentEntry (b.base + k * 0x10000))
  others : ∀ slot, b.hasSlot slot = false → t.segs.table.ldt slot = s.segs.table.ldt slot ∧
    t.segs.table.descriptors slot = s.segs.table.descriptors slot
  memory : ∀ addr, t.segs.memory addr = (s.segs.memory addr || b.hasAddr addr)

/-- A request for a block gives one, or fails for lack of memory and changes nothing. -/
def Allocates (s t : SegBooks) (bytes : Nat) (out : ApiRet × Option Nat) : Prop :=
  (out = (.errorNotEnoughMemory, none) ∧ SameSegs s t) ∨
    ∃ sel b, out = (.noError, some sel) ∧ GivesBlock s t bytes sel b

/-- Exactly the slots and tiles of the block were released. -/
structure Releases (s t : SegBooks) (b : SegBlock) : Prop where
  live : t.live = s.live.filter fun c => c ≠ b
  slots : ∀ slot, t.segs.table.ldt slot =
    if b.hasSlot slot = true then 0 else s.segs.table.ldt slot
  memory : ∀ addr, t.segs.memory addr = (s.segs.memory addr && !b.hasAddr addr)

/-- Whether a request has somewhere to store the selector, and sets no reserved flag. -/
def segRequestValid (wanted : Bool) (flags : Nat) : Bool := wanted && flags &&& 0xFFF0 == 0

/-- How many bytes a segment is asked to have; none stands for all it can have. -/
def segBytes (size : Nat) : Nat := if size = 0 then 0x10000 else size

/-- What one call is meant to do. -/
def SegDone (s : SegBooks) (call : SegCall) (t : SegBooks) (out : ApiRet × Option Nat) : Prop :=
  match call with
  | .allocSeg _ size wanted flags =>
    if segRequestValid wanted flags = true then Allocates s t (segBytes size) out
    else out = (.errorInvalidParameter, none) ∧ t = s
  | .allocHuge _ numSeg size wanted _ flags =>
    if segRequestValid wanted flags = true ∧ hugeSegCount numSeg size ≠ 0 then
      Allocates s t (numSeg * 0x10000 + size) out
    else out = (.errorInvalidParameter, none) ∧ t = s
  | .freeSeg _ sel => out = (.noError, none) ∧ ∃ b ∈ s.live, sel = b.selector ∧ Releases s t b

/--
The segments of a valid request fit into the table, and the kernel lets go of every slot of a block
that is freed.
-/
def SegServed (s : SegBooks) : SegCall → Prop
  | .allocSeg os _ wanted flags => segRequestValid wanted flags = true → SegmentsFit os s.segs 1
  | .allocHuge os numSeg size wanted _ flags =>
    segRequestValid wanted flags = true → SegmentsFit os s.segs (hugeSegCount numSeg size)
  | .freeSeg os sel =>
    ∀ b ∈ s.live, sel = b.selector → ∀ slot, b.hasSlot slot = true → os.modifyLdt slot = true

/-- The selector of a slot has the slot above its three low bits. -/
theorem lxSelectorToSegment_eq {slot : Nat} (inside : slot < lxMaxLdtSlots) :
    lxSelectorToSegment slot = slot * 8 + 7 := by
  -- The three low bits are free after the shift, and the selector fits sixteen bits.
  unfold lxMaxLdtSlots at inside
  have joined : slot <<< 3 ||| 7 = slot * 8 + 7 := by
    rw [Nat.shiftLeft_eq, show slot * 2 ^ 3 = 2 ^ 3 * slot from Nat.mul_comm _ _,
      ← Nat.two_pow_add_eq_or_of_lt (by omega : 7 < 2 ^ 3)]
    omega
  unfold lxSelectorToSegment
  rw [joined]
  omega

/-- The slot of a selector is the one it was made from. -/
theorem lxSelectorToSegment_slot {slot : Nat} (inside : slot < lxMaxLdtSlots) :
    lxSelectorToSegment slot >>> 3 = slot := by
  rw [lxSelectorToSegment_eq inside, Nat.shiftRight_eq_div_pow]
  omega

/-- The table of huge blocks, once a block is noted in it when it is one. -/
def SegState.record (s : SegState) (first count : Nat) (huge : Bool) : SegState :=
  { s with
    hugeBlockSegs :=
      if huge then Function.update s.hugeBlockSegs first count else s.hugeBlockSegs }

/-- The block that takes a run of slots and the next tiles. -/
def SegState.block (s : SegState) (first count : Nat) (huge : Bool) : SegBlock :=
  { first, count, base := s.table.baseaddr, huge }

/-- The books after a block took a run of slots. -/
def SegBooks.take (s : SegBooks) (first count : Nat) (huge : Bool) : SegBooks :=
  { segs := (s.segs.take first count).record first count huge
    live := s.segs.block first count huge :: s.live }

/-- The slots of a live block are not free. -/
theorem BlockHeld.used {s : SegState} {b : SegBlock} (held : BlockHeld s b) {slot : Nat}
    (has : b.hasSlot slot = true) : s.table.ldt slot ≠ 0 := by
  -- They hold tiles that start above zero.
  have low := held.low
  rw [held.slots slot has]
  unfold SegBlock.tile
  omega

/-- A block has its own first slot. -/
theorem BlockHeld.hasFirst {s : SegState} {b : SegBlock} (held : BlockHeld s b) :
    b.hasSlot b.first = true := by
  have some_segs := held.some_segs
  rw [SegBlock.hasSlot, inSlots_iff]
  omega

/-- A free slot is not noted as the start of a huge block. -/
theorem SegsGood.unnoted {s : SegBooks} (good : SegsGood s) {slot : Nat}
    (free : s.segs.table.ldt slot = 0) : s.segs.hugeBlockSegs slot = 0 := by
  by_contra noted
  obtain ⟨b, live, rfl⟩ := good.heads slot noted
  exact (good.held b live).used (good.held b live).hasFirst free

/-- The memory of a chain is inside the 32-bit addresses. -/
theorem ChainSoFar.within {os : SegKernel} {s : SegState} {first count : Nat}
    (chain : ChainSoFar os s first count)
    (within : ∀ addr, os.grants addr = true → addr + 0x10000 ≤ 2 ^ 32) :
    s.table.baseaddr + count * 0x10000 ≤ 2 ^ 32 := by
  -- The memory of its last segment is.
  have some_taken := chain.some_taken
  have last := within _ (chain.granted (count - 1) (by omega))
  unfold SegState.tileAt at last
  omega

/-- A block that was live before a run of free slots was taken is still live. -/
theorem BlockHeld.take {s : SegState} {b : SegBlock} (held : BlockHeld s b) {first count : Nat}
    (some_taken : 0 < count)
    (free : ∀ slot, first ≤ slot → slot < first + count → s.table.ldt slot = 0) (huge : Bool) :
    BlockHeld ((s.take first count).record first count huge) b := by
  -- Its slots are not among those that were free.
  have outside : ∀ slot, b.hasSlot slot = true → inSlots first count slot = false := by
    intro slot has
    rw [Bool.eq_false_iff, ne_eq, inSlots_iff]
    intro inside
    exact held.used has (free slot inside.1 inside.2)
  refine ⟨held.some_segs, held.inside, held.low, ?_, held.within, ?_, ?_, ?_, ?_, held.single⟩
  · have below := held.below
    simp only [SegState.record, SegState.take]
    omega
  · intro slot has
    simp only [SegState.record, SegState.take, outside slot has, Bool.false_eq_true, if_false]
    exact held.slots slot has
  · intro slot has
    simp only [SegState.record, SegState.take, outside slot has, Bool.false_eq_true, if_false]
    exact held.entries slot has
  · intro addr has
    simp only [SegState.record, SegState.take, held.mapped addr has, Bool.true_or]
  · -- Another block is noted at another slot.
    have other : b.first ≠ first := by
      intro same
      have away := outside b.first held.hasFirst
      rw [same, Bool.eq_false_iff, ne_eq, inSlots_iff] at away
      omega
    cases huge with
    | false => exact held.counted
    | true =>
      simp only [SegState.record, SegState.take, if_true, Function.update_of_ne other]
      exact held.counted

/-- A block that has just taken its slots is live. -/
theorem SegsGood.newBlock {os : SegKernel} {s : SegBooks} {first count : Nat} (good : SegsGood s)
    (chain : ChainSoFar os s.segs first count)
    (within : ∀ addr, os.grants addr = true → addr + 0x10000 ≤ 2 ^ 32) {huge : Bool}
    (single : huge = false → count = 1) :
    BlockHeld (s.take first count huge).segs (s.segs.block first count huge) := by
  have low := good.sound.low
  refine ⟨chain.some_taken, chain.inside, ?_, Nat.le_refl _, chain.within within, ?_, ?_, ?_, ?_,
    single⟩
  · exact Nat.lt_of_lt_of_le (by omega) low
  · intro slot has
    exact if_pos has
  · intro slot has
    exact if_pos has
  · intro addr has
    simp only [SegBlock.hasAddr, SegState.block] at has
    simp only [SegBooks.take, SegState.record, SegState.take, has, Bool.or_true]
  · cases huge with
    | false =>
      -- The first slot was free, so no huge block was noted there.
      have some_taken := chain.some_taken
      exact good.unnoted (chain.free first (Nat.le_refl first) (by omega))
    | true => exact Function.update_self ..

/-- Taking a run of free slots keeps the blocks good. -/
theorem SegsGood.take {os : SegKernel} {s : SegBooks} {first count : Nat} (good : SegsGood s)
    (chain : ChainSoFar os s.segs first count)
    (within : ∀ addr, os.grants addr = true → addr + 0x10000 ≤ 2 ^ 32) {huge : Bool}
    (single : huge = false → count = 1) : SegsGood (s.take first count huge) := by
  have sound := good.sound.take first count
  refine ⟨⟨sound.aligned, sound.low, sound.synced, sound.ahead⟩, ?_, ?_, ?_⟩
  · intro b live
    rcases List.mem_cons.mp live with rfl | earlier
    · exact good.newBlock chain within single
    · exact (good.held b earlier).take chain.some_taken chain.free huge
  · refine List.pairwise_cons.mpr ⟨fun b earlier => ?_, good.apart⟩
    have held := good.held b earlier
    constructor
    · -- The slots of the new block were free, and those of a live block are not.
      intro slot both
      have inside := inSlots_iff.mp both.1
      exact held.used both.2 (chain.free slot inside.1 inside.2)
    · -- The tiles of the new block are the next ones, and those of a live block are earlier.
      intro addr both
      have below := held.below
      have here := inTiles_iff.mp both.1
      have there := inTiles_iff.mp both.2
      simp only [SegState.block] at here
      omega
  · intro slot noted
    -- A slot is noted for the new block or was noted before.
    by_cases own : slot = first
    · exact ⟨_, List.mem_cons_self, own.symm⟩
    · have before : s.segs.hugeBlockSegs slot ≠ 0 := by
        cases huge with
        | false => exact noted
        | true => simpa [SegBooks.take, SegState.record, SegState.take, own] using noted
      obtain ⟨b, earlier, same⟩ := good.heads slot before
      exact ⟨b, List.mem_cons_of_mem _ earlier, same⟩

/-- Passing over tiles keeps the blocks good. -/
theorem SegsGood.skip {s : SegBooks} (good : SegsGood s) (count : Nat) :
    SegsGood { s with segs := s.segs.skip count } := by
  refine ⟨good.sound.skip count, fun b live => ?_, good.apart, good.heads⟩
  have held := good.held b live
  -- Only the place of the next tile has moved on.
  have below : b.base + b.count * 0x10000 ≤ s.segs.table.baseaddr + count * 0x10000 :=
    Nat.le_trans held.below (Nat.le_add_right _ _)
  exact ⟨held.some_segs, held.inside, held.low, below, held.within, held.slots, held.entries,
    held.mapped, held.counted, held.single⟩

/-- Passing over tiles changes none of the blocks. -/
theorem SameSegs.skip (s : SegBooks) (count : Nat) :
    SameSegs s { s with segs := s.segs.skip count } := by
  -- The place of the next tile is not computed.
  obtain ⟨next, there⟩ : ∃ next, s.segs.table.baseaddr + count * 0x10000 = next :=
    Exists.intro _ (Eq.refl _)
  rw [SegState.skip_eq there]
  exact ⟨rfl, rfl, rfl, rfl, rfl⟩

/-- A block that took a run of slots is what the request asked for. -/
theorem givesBlock_take {os : SegKernel} {s : SegBooks} {first count bytes : Nat}
    (chain : ChainSoFar os s.segs first count) (covers : bytes ≤ count * 0x10000) (huge : Bool) :
    GivesBlock s (s.take first count huge) bytes (lxSelectorToSegment first)
      (s.segs.block first count huge) := by
  have inside := chain.inside
  have some_taken := chain.some_taken
  refine ⟨rfl, rfl, covers, inside, ?_, ?_, ?_, ?_, fun addr => rfl⟩
  · intro slot has
    have inside := inSlots_iff.mp has
    exact chain.free slot inside.1 inside.2
  · -- The selectors of consecutive slots are eight apart.
    intro k before
    simp only [SegState.block] at before ⊢
    rw [lxSelectorToSegment_eq (by omega), lxSelectorToSegment_eq (by omega)]
    omega
  · -- The slot with number `k` has the tile with that number.
    intro k before
    simp only [SegState.block] at before ⊢
    have has : inSlots first count (first + k) = true := by
      rw [inSlots_iff]
      omega
    simp only [SegBooks.take, SegState.record, SegState.take, has, if_true,
      Nat.add_sub_cancel_left, and_self]
  · intro slot outside
    simp only [SegBlock.hasSlot, SegState.block] at outside
    simp only [SegBooks.take, SegState.record, SegState.take, outside, Bool.false_eq_true, if_false,
      and_self]

/-- What a request for a chain of segments answers, when it fits the table. -/
inductive ChainAnswer (os : SegKernel) (s : SegState) (count : Nat) (huge : Bool) :
    Option (SegState × ApiRet × Option Nat) → Prop
  | given {first : Nat} (chain : ChainSoFar os s first count) :
      ChainAnswer os s count huge (some ((s.take first count).record first count huge, .noError,
        some (lxSelectorToSegment first)))
  | refused (skipped : Nat) :
      ChainAnswer os s count huge (some (s.skip skipped, .errorNotEnoughMemory, none))

/-- A request that fits gives a block, or fails for lack of memory, and keeps the blocks good. -/
theorem SegsGood.recorded {os : SegKernel} {s : SegBooks} {count bytes : Nat} {huge : Bool}
    {answer : Option (SegState × ApiRet × Option Nat)} (good : SegsGood s)
    (answered : ChainAnswer os s.segs count huge answer) (covers : bytes ≤ count * 0x10000)
    (within : ∀ addr, os.grants addr = true → addr + 0x10000 ≤ 2 ^ 32)
    (single : huge = false → count = 1) :
    ∃ t out, recordBlock s.live count huge answer = some (t, out) ∧ Allocates s t bytes out ∧
      SegsGood t := by
  cases answered with
  | @given first chain =>
    have some_taken := chain.some_taken
    have inside := chain.inside
    have slot : lxSelectorToSegment first >>> 3 = first := lxSelectorToSegment_slot (by omega)
    -- The selector leads back to the first slot, and the first slot has the first tile.
    have recorded : blockAt ((s.segs.take first count).record first count huge)
        (lxSelectorToSegment first) count huge = s.segs.block first count huge := by
      have has : inSlots first count first = true := by
        rw [inSlots_iff]
        omega
      have tile : ((s.segs.take first count).record first count huge).table.ldt first =
          s.segs.table.baseaddr := by
        simp only [SegState.record, SegState.take, has, if_true, Nat.sub_self, Nat.zero_mul,
          Nat.add_zero]
      unfold blockAt SegState.block
      rw [slot, tile]
    refine ⟨s.take first count huge, (.noError, some (lxSelectorToSegment first)), ?_, ?_, ?_⟩
    · unfold recordBlock
      dsimp only
      rw [recorded]
      rfl
    · exact .inr ⟨_, _, rfl, givesBlock_take chain covers huge⟩
    · exact good.take chain within single
  | refused skipped =>
    exact ⟨_, _, rfl, .inl ⟨rfl, SameSegs.skip s skipped⟩, good.skip skipped⟩

/-- A segment that fits takes a slot and the next tile, or nothing. -/
theorem allocSegment_does {os : SegKernel} {s : SegState} (sound : SegSound s)
    (fits : SegmentsFit os s 1) :
    ∃ t out, allocSegment os s = some (t, out) ∧ ChainDoes os s 1 t out := by
  cases granted : os.grants s.table.baseaddr with
  | false => exact ⟨_, _, allocSegment_refused granted, .refused 0⟩
  | true =>
    rcases allocSegment_granted sound granted with
      ⟨slot, _, takes, allowed, allocated⟩ | ⟨misfit, _⟩
    · exact ⟨_, _, allocated, .taken (chainSoFar_first granted takes allowed)⟩
    · exact absurd (fits.first Nat.one_pos granted) misfit

/-- A valid request for one segment that fits is answered. -/
theorem dos16AllocSeg_answers {os : SegKernel} {s : SegState} {size flags : Nat} {wanted : Bool}
    (sound : SegSound s) (valid : segRequestValid wanted flags = true)
    (fits : SegmentsFit os s 1) :
    ChainAnswer os s 1 false (dos16AllocSeg os size wanted flags s) := by
  obtain ⟨t, out, allocated, does⟩ := allocSegment_does sound fits
  simp only [segRequestValid, Bool.and_eq_true, beq_iff_eq] at valid
  unfold dos16AllocSeg
  rw [if_neg (by simp [valid.1]), if_neg (by simp [valid.2]), allocated]
  cases does with
  | @taken first chain =>
    -- The slot is one of the table, so it is not taken for a failure.
    have inside := chain.inside
    unfold lxMaxLdtSlots at inside
    dsimp only
    rw [if_neg (by omega)]
    exact .given chain
  | refused count => exact .refused count

/-- A valid request for a huge block that fits is answered. -/
theorem dos16AllocHuge_answers {os : SegKernel} {s : SegState}
    {numSeg size maxNumSeg flags : Nat} {wanted : Bool} (sound : SegSound s)
    (valid : segRequestValid wanted flags = true) (some_wanted : hugeSegCount numSeg size ≠ 0)
    (fits : SegmentsFit os s (hugeSegCount numSeg size)) :
    ChainAnswer os s (hugeSegCount numSeg size) true
      (dos16AllocHuge os numSeg size wanted maxNumSeg flags s) := by
  obtain ⟨t, out, allocated, does⟩ := allocChain_does sound (Nat.pos_of_ne_zero some_wanted) fits
  simp only [segRequestValid, Bool.and_eq_true, beq_iff_eq] at valid
  unfold dos16AllocHuge
  rw [if_neg (by simp [valid.1]), if_neg (by simp [valid.2])]
  dsimp only
  rw [if_neg some_wanted, allocated]
  cases does with
  | @taken first chain =>
    -- A chain inside the table is short enough for the table of huge blocks.
    have some_taken := chain.some_taken
    have inside := chain.inside
    have small : hugeSegCount numSeg size % 2 ^ 16 = hugeSegCount numSeg size := by
      unfold lxMaxLdtSlots at inside
      omega
    dsimp only
    rw [if_neg (by omega), small]
    exact .given chain
  | refused count => exact .refused count

/-- The books after a block was freed. -/
def SegBooks.drop (s : SegBooks) (b : SegBlock) : SegBooks :=
  let segs := s.segs.drop b.first b.count b.base
  { segs := { segs with hugeBlockSegs := Function.update segs.hugeBlockSegs b.first 0 }
    live := s.live.filter fun c => c ≠ b }

/-- Blocks that are apart are apart either way round. -/
instance : Std.Symm SegBlock.Apart where
  symm _ _ apart := ⟨fun slot both => apart.1 slot both.symm, fun addr both => apart.2 addr both.symm⟩

/-- Two different live blocks are apart. -/
theorem SegsGood.apart_of_ne {s : SegBooks} (good : SegsGood s) {b c : SegBlock}
    (live : b ∈ s.live) (live' : c ∈ s.live) (other : b ≠ c) : b.Apart c :=
  good.apart.forall live live' other

/-- Live blocks with the same selector are the same. -/
theorem SegsGood.selector_inj {s : SegBooks} (good : SegsGood s) {b c : SegBlock}
    (live : b ∈ s.live) (live' : c ∈ s.live) (same : b.selector = c.selector) : b = c := by
  by_contra other
  have held := good.held b live
  have held' := good.held c live'
  have some_segs := held.some_segs
  have inside := held.inside
  have some_segs' := held'.some_segs
  have inside' := held'.inside
  -- They start at the same slot, and so share it.
  unfold SegBlock.selector at same
  rw [lxSelectorToSegment_eq (by omega), lxSelectorToSegment_eq (by omega)] at same
  have first : b.first = c.first := by omega
  have both := held'.hasFirst
  rw [← first] at both
  exact (good.apart_of_ne live live' other).1 b.first ⟨held.hasFirst, both⟩

/-- Freeing a block keeps the other blocks good. -/
theorem SegsGood.drop {s : SegBooks} (good : SegsGood s) {b : SegBlock} (live : b ∈ s.live) :
    SegsGood (s.drop b) := by
  have sound := good.sound.drop b.first b.count b.base
  have held := good.held b live
  refine ⟨⟨sound.aligned, sound.low, sound.synced, sound.ahead⟩, fun c kept => ?_, ?_, ?_⟩
  · -- A block that stays is apart from the one that goes.
    obtain ⟨live', other⟩ := List.mem_filter.mp kept
    have other : c ≠ b := by simpa using other
    have held' := good.held c live'
    have apart := good.apart_of_ne live' live other
    have outside : ∀ slot, c.hasSlot slot = true → inSlots b.first b.count slot = false :=
      fun slot has => Bool.eq_false_iff.mpr fun inside => apart.1 slot ⟨has, inside⟩
    refine ⟨held'.some_segs, held'.inside, held'.low, held'.below, held'.within, ?_, ?_, ?_, ?_,
      held'.single⟩
    · intro slot has
      simp only [SegBooks.drop, SegState.drop, outside slot has, Bool.false_eq_true, if_false]
      exact held'.slots slot has
    · intro slot has
      simp only [SegBooks.drop, SegState.drop, outside slot has, Bool.false_eq_true, if_false]
      exact held'.entries slot has
    · intro addr has
      have away : inTiles b.base b.count addr = false :=
        Bool.eq_false_iff.mpr fun inside => apart.2 addr ⟨has, inside⟩
      simp only [SegBooks.drop, SegState.drop, away, held'.mapped addr has, Bool.not_false,
        Bool.and_self]
    · have elsewhere : c.first ≠ b.first := by
        intro same
        have both := held.hasFirst
        rw [← same] at both
        exact apart.1 c.first ⟨held'.hasFirst, both⟩
      simp only [SegBooks.drop, SegState.drop, Function.update_of_ne elsewhere]
      exact held'.counted
  · exact good.apart.filter _
  · intro slot noted
    -- The start of the block that goes is not noted any more.
    have elsewhere : slot ≠ b.first := by
      rintro rfl
      simp [SegBooks.drop] at noted
    have before : s.segs.hugeBlockSegs slot ≠ 0 := by
      simpa [SegBooks.drop, SegState.drop, elsewhere] using noted
    obtain ⟨c, live', same⟩ := good.heads slot before
    refine ⟨c, List.mem_filter.mpr ⟨live', ?_⟩, same⟩
    have other : c ≠ b := by
      rintro rfl
      exact elsewhere same.symm
    simpa using other

/-- Freeing a block by its selector gives back all of it. -/
theorem dos16FreeSeg_drop {os : SegKernel} {s : SegBooks} (good : SegsGood s) {b : SegBlock}
    (live : b ∈ s.live)
    (allowed : ∀ slot, b.hasSlot slot = true → os.modifyLdt slot = true) :
    dos16FreeSeg os b.selector s.segs = some ((s.drop b).segs, .noError) := by
  have held := good.held b live
  have some_segs := held.some_segs
  have inside := held.inside
  have index : b.selector >>> 3 = b.first := lxSelectorToSegment_slot (by omega)
  have counted := held.counted
  unfold dos16FreeSeg
  simp only [index]
  cases kind : b.huge with
  | true =>
    -- A huge block is noted with its length.
    rw [kind, if_pos rfl] at counted
    rw [counted, if_pos (by omega)]
    have lets : ∀ slot, b.first ≤ slot → slot < b.first + b.count → os.modifyLdt slot = true :=
      fun slot after before => allowed slot (inSlots_iff.mpr ⟨after, before⟩)
    have tiles : ∀ slot, b.first ≤ slot → slot < b.first + b.count →
        s.segs.table.ldt slot = b.base + (slot - b.first) * 0x10000 :=
      fun slot after before => held.slots slot (inSlots_iff.mpr ⟨after, before⟩)
    have freed := freeSegments_drop
      (s := { s.segs with hugeBlockSegs := Function.update s.segs.hugeBlockSegs b.first 0 }) lets
      inside held.low tiles
    rw [freed]
    rfl
  | false =>
    -- A single segment is not noted, so only its own slot is freed.
    rw [kind, if_neg (by decide)] at counted
    have single := held.single kind
    have tile : s.segs.table.ldt b.first = b.base := by
      rw [held.slots b.first held.hasFirst, SegBlock.tile, Nat.sub_self, Nat.zero_mul, Nat.add_zero]
    rw [counted, if_neg (by simp),
      freeSegment_drop (allowed b.first held.hasFirst) (by omega) (held.used held.hasFirst), tile]
    have noted : Function.update s.segs.hugeBlockSegs b.first 0 = s.segs.hugeBlockSegs := by
      rw [← counted, Function.update_eq_self]
    simp only [SegBooks.drop, SegState.drop, single, noted, Option.map_some]

/-- A call that is served does what it is meant to do, and keeps the blocks good. -/
theorem segStep_served {s : SegBooks} {call : SegCall} (good : SegsGood s) (may : SegMay s call)
    (served : SegServed s call) :
    ∃ t out, segStep s call = some (t, out) ∧ SegDone s call t out ∧ SegsGood t := by
  obtain ⟨within, args⟩ := may
  cases call with
  | allocSeg os size wanted flags =>
    by_cases valid : segRequestValid wanted flags = true
    · -- A segment is a whole tile, which is enough for any size.
      have covers : segBytes size ≤ 1 * 0x10000 := by
        simp only at args
        unfold segBytes
        split <;> omega
      have answered : ChainAnswer os s.segs 1 false (dos16AllocSeg os size wanted flags s.segs) :=
        dos16AllocSeg_answers good.sound valid (served valid)
      obtain ⟨t, out, recorded, does, good_t⟩ :=
        good.recorded answered covers within fun _ => rfl
      exact ⟨t, out, recorded, by simpa only [SegDone, valid, if_true] using does, good_t⟩
    · refine ⟨s, (.errorInvalidParameter, none), ?_, by simp [SegDone, valid], good⟩
      have refused : dos16AllocSeg os size wanted flags s.segs =
          some (s.segs, .errorInvalidParameter, none) := by
        cases wanted with
        | false => rfl
        | true =>
          have reserved : flags &&& 0xFFF0 ≠ 0 := by simpa [segRequestValid] using valid
          simp [dos16AllocSeg, reserved]
      simp only [segStep, refused, recordBlock]
  | allocHuge os numSeg size wanted maxNumSeg flags =>
    by_cases valid : segRequestValid wanted flags = true ∧ hugeSegCount numSeg size ≠ 0
    · -- The last segment is for the bytes that are left over.
      have covers : numSeg * 0x10000 + size ≤ hugeSegCount numSeg size * 0x10000 := by
        simp only at args
        unfold hugeSegCount
        split <;> omega
      have answered : ChainAnswer os s.segs (hugeSegCount numSeg size) true
          (dos16AllocHuge os numSeg size wanted maxNumSeg flags s.segs) :=
        dos16AllocHuge_answers good.sound valid.1 valid.2 (served valid.1)
      obtain ⟨t, out, recorded, does, good_t⟩ :=
        good.recorded answered covers within fun kind => by cases kind
      refine ⟨t, out, recorded, ?_, good_t⟩
      unfold SegDone
      exact (if_pos valid).mpr does
    · refine ⟨s, (.errorInvalidParameter, none), ?_, by simp [SegDone, valid], good⟩
      have refused : dos16AllocHuge os numSeg size wanted maxNumSeg flags s.segs =
          some (s.segs, .errorInvalidParameter, none) := by
        cases wanted with
        | false => rfl
        | true =>
          by_cases reserved : flags &&& 0xFFF0 = 0
          · have nothing : hugeSegCount numSeg size = 0 := by
              simpa [segRequestValid, reserved] using valid
            simp [dos16AllocHuge, reserved, nothing]
          · simp [dos16AllocHuge, reserved]
      simp only [segStep, refused, recordBlock]
  | freeSeg os sel =>
    obtain ⟨b, live, rfl⟩ := args
    have freed := dos16FreeSeg_drop good live (served b live rfl)
    -- Only the block itself goes by its selector.
    have erased : (s.live.filter fun c => c.selector ≠ b.selector) =
        s.live.filter fun c => c ≠ b := by
      apply List.filter_congr
      intro c live'
      by_cases same : c = b
      · simp [same]
      · have other : c.selector ≠ b.selector := fun named =>
          same (good.selector_inj live' live named)
        simp [same, other]
    refine ⟨s.drop b, (.noError, none), ?_, ⟨rfl, b, live, rfl, ?_⟩, good.drop live⟩
    · simp only [segStep, freed, erased]
      rfl
    · exact ⟨rfl, fun slot => rfl, fun addr => rfl⟩

/-- Freeing a segment clears its slot, when the kernel lets it, and changes no other slot. -/
theorem freeSegment_clears {os : SegKernel} {s t : SegState} {slot : Nat}
    (freed : freeSegment os slot s = some t) :
    (∀ other, s.table.ldt other = 0 → t.table.ldt other = 0) ∧
      (os.modifyLdt slot = true → t.table.ldt slot = 0) := by
  unfold freeSegment lxFreeSegment lxFreeSelector at freed
  by_cases inside : slot < lxMaxLdtSlots
  · by_cases empty : s.table.ldt slot = 0
    · -- A free slot stays as it is.
      simp only [inside, empty, not_true_eq_false, if_false, if_true] at freed
      cases freed
      exact ⟨fun _ free => free, fun _ => empty⟩
    · cases allowed : os.modifyLdt slot with
      | false =>
        simp only [inside, empty, allowed, not_true_eq_false, if_false, if_true,
          Option.map_some] at freed
        cases freed
        exact ⟨fun _ free => free, fun always => by cases always⟩
      | true =>
        simp only [inside, empty, allowed, not_true_eq_false, Bool.true_eq_false, if_false,
          Option.map_some] at freed
        cases freed
        refine ⟨fun other free => ?_, fun _ => Function.update_self ..⟩
        simp only [LdtState.clear, Function.update_apply, free, ite_self]
  · simp only [inside, not_false_eq_true, if_true] at freed
    cases freed

/-- Freeing the segments of consecutive slots fills no slot. -/
theorem freeSegments_free {os : SegKernel} {s t : SegState} {first count slot : Nat}
    (freed : freeSegments os count first s = some t) (free : s.table.ldt slot = 0) :
    t.table.ldt slot = 0 := by
  -- Each of the slots is cleared or stays as it is.
  induction count generalizing first s with
  | zero =>
    cases freed
    exact free
  | succ count ih =>
    unfold freeSegments at freed
    cases next : freeSegment os (first % 2 ^ 16) s with
    | none =>
      rw [next] at freed
      cases freed
    | some u =>
      rw [next] at freed
      exact ih freed ((freeSegment_clears next).1 slot free)

/-- Freeing the segments of consecutive slots clears each of them. -/
theorem freeSegments_clears {os : SegKernel} {s t : SegState} {first count slot : Nat}
    (accepts : ∀ slot, os.modifyLdt slot = true) (freed : freeSegments os count first s = some t)
    (after : first ≤ slot) (before : slot < first + count) (small : slot < 2 ^ 16) :
    t.table.ldt slot = 0 := by
  -- The slot is cleared when the loop is at it, and stays free from there on.
  induction count generalizing first s with
  | zero => omega
  | succ count ih =>
    unfold freeSegments at freed
    cases next : freeSegment os (first % 2 ^ 16) s with
    | none =>
      rw [next] at freed
      cases freed
    | some u =>
      rw [next] at freed
      rcases Nat.eq_or_lt_of_le after with rfl | later
      · rw [Nat.mod_eq_of_lt small] at next
        exact freeSegments_free freed ((freeSegment_clears next).2 (accepts first))
      · exact ih freed later (by omega)

/-- Allocating a segment leaves every slot that is taken as it was. -/
theorem allocSegment_kept {os : SegKernel} {s t : SegState} {out : Option Nat} {slot : Nat}
    (allocated : allocSegment os s = some (t, out)) (used : s.table.ldt slot ≠ 0) :
    t.table.ldt slot = s.table.ldt slot := by
  unfold allocSegment at allocated
  cases answer : lxAllocSegment [] os.modifyLdt (os.grants s.table.baseaddr) false s.table with
  | none =>
    rw [answer] at allocated
    cases allocated
  | some pair =>
    obtain ⟨table, found⟩ := pair
    -- The table is the one the loader leaves, whatever it found.
    have same : t.table = table := by
      rw [answer] at allocated
      cases found with
      | none =>
        cases allocated
        rfl
      | some place =>
        cases allocated
        rfl
    rw [same]
    rcases lxAllocSegment_does answer with rfl | ⟨_, does⟩
    · rfl
    · exact does.kept used

/-- A chain with a slot that was taken before loses that slot, or ends as if it had been free. -/
theorem allocChain_spoilt {os : SegKernel} {s t : SegState} {first left i slot : Nat}
    {out : Option Nat} (accepts : ∀ slot, os.modifyLdt slot = true) (some_taken : 0 < i)
    (after : first ≤ slot) (before : slot < first + i) (inside : slot < lxMaxLdtSlots)
    (used : s.table.ldt slot ≠ 0)
    (ran : allocChain os left i first s = some (t, out)) :
    (out = none ∧ t.table.ldt slot = 0) ∨ out = some first := by
  unfold lxMaxLdtSlots at inside
  -- Whatever is given back includes the slot.
  induction left generalizing i s with
  | zero =>
    cases ran
    exact .inr rfl
  | succ left ih =>
    unfold allocChain at ran
    cases allocated : allocSegment os s with
    | none =>
      rw [allocated] at ran
      cases ran
    | some pair =>
      obtain ⟨u, found⟩ := pair
      have kept := allocSegment_kept allocated used
      rw [allocated] at ran
      cases found with
      | none =>
        dsimp only at ran
        rw [if_pos (by omega : first ≠ 0xFFFF)] at ran
        obtain ⟨v, freed, same⟩ := Option.map_eq_some_iff.mp ran
        cases same
        exact .inl ⟨rfl, freeSegments_clears accepts freed after before (by omega)⟩
      | some sel =>
        dsimp only at ran
        rw [if_neg (by omega : ¬ i = 0)] at ran
        by_cases behind : sel ≠ (first + i) % 2 ^ 16
        · rw [if_pos behind] at ran
          cases next : freeSegment os sel u with
          | none =>
            rw [next] at ran
            cases ran
          | some v =>
            rw [next] at ran
            obtain ⟨w, freed, same⟩ := Option.map_eq_some_iff.mp ran
            cases same
            exact .inl ⟨rfl, freeSegments_clears accepts freed after before (by omega)⟩
        · rw [if_neg behind] at ran
          exact ih (Nat.succ_pos i) (by omega) (by rw [kept]; exact used) ran

/-- What comes of a chain that does not fit: a slot is lost, or a slot is used that was taken. -/
def Spoils (s : SegState) (segs : Nat) (t : SegState) (out : Option Nat) : Prop :=
  (out = none ∧ ∃ slot, s.table.ldt slot ≠ 0 ∧ t.table.ldt slot = 0) ∨
    ∃ first, out = some first ∧
      ∃ slot, first ≤ slot ∧ slot < first + segs ∧ s.table.ldt slot ≠ 0

/-- No slot of a chain holds the next tile. -/
theorem take_slot_misses {s : SegState} {first count slot : Nat}
    (holds : tileHolds ((s.take first count).table.ldt slot) (s.tileAt count) = true) :
    inSlots first count slot = false := by
  rw [Bool.eq_false_iff]
  intro inside
  -- An earlier tile of the chain ends where a later one starts, or before.
  have wraps := Nat.mod_le (s.table.baseaddr + (slot - first) * 0x10000 + 0x10000) (2 ^ 32)
  simp only [SegState.take, inside, if_true, tileHolds, SegState.tileAt, Bool.and_eq_true,
    decide_eq_true_eq] at holds
  rw [inSlots_iff] at inside
  omega

/-- A chain whose next segment does not fit is spoilt, if it does not trip an assertion. -/
theorem allocChain_here {os : SegKernel} {s t : SegState} {segs first left i : Nat}
    {out : Option Nat} (sound : SegSound s) (accepts : ∀ slot, os.modifyLdt slot = true)
    (some_taken : 0 < i) (fits : first + i ≤ lxMaxLdtSlots) (remaining : i + (left + 1) = segs)
    (granted : os.grants (s.tileAt i) = true)
    (misfit : ¬ TileFits os.modifyLdt (s.take first i).table.ldt (s.tileAt i))
    (ran : allocChain os (left + 1) i first (s.take first i) = some (t, out)) :
    Spoils s segs t out := by
  unfold lxMaxLdtSlots at fits
  unfold allocChain at ran
  rcases allocSegment_granted (sound.take first i) granted with
    ⟨slot, unheld, takes, allowed, _⟩ | ⟨_, faults | ⟨u, slot, inside, used, holds, same, hit⟩⟩
  · exact absurd ⟨unheld, slot, takes, allowed⟩ misfit
  · rw [faults] at ran
    cases ran
  · -- The slot was taken before the chain was started, and the request goes on with it.
    have outside := take_slot_misses holds
    have taken : s.table.ldt slot ≠ 0 := by
      simpa only [SegState.take, outside, Bool.false_eq_true, if_false] using used
    have used' : u.table.ldt slot ≠ 0 := by rw [same]; exact used
    have small : slot < 2 ^ 16 := by
      unfold lxMaxLdtSlots at inside
      omega
    rw [hit] at ran
    dsimp only at ran
    rw [if_neg (by omega : ¬ i = 0)] at ran
    by_cases behind : slot ≠ (first + i) % 2 ^ 16
    · -- It is given back, although it was not free.
      rw [if_pos behind] at ran
      cases next : freeSegment os slot u with
      | none =>
        rw [next] at ran
        cases ran
      | some v =>
        rw [next] at ran
        obtain ⟨w, freed, answer⟩ := Option.map_eq_some_iff.mp ran
        cases answer
        have cleared := (freeSegment_clears next).2 (accepts slot)
        exact .inl ⟨rfl, slot, taken, freeSegments_free freed cleared⟩
    · rw [if_neg behind] at ran
      have place : slot = first + i := by omega
      rcases allocChain_spoilt accepts (Nat.succ_pos i) (by omega) (by omega) inside used' ran with
        ⟨none_left, lost⟩ | whole
      · exact .inl ⟨none_left, slot, taken, lost⟩
      · exact .inr ⟨first, whole, slot, by omega, by omega, taken⟩

/-- A chain that comes to a segment that does not fit is spoilt, wherever the loop is before it. -/
theorem allocChain_misfit {os : SegKernel} {s t : SegState} {segs first left i k : Nat}
    {out : Option Nat} (sound : SegSound s) (accepts : ∀ slot, os.modifyLdt slot = true)
    (remaining : i + left = segs) (chain : ChainSoFar os s first i) (later : i ≤ k)
    (within : k < segs) (comes : ComesTo os s k) (granted : os.grants (s.tileAt k) = true)
    (misfit : ¬ TileFits os.modifyLdt (s.take first k).table.ldt (s.tileAt k))
    (ran : allocChain os left i first (s.take first i) = some (t, out)) : Spoils s segs t out := by
  -- The loop goes on to that segment, unless an earlier one does not fit already.
  induction left generalizing i with
  | zero => omega
  | succ left ih =>
    have some_taken := chain.some_taken
    have inside := chain.inside
    rcases Nat.eq_or_lt_of_le later with rfl | earlier
    · exact allocChain_here sound accepts some_taken inside remaining granted misfit ran
    · by_cases fits : TileFits os.modifyLdt (s.take first i).table.ldt (s.tileAt i)
      · have granted' := comes.1 i earlier
        unfold allocChain at ran
        rcases allocSegment_granted (sound.take first i) granted' with
          ⟨slot, _, takes, allowed, allocated⟩ | ⟨wrong, _⟩
        · -- The slots of the earlier tiles are their own, so this one is behind the chain.
          obtain ⟨idx, tiled, free⟩ := comes.2 (by omega) 0 (by omega)
          have tiled : tiledIndex s.table.baseaddr = some idx := by
            simpa [SegState.tileAt] using tiled
          have starts : first = idx := chain.start.own idx tiled free
          obtain ⟨own, tiled', free'⟩ := comes.2 (by omega) i earlier
          have own_inside := (tiledIndex_lt tiled').1
          have place : own = first + i := by
            rw [(tiledIndex_lt tiled').2, starts, (tiledIndex_lt tiled).2]
            have aligned := sound.aligned
            simp only [SegState.tileAt]
            omega
          have behind : slot = first + i := by
            rw [← place]
            apply takes.own own tiled'
            have outside : inSlots first i own = false := by
              rw [Bool.eq_false_iff, ne_eq, inSlots_iff]
              omega
            simpa only [SegState.take, outside, Bool.false_eq_true, if_false] using free'
          subst behind
          have slot_inside := takes.inside
          have small : (first + i) % 2 ^ 16 = first + i := by
            unfold lxMaxLdtSlots at slot_inside
            omega
          rw [allocated] at ran
          dsimp only at ran
          rw [if_neg (by omega : ¬ i = 0), small, if_neg (by simp), SegState.take_take] at ran
          exact ih (by omega) (chain.extend granted' slot_inside allowed takes.free) earlier ran
        · exact absurd fits wrong
      · exact allocChain_here sound accepts some_taken inside remaining (comes.1 i earlier) fits
          ran

/-- A request for a chain that does not fit is spoilt, if it does not trip an assertion. -/
theorem allocChain_spoils {os : SegKernel} {s t : SegState} {segs : Nat} {out : Option Nat}
    (sound : SegSound s) (accepts : ∀ slot, os.modifyLdt slot = true) (some_wanted : 0 < segs)
    (misfit : ¬ SegmentsFit os s segs)
    (ran : allocChain os segs 0 0xFFFF s = some (t, out)) : Spoils s segs t out := by
  simp only [SegmentsFit, not_forall, exists_prop] at misfit
  obtain ⟨k, within, comes, granted, start, starts, unfit⟩ := misfit
  obtain ⟨left, rfl⟩ : ∃ left, segs = left + 1 := ⟨segs - 1, by omega⟩
  have base : s.tileAt 0 = s.table.baseaddr := by simp [SegState.tileAt]
  have granted_first : os.grants s.table.baseaddr = true := by
    rcases Nat.eq_zero_or_pos k with rfl | later
    · rwa [base] at granted
    · rw [← base]
      exact comes.1 0 later
  unfold allocChain at ran
  rcases allocSegment_granted sound granted_first with
    ⟨slot, unheld, takes, allowed, allocated⟩ |
      ⟨_, faults | ⟨u, slot, inside, used, holds, same, hit⟩⟩
  · rw [allocated] at ran
    have later : 0 < k := by
      by_contra first
      obtain rfl : k = 0 := by omega
      rw [base, SegState.take_zero] at unfit
      exact unfit ⟨unheld, slot, takes, allowed⟩
    -- There is only one slot the first tile can take.
    rw [(starts later).unique takes] at unfit
    exact allocChain_misfit sound accepts (by omega) (chainSoFar_first granted_first takes allowed)
      later within comes granted unfit ran
  · rw [faults] at ran
    cases ran
  · -- The first slot of the chain was taken already.
    rw [hit] at ran
    have used' : u.table.ldt slot ≠ 0 := by rw [same]; exact used
    rcases allocChain_spoilt accepts Nat.one_pos (Nat.le_refl slot) (by omega) inside used' ran with
      ⟨none_left, lost⟩ | whole
    · exact .inl ⟨none_left, slot, used, lost⟩
    · exact .inr ⟨slot, whole, slot, Nat.le_refl slot, by omega, used⟩

/-- A segment that does not fit takes over a slot, if it does not trip an assertion. -/
theorem allocSegment_misfit {os : SegKernel} {s t : SegState} {out : Option Nat}
    (sound : SegSound s) (misfit : ¬ SegmentsFit os s 1)
    (ran : allocSegment os s = some (t, out)) :
    ∃ slot, out = some slot ∧ slot < lxMaxLdtSlots ∧ s.table.ldt slot ≠ 0 := by
  simp only [SegmentsFit, not_forall, exists_prop] at misfit
  obtain ⟨k, within, _, granted, start, _, unfit⟩ := misfit
  obtain rfl : k = 0 := by omega
  have base : s.tileAt 0 = s.table.baseaddr := by simp [SegState.tileAt]
  rw [base] at granted
  rw [base, SegState.take_zero] at unfit
  rcases allocSegment_granted sound granted with
    ⟨slot, unheld, takes, allowed, _⟩ | ⟨_, faults | ⟨u, slot, inside, used, _, _, hit⟩⟩
  · exact absurd ⟨unheld, slot, takes, allowed⟩ unfit
  · rw [faults] at ran
    cases ran
  · rw [hit] at ran
    cases ran
    exact ⟨slot, rfl, inside, used⟩

/-- A block with a slot that was taken before is not what a request asked for. -/
theorem not_allocates_taken {s : SegBooks} {segs : SegState} {ret : ApiRet}
    {first count bytes slot : Nat} {huge : Bool} (inside : first < lxMaxLdtSlots)
    (after : first ≤ slot) (before : slot < first + count) (used : s.segs.table.ldt slot ≠ 0) :
    ¬ Allocates s ⟨segs, blockAt segs (lxSelectorToSegment first) count huge :: s.live⟩ bytes
      (ret, some (lxSelectorToSegment first)) := by
  rintro (⟨answer, _⟩ | ⟨sel, b, _, gives⟩)
  · cases answer
  · -- The block that was handed out starts at that slot and has that length.
    have block := (List.cons.inj gives.live).1
    have free := gives.free slot
    rw [← block] at free
    simp only [SegBlock.hasSlot, blockAt, inSlots_iff, lxSelectorToSegment_slot inside] at free
    exact used (free ⟨after, before⟩)

/-- A valid request for a segment that does not fit is not served. -/
theorem allocSeg_misfit {os : SegKernel} {s t : SegBooks} {size flags : Nat} {wanted : Bool}
    {out : ApiRet × Option Nat} (good : SegsGood s) (valid : segRequestValid wanted flags = true)
    (misfit : ¬ SegmentsFit os s.segs 1)
    (stepped : segStep s (.allocSeg os size wanted flags) = some (t, out)) :
    ¬ Allocates s t (segBytes size) out := by
  simp only [segRequestValid, Bool.and_eq_true, beq_iff_eq] at valid
  unfold segStep dos16AllocSeg at stepped
  simp only at stepped
  rw [if_neg (by simp [valid.1]), if_neg (by simp [valid.2])] at stepped
  cases ran : allocSegment os s.segs with
  | none =>
    rw [ran] at stepped
    cases stepped
  | some pair =>
    obtain ⟨u, found⟩ := pair
    obtain ⟨slot, rfl, inside, used⟩ := allocSegment_misfit good.sound misfit ran
    have small : ¬ slot = 0xFFFF := by
      unfold lxMaxLdtSlots at inside
      omega
    rw [ran] at stepped
    dsimp only at stepped
    rw [if_neg small] at stepped
    cases stepped
    exact not_allocates_taken inside (Nat.le_refl slot) (by omega) used

/-- A valid request for a huge block that does not fit is not served. -/
theorem allocHuge_misfit {os : SegKernel} {s t : SegBooks} {numSeg size maxNumSeg flags : Nat}
    {wanted : Bool} {out : ApiRet × Option Nat} {bytes : Nat} (good : SegsGood s)
    (accepts : ∀ slot, os.modifyLdt slot = true) (valid : segRequestValid wanted flags = true)
    (some_wanted : hugeSegCount numSeg size ≠ 0)
    (misfit : ¬ SegmentsFit os s.segs (hugeSegCount numSeg size))
    (stepped : segStep s (.allocHuge os numSeg size wanted maxNumSeg flags) = some (t, out)) :
    ¬ Allocates s t bytes out := by
  simp only [segRequestValid, Bool.and_eq_true, beq_iff_eq] at valid
  unfold segStep dos16AllocHuge at stepped
  simp only at stepped
  rw [if_neg (by simp [valid.1]), if_neg (by simp [valid.2]), if_neg some_wanted] at stepped
  cases ran : allocChain os (hugeSegCount numSeg size) 0 0xFFFF s.segs with
  | none =>
    rw [ran] at stepped
    cases stepped
  | some pair =>
    obtain ⟨u, found⟩ := pair
    have spoilt := allocChain_spoils good.sound accepts (Nat.pos_of_ne_zero some_wanted) misfit ran
    rw [ran] at stepped
    cases found with
    | none =>
      -- The request failed, and a slot was lost.
      cases stepped
      rcases spoilt with ⟨_, slot, used, lost⟩ | ⟨first, answer, _⟩
      · rintro (⟨_, same⟩ | ⟨sel, b, answer, _⟩)
        · have kept := congrFun same.ldt slot
          exact used (kept.symm.trans lost)
        · cases answer
      · cases answer
    | some first =>
      -- A block was handed out, and one of its slots was not free.
      dsimp only at stepped
      by_cases inside : first < lxMaxLdtSlots
      · rw [if_neg (by simpa using inside)] at stepped
        cases stepped
        rcases spoilt with ⟨answer, _⟩ | ⟨start, answer, slot, after, before, used⟩
        · cases answer
        · cases answer
          exact not_allocates_taken inside after before used
      · rw [if_pos inside] at stepped
        cases stepped

/-- With a kernel that takes every change, a call that does what it is meant to do is served. -/
theorem segStep_needs {s t : SegBooks} {call : SegCall} {out : ApiRet × Option Nat}
    (good : SegsGood s) (accepts : ∀ slot, call.os.modifyLdt slot = true)
    (stepped : segStep s call = some (t, out)) (done : SegDone s call t out) :
    SegServed s call := by
  cases call with
  | allocSeg os size wanted flags =>
    intro valid
    by_contra misfit
    simp only [SegDone, valid, if_true] at done
    exact allocSeg_misfit good valid misfit stepped done
  | allocHuge os numSeg size wanted maxNumSeg flags =>
    intro valid
    by_contra misfit
    by_cases some_wanted : hugeSegCount numSeg size = 0
    · -- A block of no segments always fits.
      apply misfit
      intro k within
      omega
    · simp only [SegDone, valid, some_wanted, ne_eq, not_false_eq_true, and_self, if_true] at done
      exact allocHuge_misfit good accepts valid some_wanted misfit stepped done
  | freeSeg os sel =>
    intro b _ _ slot _
    exact accepts slot

/-- A loader that has allocated nothing yet is good. -/
theorem segsGood_initial : SegsGood {} := by
  -- The table is empty, nothing is mapped, and no block is live.
  refine ⟨⟨by decide, by decide, fun _ _ => rfl, fun _ _ => rfl⟩, ?_, List.Pairwise.nil, ?_⟩
  · intro b live
    cases live
  · intro slot noted
    exact absurd rfl noted

/-- The first segment of a loader fits into the empty table. -/
theorem first_segment_fits : SegmentsFit {} ({} : SegBooks).segs 1 := by
  intro k within _ _ first _
  obtain rfl : k = 0 := by omega
  rw [SegState.take_zero]
  -- Every slot is free, so the tile goes to its own one.
  refine ⟨fun slot _ used => absurd rfl used, 2176, ⟨by decide, rfl, ?_, ?_⟩, rfl⟩
  · intro idx tiled _
    have own : tiledIndex (({} : SegBooks).segs.tileAt 0) = some 2176 := by decide
    exact Option.some.inj (own.symm.trans tiled)
  · intro taken
    exact absurd rfl (taken 2176 (by decide))

/--
The segments after the whole table was filled: the slots from the first tile on have their own
tiles, and the tiles above 512 megabytes went to the slots below, the last one first.
-/
def crowdedSegs : SegState :=
  { table :=
      { ldt := fun slot =>
          if slot < 2176 then 0x20000000 + (2175 - slot) * 0x10000 else slot * 0x10000
        baseaddr := 0x28800000 } }

/-- A full table is a good one. -/
theorem segsGood_crowded : SegsGood { segs := crowdedSegs } := by
  refine ⟨⟨by decide, by decide, fun _ _ => rfl, fun _ _ => rfl⟩, ?_, List.Pairwise.nil, ?_⟩
  · intro b live
    cases live
  · intro slot noted
    exact absurd rfl noted

/-- A segment for which no slot is left trips an assertion. -/
theorem allocSegment_crowded : allocSegment {} crowdedSegs = none := by
  have used : ∀ slot, slot < lxMaxLdtSlots → crowdedSegs.table.ldt slot ≠ 0 := by
    intro slot _
    simp only [crowdedSegs]
    split <;> omega
  have granted : ({} : SegKernel).grants crowdedSegs.table.baseaddr = true := by decide
  rcases allocSegment_granted segsGood_crowded.sound granted with
    ⟨slot, _, takes, _⟩ | ⟨_, faults | ⟨_, slot, inside, _, holds, _⟩⟩
  · exact absurd takes.free (used slot takes.inside)
  · exact faults
  · -- Every tile of the table ends below the next one.
    have below : crowdedSegs.table.ldt slot + 0x10000 ≤ crowdedSegs.table.baseaddr := by
      unfold lxMaxLdtSlots at inside
      simp only [crowdedSegs]
      split <;> omega
    have wraps := Nat.mod_le (crowdedSegs.table.ldt slot + 0x10000) (2 ^ 32)
    unfold tileHolds at holds
    rw [Bool.and_eq_true, decide_eq_true_eq, decide_eq_true_eq] at holds
    exact absurd (Nat.lt_of_lt_of_le holds.2 (Nat.le_trans wraps below)) (Nat.lt_irrefl _)

/-- When the allocation of a segment trips an assertion, so do the requests that need one. -/
theorem segStep_faults {os : SegKernel} {s : SegBooks} (faults : allocSegment os s.segs = none) :
    segStep s (.allocSeg os 100 true 0) = none ∧
      segStep s (.allocHuge os 2 0 true 0 0) = none := by
  -- Both allocate a segment before anything else.
  constructor
  · simp [segStep, dos16AllocSeg, faults, recordBlock]
  · simp [segStep, dos16AllocHuge, hugeSegCount, allocChain, faults, recordBlock]

end TwoIne
