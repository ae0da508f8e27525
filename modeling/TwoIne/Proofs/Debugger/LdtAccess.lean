import TwoIne.Debugger.LdtAccess
import TwoIne.Proofs.Debugger.LinearLookup
import TwoIne.Proofs.LxLoader.Ldt

/-!
A selector and an offset are found again by their linear address, but for the last byte of each
segment; and the two conversions to linear addresses differ where nothing is allocated.
-/

namespace TwoIne

section Conversions

variable {state : DebugSharedState} {selector offset : BitVec 16} {linear : BitVec 32}

/-- The base of the slot of a selector. -/
def DebugSharedState.base (state : DebugSharedState) (selector : BitVec 16) : BitVec 32 :=
  state.selectors (selectorSlot selector)

/-- Thirteen bits are left of a selector without its low three. -/
theorem index_eq_selectorSlot (selector : BitVec 16) :
    ((selector >>> 3) &&& 0x1FFF).toNat = selectorSlot selector := by
  -- The mask has all of the bits that are left.
  have bound := selectorSlot_lt selector
  have mask : (0x1FFF : BitVec 16).toNat = 2 ^ 13 - 1 := rfl
  rw [BitVec.toNat_and, mask, Nat.and_two_pow_sub_one_eq_mod]
  exact Nat.mod_eq_of_lt bound

/-- A selector of the LDT is converted by its slot, unless nothing is in it. -/
theorem ldtSelectorToLinear_ldt (state : DebugSharedState) (offset : BitVec 16)
    (local_table : selector &&& 0x4 ≠ 0) :
    ldtSelectorToLinear (some state) selector offset =
      if state.base selector = 0 ∧ selectorSlot selector ≠ 0 then 0xFFFFFFFF
      else state.base selector + offset.setWidth 32 := by
  unfold ldtSelectorToLinear
  dsimp only
  rw [if_neg local_table, index_eq_selectorSlot, if_neg (Nat.not_le.mpr (selectorSlot_lt selector))]
  rfl

/-- A code address is converted by its slot, whatever is in it. -/
theorem linearAddressFromSelectors_eq (state : DebugSharedState) (cs ip : BitVec 16) :
    linearAddressFromSelectors (some state) cs ip = state.base cs + ip.setWidth 32 := by
  have mask : ip &&& 0xFFFF = ip := BitVec.and_allOnes
  unfold linearAddressFromSelectors ldtGetSelectorInfo
  dsimp only
  rw [if_neg (Nat.not_le.mpr (selectorSlot_lt cs)), mask]
  -- Both widths of a segment are treated the same.
  exact ite_self _

/-- A selector of another table is converted to an address that never says that there is none. -/
theorem ldtSelectorToLinear_gdt (state : DebugSharedState) (offset : BitVec 16)
    (global_table : selector &&& 0x4 = 0) :
    ldtSelectorToLinear (some state) selector offset ≠ 0xFFFFFFFF := by
  unfold ldtSelectorToLinear
  dsimp only
  rw [if_pos global_table]
  intro same
  -- The sum is far below the last address.
  have low := selector.isLt
  have high := offset.isLt
  bv_omega

/-! Back from linear addresses -/

/-- A table as the loader shares it: 64K aligned bases, each of them in one slot only. -/
structure SharedTable (state : DebugSharedState) : Prop where
  aligned : ∀ i < lxMaxLdtSlots, (state.selectors i).toNat % 0x10000 = 0
  distinct : ∀ i < lxMaxLdtSlots, ∀ j < lxMaxLdtSlots, state.selectors i ≠ 0 →
    state.selectors i = state.selectors j → i = j
  limited : ∀ i < lxMaxLdtSlots, state.limit i = 0xFFFF

/-- Marking the objects of modules changes no limit. -/
theorem markModules_limit (modules : List (List LxMmaps)) (state : DebugSharedState) :
    (markModules modules state).limit = state.limit := by
  have objects (i : Nat) (mmaps : List LxMmaps) (state : DebugSharedState) :
      (markObjects i mmaps state).limit = state.limit := by
    induction mmaps generalizing i state with
    | nil => rfl
    | cons m rest ih =>
      rw [markObjects, ih, markObject]
      split <;> rfl
  -- One module after the other.
  induction modules generalizing state with
  | nil => rfl
  | cons mmaps rest ih => rw [markModules, ih, objects]

/-- What the loader shares of its own table is such a table. -/
theorem LdtTiled.shared {ldt : Nat → Nat} (tiled : LdtTiled ldt)
    (loadedModules : List (List LxMmaps)) (program : List LxMmaps) (before : DebugSharedState) :
    SharedTable (fillDebugState ldt loadedModules program before) := by
  have bases {i : Nat} (inside : i < lxMaxLdtSlots) :
      ((fillDebugState ldt loadedModules program before).selectors i).toNat = ldt i := by
    -- No base needs more than 32 bits.
    have below := tiled.below i inside
    rw [fillDebugState, markModules_selectors]
    simp only [copySelectors, if_pos inside, BitVec.toNat_ofNat]
    omega
  constructor
  · intro i inside
    rw [bases inside]
    exact tiled.aligned i inside
  · intro i inside j inside' used same
    have values := congrArg BitVec.toNat same
    rw [bases inside, bases inside'] at values
    apply tiled.unique i j inside inside' ?_ values
    -- A slot with a base of zero would not be in use.
    intro zero
    apply used
    apply BitVec.eq_of_toNat_eq
    rw [bases inside, zero]
    rfl
  · intro i inside
    rw [fillDebugState, markModules_limit]
    simp only [copySelectors, if_pos inside]

/-- The selector that is made for a slot is one of that slot in the LDT. -/
theorem made_selector {i : Nat} (inside : i < lxMaxLdtSlots) :
    selectorSlot (BitVec.ofNat 16 i <<< 3 ||| 0x04 ||| 0x03) = i ∧
      (BitVec.ofNat 16 i <<< 3 ||| 0x04 ||| 0x03) &&& 0x4 ≠ 0 := by
  simp only [lxMaxLdtSlots] at inside
  constructor
  · -- The low three bits are dropped again.
    rw [selectorSlot, BitVec.toNat_ushiftRight, BitVec.toNat_or, BitVec.toNat_or,
      Nat.shiftRight_or_distrib, Nat.shiftRight_or_distrib, BitVec.toNat_shiftLeft,
      BitVec.toNat_ofNat, Nat.shiftLeft_eq, Nat.shiftRight_eq_div_pow]
    have four : (0x04 : BitVec 16).toNat >>> 3 = 0 := rfl
    have three : (0x03 : BitVec 16).toNat >>> 3 = 0 := rfl
    rw [four, three, Nat.or_zero, Nat.or_zero]
    omega
  · intro zero
    have third := congrArg (fun bits => bits.getLsbD 2) zero
    simp at third

/-- The lookup of an address takes the first slot that holds it. -/
theorem ldtLinearToSelector_eq (state : DebugSharedState) (linear : BitVec 32) :
    ldtLinearToSelector (some state) linear =
      ((List.range lxMaxLdtSlots).find? (state.holds linear)).map fun i =>
        (BitVec.ofNat 16 i <<< 3 ||| 0x04 ||| 0x03, (linear - state.selectors i).setWidth 16) :=
  rfl

/-- In a shared table the slot of a segment holds its bytes but for the last one, and no other. -/
theorem SharedTable.holds_iff (table : SharedTable state) {i : Nat} (inside : i < lxMaxLdtSlots)
    (used : state.base selector ≠ 0) :
    state.holds (state.base selector + offset.setWidth 32) i = true ↔
      i = selectorSlot selector ∧ offset ≠ 0xFFFF := by
  have here := table.aligned _ (selectorSlot_lt selector)
  have there := table.aligned i inside
  have limit := table.limited i inside
  have short := offset.isLt
  unfold DebugSharedState.holds
  unfold DebugSharedState.base at used ⊢
  dsimp only
  rw [limit]
  simp only [ne_eq, Bool.and_eq_true, decide_eq_true_eq]
  constructor
  · intro held
    obtain ⟨used', above, below⟩ := held
    -- Two 64K aligned bases are the same if both are within the same 64K.
    have same : state.selectors i = state.selectors (selectorSlot selector) := by bv_omega
    refine ⟨table.distinct i inside _ (selectorSlot_lt selector) used' same, fun last => ?_⟩
    rw [same] at below
    bv_omega
  · intro own
    obtain ⟨same, other⟩ := own
    subst same
    refine ⟨used, ?_, ?_⟩
    · bv_omega
    · bv_omega

end Conversions

/-- A selector and an offset are found by their linear address: the same slot and offset. -/
def FoundAgain (state : DebugSharedState) (selector offset : BitVec 16) : Prop :=
  ∃ found, ldtLinearToSelector (some state)
      (ldtSelectorToLinear (some state) selector offset) = some (found, offset) ∧
    selectorSlot found = selectorSlot selector ∧
    ldtSelectorToLinear (some state) found offset =
      ldtSelectorToLinear (some state) selector offset

/-- The last offset of a segment is not found again. -/
theorem SharedTable.not_last {state : DebugSharedState} (table : SharedTable state)
    {selector offset : BitVec 16} (local_table : selector &&& 0x4 ≠ 0)
    (used : state.base selector ≠ 0) (again : FoundAgain state selector offset) :
    offset ≠ 0xFFFF := by
  obtain ⟨found, search, _⟩ := again
  -- Some slot holds the address, so it is not that of the last byte.
  rw [ldtSelectorToLinear_ldt _ _ local_table, if_neg fun free => used free.1,
    ldtLinearToSelector_eq, Option.map_eq_some_iff] at search
  obtain ⟨i, first, _⟩ := search
  have inside := List.mem_range.mp (List.mem_of_find?_eq_some first)
  exact ((table.holds_iff inside used).mp (List.find?_some first)).2

/--
In a table as the loader shares it, an offset in an allocated slot is found again by its linear
address exactly if it is not the last one of the segment.
-/
theorem selector_found_again_iff {state : DebugSharedState} (table : SharedTable state)
    {selector : BitVec 16} (local_table : selector &&& 0x4 ≠ 0) (used : state.base selector ≠ 0)
    (offset : BitVec 16) : FoundAgain state selector offset ↔ offset ≠ 0xFFFF := by
  have linear : ldtSelectorToLinear (some state) selector offset =
      state.base selector + offset.setWidth 32 := by
    rw [ldtSelectorToLinear_ldt _ _ local_table, if_neg fun free => used free.1]
  constructor
  · exact table.not_last local_table used
  · intro other
    unfold FoundAgain
    rw [linear]
    have inside := selectorSlot_lt selector
    have first : (List.range lxMaxLdtSlots).find?
        (state.holds (state.base selector + offset.setWidth 32)) =
          some (selectorSlot selector) := by
      rw [List.find?_range_eq_some]
      refine ⟨(table.holds_iff inside used).mpr ⟨rfl, other⟩, List.mem_range.mpr inside, ?_⟩
      intro j before
      -- No slot in front of it holds the address.
      rw [Bool.not_eq_true', Bool.eq_false_iff]
      intro held
      have same := ((table.holds_iff (by omega) used).mp held).1
      omega
    have made := made_selector inside
    refine ⟨_, ?_, made.1, ?_⟩
    · have back : (state.base selector + offset.setWidth 32 -
          state.selectors (selectorSlot selector)).setWidth 16 = offset := by
        unfold DebugSharedState.base
        bv_omega
      rw [ldtLinearToSelector_eq, first, Option.map_some, back]
    · have based : state.base (BitVec.ofNat 16 (selectorSlot selector) <<< 3 ||| 0x04 ||| 0x03) =
          state.base selector := congrArg state.selectors made.1
      rw [ldtSelectorToLinear_ldt _ _ made.2, based, if_neg fun free => used free.1]

/-- A table of the loader with one segment, at the tile of its slot. -/
def oneTile (i : Nat) : Nat := if i = 2 then 0x20000 else 0

/-- The table of one segment as it is shared. -/
def sharedTile : DebugSharedState :=
  fillDebugState oneTile [] []
    { selectors := fun _ => 0, is32bit := fun _ => 0, isCode := fun _ => 0, limit := fun _ => 0,
      neSegment := fun _ => 0 }

/-- The table of one segment is one as the loader shares it. -/
theorem sharedTile_shared : SharedTable sharedTile := by
  apply LdtTiled.shared
  apply ldtTiled_of_own
  intro i
  unfold oneTile
  split
  · exact .inr (by omega)
  · exact .inl rfl

/-- The base of the one segment. -/
theorem sharedTile_base : sharedTile.base 0x17 = 0x20000 := rfl

/-- The last offset but one of a segment is found again. -/
theorem offset_found_again : FoundAgain sharedTile 0x17 0xFFFE :=
  (selector_found_again_iff sharedTile_shared (by decide) (by rw [sharedTile_base]; decide)
    0xFFFE).mpr (by decide)

/-- The last offset of a segment is not found by its linear address. -/
theorem last_offset_missed :
    SharedTable sharedTile ∧ sharedTile.base 0x17 ≠ 0 ∧ ¬ FoundAgain sharedTile 0x17 0xFFFF := by
  have used : sharedTile.base 0x17 ≠ 0 := by
    rw [sharedTile_base]
    decide
  refine ⟨sharedTile_shared, used, fun again => ?_⟩
  exact sharedTile_shared.not_last (by decide) used again rfl

/-! Both conversions to linear addresses -/

/--
The conversions give the same address for an allocated selector of the LDT, both say that there is
none for one that is not allocated, and neither gives an address where the other one says so.
-/
structure ConversionsAgree (state : DebugSharedState) (selector offset : BitVec 16) : Prop where
  allocated : selector &&& 0x4 ≠ 0 → state.base selector ≠ 0 →
    linearAddressFromSelectors (some state) selector offset =
      ldtSelectorToLinear (some state) selector offset
  unallocated : selector &&& 0x4 ≠ 0 → state.base selector = 0 →
    linearAddressFromSelectors (some state) selector offset = 0 ∧
      ldtSelectorToLinear (some state) selector offset = 0xFFFFFFFF
  rejected : linearAddressFromSelectors (some state) selector offset = 0 ↔
    ldtSelectorToLinear (some state) selector offset = 0xFFFFFFFF

/--
Where the conversions can agree: an allocated selector of the LDT at neither of the addresses that
stand for none, one that is not allocated at the offset zero and not in slot zero, and a selector of
another table whose number is not that of an LDT slot with such an address.
-/
def AgreeingSelector (state : DebugSharedState) (selector offset : BitVec 16) : Prop :=
  if selector &&& 0x4 ≠ 0 then
    if state.base selector ≠ 0 then
      state.base selector + offset.setWidth 32 ≠ 0 ∧
        state.base selector + offset.setWidth 32 ≠ 0xFFFFFFFF
    else selectorSlot selector ≠ 0 ∧ offset = 0
  else state.base selector + offset.setWidth 32 ≠ 0

/-- Exactly there the two conversions to linear addresses agree. -/
theorem conversions_agree_iff (state : DebugSharedState) (selector offset : BitVec 16) :
    ConversionsAgree state selector offset ↔ AgreeingSelector state selector offset := by
  have old := linearAddressFromSelectors_eq state selector offset
  unfold AgreeingSelector
  by_cases local_table : selector &&& 0x4 ≠ 0
  · have new := ldtSelectorToLinear_ldt state offset local_table
    rw [if_pos local_table]
    by_cases used : state.base selector ≠ 0
    · -- Both give the base and the offset, and take another sum for none.
      rw [if_neg fun free => used free.1] at new
      rw [if_pos used]
      constructor
      · intro agree
        have rejected := agree.rejected
        rw [old, new] at rejected
        constructor
        · intro zero
          have last := rejected.mp zero
          rw [zero] at last
          exact absurd last (by decide)
        · intro last
          have zero := rejected.mpr last
          rw [last] at zero
          exact absurd zero (by decide)
      · intro sum
        refine ⟨fun _ _ => old.trans new.symm, fun _ free => absurd free used, ?_⟩
        rw [old, new]
        exact iff_of_false sum.1 sum.2
    · -- Nothing is in the slot, and the older conversion gives the offset.
      rw [if_neg used]
      have free : state.base selector = 0 := not_not.mp used
      have sum : state.base selector + offset.setWidth 32 = offset.setWidth 32 := by
        rw [free]
        exact BitVec.zero_add _
      rw [sum] at old
      constructor
      · intro agree
        obtain ⟨none_old, none_new⟩ := agree.unallocated local_table free
        constructor
        · intro first
          rw [new, if_neg fun both => both.2 first, sum] at none_new
          have short := offset.isLt
          bv_omega
        · rw [old] at none_old
          bv_omega
      · intro first
        obtain ⟨slot, zero⟩ := first
        rw [if_pos ⟨free, slot⟩] at new
        have none_old : linearAddressFromSelectors (some state) selector offset = 0 := by
          rw [old, zero]
          rfl
        exact ⟨fun _ other => absurd free other, fun _ _ => ⟨none_old, new⟩,
          iff_of_true none_old new⟩
  · rw [if_neg local_table]
    have new := ldtSelectorToLinear_gdt state offset (not_not.mp local_table)
    -- The newer conversion always gives an address for such a selector.
    constructor
    · intro agree zero
      exact new (agree.rejected.mp (old.trans zero))
    · intro sum
      refine ⟨fun this => absurd this local_table, fun this => absurd this local_table, ?_⟩
      rw [old]
      exact iff_of_false sum new

/-- The older conversion gives an address for a slot that was never filled. -/
theorem free_slot_converted :
    linearAddressFromSelectors (some sharedTile) 0x1F 0x1234 = 0x1234 ∧
      ldtSelectorToLinear (some sharedTile) 0x1F 0x1234 = 0xFFFFFFFF ∧
      ¬ ConversionsAgree sharedTile 0x1F 0x1234 := by
  have old : linearAddressFromSelectors (some sharedTile) 0x1F 0x1234 = 0x1234 := rfl
  refine ⟨old, rfl, fun agree => ?_⟩
  have none_old := (agree.unallocated (by decide) rfl).1
  rw [old] at none_old
  exact absurd none_old (by decide)

end TwoIne
