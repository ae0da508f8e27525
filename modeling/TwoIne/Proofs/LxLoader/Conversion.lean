import TwoIne.Proofs.LxLoader.Ldt

/-!
A 16:16 address converts back to the linear address it was made from, except in the lowest 64K.
-/

namespace TwoIne

/-- Every entry of the table is a 64K aligned 32-bit address. -/
def LdtAligned (ldt : Nat → Nat) : Prop :=
  ∀ i, i < lxMaxLdtSlots → ldt i % 0x10000 = 0 ∧ ldt i < 2 ^ 32

/-- The slots of consecutive tiles, as a stack that is taken down frees them. -/
def tileSlots : Nat → Nat → List Nat
  | 0, _ => []
  | tiles + 1, addr => (addr >>> 16) % 2 ^ 16 :: tileSlots tiles ((addr + 0x10000) % 2 ^ 32)

/-- The slots a call frees. -/
def freedSlots : LdtCall → List Nat
  | .free _ selector => [selector]
  | .stack _ addr stacklen true => tileSlots (stackTileCount addr stacklen) (addr - addr % 0x10000)
  | _ => []

/-- The addresses of a call are 32-bit addresses. -/
def LdtArgs (s : LdtState) : LdtCall → Prop
  | .find _ _ addr _ => addr < 2 ^ 32
  | .alloc _ _ _ _ => s.baseaddr < 2 ^ 32
  | .free _ _ => True
  | .stack _ addr stacklen _ => addr < 2 ^ 32 ∧ stacklen < 2 ^ 32

/-- A call with 32-bit addresses that does not free the given slot. -/
def LdtHolds (slot : Nat) (s : LdtState) (call : LdtCall) : Prop :=
  LdtArgs s call ∧ slot ∉ freedSlots call

/-- Entering an aligned address keeps the table aligned. -/
theorem LdtAligned.install {s : LdtState} (aligned : LdtAligned s.ldt) {slot addr : Nat}
    {entry : UserDesc} (whole : addr % 0x10000 = 0) (bounded : addr < 2 ^ 32) :
    LdtAligned (s.install slot addr entry).ldt := by
  -- The slot that is filled has the new entry, and the others keep theirs.
  intro i inside
  show Function.update s.ldt slot addr i % 0x10000 = 0 ∧ Function.update s.ldt slot addr i < 2 ^ 32
  rcases eq_or_ne i slot with rfl | other
  · rw [Function.update_self]
    exact ⟨whole, bounded⟩
  · rw [Function.update_of_ne other]
    exact aligned i inside

/-- Clearing a slot keeps the table aligned. -/
theorem LdtAligned.clear {s : LdtState} (aligned : LdtAligned s.ldt) (slot : Nat) :
    LdtAligned (s.clear slot).ldt := by
  -- Zero is aligned, and the other slots keep their entries.
  intro i inside
  show Function.update s.ldt slot 0 i % 0x10000 = 0 ∧ Function.update s.ldt slot 0 i < 2 ^ 32
  rcases eq_or_ne i slot with rfl | other
  · rw [Function.update_self]
    omega
  · rw [Function.update_of_ne other]
    exact aligned i inside

/-- A lookup keeps the table aligned. -/
theorem LdtAligned.lookup {s t : LdtState} {addr : Nat} {out : Option (Nat × Nat)}
    (aligned : LdtAligned s.ldt) (bounded : addr < 2 ^ 32) (does : LookupDoes s addr t out) :
    LdtAligned t.ldt := by
  -- The only entry a lookup can make is the start of a tile.
  cases does with
  | refused => exact aligned
  | hit _ _ _ => exact aligned
  | entered _ _ _ _ _ =>
    apply aligned.install
    · unfold tileBase
      omega
    · unfold tileBase
      omega

/-- Allocating a slot leaves the state alone or fills a slot that was free. -/
theorem allocateSelector_does {modifyLdt : Nat → Bool} {selector pages addr : Nat}
    {contents : LdtContents} {is32bit : Bool} {s t : LdtState} {worked : Bool}
    (allocated : allocateSelector modifyLdt selector pages addr contents is32bit s =
      some (t, worked)) :
    t = s ∨ s.ldt selector = 0 ∧ ∃ entry, t = s.install selector addr entry := by
  -- The slot may be taken, and the kernel may refuse the entry.
  unfold allocateSelector at allocated
  split at allocated
  · cases allocated
  · split at allocated
    · cases allocated
      exact .inl rfl
    · rename_i free
      split at allocated
      · cases allocated
        exact .inl rfl
      · cases allocated
        exact .inr ⟨not_not.mp free, _, rfl⟩

/--
Tiling or untiling a stack keeps the table aligned, and keeps every taken slot it does not free.
-/
theorem tileStack_keeps {modifyLdt : Nat → Bool} {deinit : Bool} {tiles addr : Nat}
    {s t : LdtState} (whole : addr % 0x10000 = 0) (bounded : addr < 2 ^ 32)
    (aligned : LdtAligned s.ldt) (tiled : tileStack modifyLdt deinit tiles addr s = some t) :
    LdtAligned t.ldt ∧ ∀ slot, (deinit = true → slot ∉ tileSlots tiles addr) → s.ldt slot ≠ 0 →
      t.ldt slot = s.ldt slot := by
  -- The induction follows the tiles, and each of them touches one slot.
  induction tiles generalizing addr s with
  | zero =>
    unfold tileStack at tiled
    cases tiled
    exact ⟨aligned, fun _ _ _ => rfl⟩
  | succ tiles ih =>
    -- Whatever this tile does to its slot, the later tiles follow.
    have after : ∀ u : LdtState, LdtAligned u.ldt →
        tileStack modifyLdt deinit tiles ((addr + 0x10000) % 2 ^ 32) u = some t →
        LdtAligned t.ldt ∧ ∀ slot,
          (deinit = true → slot ∉ tileSlots tiles ((addr + 0x10000) % 2 ^ 32)) → u.ldt slot ≠ 0 →
            t.ldt slot = u.ldt slot :=
      fun u aligned' tiled' => ih (by omega) (by omega) aligned' tiled'
    unfold tileStack at tiled
    dsimp only at tiled
    cases deinit with
    | true =>
      rw [if_pos rfl] at tiled
      -- Taking the stack down frees the slot of this tile, which is not the slot asked about.
      cases freed : lxFreeSelector modifyLdt ((addr >>> 16) % 2 ^ 16) s with
      | none =>
        rw [freed] at tiled
        cases tiled
      | some u =>
        rw [freed] at tiled
        rcases lxFreeSelector_does freed with rfl | rfl
        · obtain ⟨aligned', kept⟩ := after u aligned tiled
          refine ⟨aligned', fun slot untouched used => kept slot (fun ends => ?_) used⟩
          exact fun member => untouched ends (List.mem_cons_of_mem _ member)
        · obtain ⟨aligned', kept⟩ := after _ (aligned.clear _) tiled
          refine ⟨aligned', fun slot untouched used => ?_⟩
          have outside := untouched rfl
          have apart : slot ≠ (addr >>> 16) % 2 ^ 16 := fun same =>
            outside (same ▸ List.mem_cons_self)
          have same : (s.clear ((addr >>> 16) % 2 ^ 16)).ldt slot = s.ldt slot :=
            Function.update_of_ne apart ..
          rw [kept slot (fun _ member => outside (List.mem_cons_of_mem _ member))
            (same ▸ used), same]
    | false =>
      rw [if_neg Bool.false_ne_true] at tiled
      -- Tiling fills the slot of this tile only when it was free.
      cases allocated : allocateSelector modifyLdt
        ((addr >>> 16) % 2 ^ 16) 16 addr .data false s with
      | none =>
        rw [allocated] at tiled
        cases tiled
      | some made =>
        obtain ⟨u, worked⟩ := made
        rw [allocated] at tiled
        rcases allocateSelector_does allocated with rfl | ⟨free, entry, rfl⟩
        · obtain ⟨aligned', kept⟩ := after u aligned tiled
          exact ⟨aligned', fun slot _ used => kept slot (fun ends => by cases ends) used⟩
        · obtain ⟨aligned', kept⟩ := after _ (aligned.install whole bounded) tiled
          refine ⟨aligned', fun slot _ used => ?_⟩
          have apart : slot ≠ (addr >>> 16) % 2 ^ 16 := fun same => used (same ▸ free)
          have same : (s.install ((addr >>> 16) % 2 ^ 16) addr entry).ldt slot = s.ldt slot :=
            Function.update_of_ne apart ..
          rw [kept slot (fun ends => by cases ends) (same ▸ used), same]

/-- Every call with 32-bit addresses keeps the table aligned. -/
theorem LdtAligned.step {s t : LdtState} {call : LdtCall} {out : Option (Nat × Nat)}
    (aligned : LdtAligned s.ldt) (args : LdtArgs s call)
    (stepped : ldtStep s call = some (t, out)) :
    LdtAligned t.ldt := by
  cases call with
  | find loadedModules modifyLdt addr iscode =>
    obtain ⟨u, found, looked, does⟩ := lxFindSelector_does loadedModules modifyLdt addr iscode s
    rw [ldtStep, looked] at stepped
    cases stepped
    exact aligned.lookup args does
  | alloc loadedModules modifyLdt mapped iscode =>
    obtain ⟨⟨u, found⟩, allocated, same⟩ := Option.map_eq_some_iff.mp stepped
    cases same
    rcases lxAllocSegment_does allocated with rfl | ⟨_, does⟩
    · exact aligned
    · exact LdtAligned.lookup (s := { s with baseaddr := s.baseaddr + 0x10000 }) aligned args does
  | free modifyLdt selector =>
    obtain ⟨u, freed, same⟩ := Option.map_eq_some_iff.mp stepped
    cases same
    rcases lxFreeSelector_does freed with rfl | rfl
    · exact aligned
    · exact aligned.clear selector
  | stack modifyLdt addr stacklen deinit =>
    -- The first tile of a stack starts at a whole tile.
    obtain ⟨u, tiled, same⟩ := Option.map_eq_some_iff.mp stepped
    cases same
    have bounded := args.1
    exact (tileStack_keeps (by omega) (by omega) aligned tiled).1

/-- A call that does not free a taken slot leaves the slot as it was. -/
theorem ldtStep_holds {s t : LdtState} {call : LdtCall} {out : Option (Nat × Nat)} {slot : Nat}
    (aligned : LdtAligned s.ldt) (holds : LdtHolds slot s call)
    (stepped : ldtStep s call = some (t, out)) (used : s.ldt slot ≠ 0) :
      t.ldt slot = s.ldt slot := by
  -- A lookup only fills free slots, and the slot is not among those that are freed.
  obtain ⟨args, untouched⟩ := holds
  cases call with
  | find loadedModules modifyLdt addr iscode =>
    obtain ⟨u, found, looked, does⟩ := lxFindSelector_does loadedModules modifyLdt addr iscode s
    rw [ldtStep, looked] at stepped
    cases stepped
    exact does.kept used
  | alloc loadedModules modifyLdt mapped iscode =>
    obtain ⟨⟨u, found⟩, allocated, same⟩ := Option.map_eq_some_iff.mp stepped
    cases same
    rcases lxAllocSegment_does allocated with rfl | ⟨_, does⟩
    · rfl
    · exact does.kept used
  | free modifyLdt selector =>
    obtain ⟨u, freed, same⟩ := Option.map_eq_some_iff.mp stepped
    cases same
    rcases lxFreeSelector_does freed with rfl | rfl
    · rfl
    · have apart : slot ≠ selector := fun same => untouched (same ▸ List.mem_singleton_self _)
      exact Function.update_of_ne apart ..
  | stack modifyLdt addr stacklen deinit =>
    obtain ⟨u, tiled, same⟩ := Option.map_eq_some_iff.mp stepped
    cases same
    have bounded := args.1
    refine (tileStack_keeps (by omega) (by omega) aligned tiled).2 slot (fun ends => ?_) used
    cases ends
    exact untouched

/-- The segment and offset of a 16:16 address do not overlap. -/
theorem segment_offset {slot offset : Nat} (inside : slot < lxMaxLdtSlots)
    (small : offset < 0x10000) :
    lxSelectorToSegment slot <<< 16 ||| offset = (slot * 8 + 7) * 0x10000 + offset := by
  -- The segment is the slot with three bits below it that are always set.
  unfold lxMaxLdtSlots at inside
  have segment : slot <<< 3 ||| 7 = slot * 8 + 7 := by
    rw [← Nat.shiftLeft_add_eq_or_of_lt (by decide), Nat.shiftLeft_eq]
  unfold lxSelectorToSegment
  rw [segment, Nat.mod_eq_of_lt (by omega), ← Nat.shiftLeft_add_eq_or_of_lt small, Nat.shiftLeft_eq]

/-- Converting back reads the slot that the address names. -/
theorem lxConvert1616to32_of {s : LdtState} {slot offset : Nat} (inside : slot < lxMaxLdtSlots)
    (small : offset < 0x10000) :
    lxConvert1616to32 s (lxSelectorToSegment slot <<< 16 ||| offset) =
      if s.ldt slot = 0 then none else some ((s.ldt slot + offset) % 2 ^ 32) := by
  -- Shifting the segment down drops its three low bits and leaves the slot.
  rw [segment_offset inside small]
  unfold lxMaxLdtSlots at inside
  have selector : ((slot * 8 + 7) * 0x10000 + offset) >>> 19 % 2 ^ 16 = slot := by
    rw [Nat.shiftRight_eq_div_pow]
    omega
  have offset_back : ((slot * 8 + 7) * 0x10000 + offset) % 0x10000 = offset := by omega
  unfold lxConvert1616to32
  rw [if_neg (by omega)]
  simp only [selector, offset_back]

/-- A conversion that gives an address has a slot whose entry is the tile of the address. -/
theorem lxConvert32to1616_slot {loadedModules : List (List LxMmaps)} {modifyLdt : Nat → Bool}
    {addr x : Nat} {s t : LdtState} (aligned : LdtAligned s.ldt) (bounded : addr < 2 ^ 32)
    (converted : lxConvert32to1616 loadedModules modifyLdt addr s = some (t, x)) (nonzero : x ≠ 0) :
    LdtAligned t.ldt ∧ ∃ slot, slot < lxMaxLdtSlots ∧ t.ldt slot = tileBase addr ∧
      x = lxSelectorToSegment slot <<< 16 ||| addr % 0x10000 := by
  unfold lxConvert32to1616 at converted
  split at converted
  · cases converted
    exact absurd rfl nonzero
  · -- The conversion is a lookup, whose answer is put together.
    obtain ⟨u, found, looked, does⟩ := lxFindSelector_does loadedModules modifyLdt addr none s
    rw [looked] at converted
    have aligned' := aligned.lookup bounded does
    cases found with
    | none =>
      cases converted
      exact absurd rfl nonzero
    | some pair =>
      obtain ⟨slot, offset⟩ := pair
      cases converted
      refine ⟨aligned', ?_⟩
      cases does with
      | hit inside _ holds =>
        -- The entry is aligned, so the offset into it is the offset into the tile.
        obtain ⟨whole, fits⟩ := aligned slot inside
        have based := tileBase_of_holds whole fits holds
        refine ⟨slot, inside, based, ?_⟩
        congr 1
        rw [based]
        unfold tileBase
        omega
      | entered _ inside _ _ _ => exact ⟨slot, inside, Function.update_self .., rfl⟩

/-- The slot a 16:16 address names. -/
def slotOf (x : Nat) : Nat := x >>> 19

/-- The slot of an address that was made from a slot is that slot. -/
theorem slotOf_segment {slot offset : Nat} (inside : slot < lxMaxLdtSlots)
    (small : offset < 0x10000) :
    slotOf (lxSelectorToSegment slot <<< 16 ||| offset) = slot := by
  rw [slotOf, segment_offset inside small, Nat.shiftRight_eq_div_pow]
  omega

/-- The table of a loader that has run any calls with 32-bit addresses is aligned. -/
theorem ldtAligned_reached {s : LdtState} (reached : Runs.Reaches ldtStep LdtArgs {} s) :
    LdtAligned s.ldt :=
  reached.invariant (fun u => LdtAligned u.ldt) (fun _ _ => ⟨rfl, Nat.two_pow_pos 32⟩)
    fun _ _ _ _ aligned args stepped => aligned.step args stepped

/--
A conversion converts back, until its slot is freed, exactly when the address is not in the lowest
64K.

The entry of a slot for the lowest tile is zero, and so the slot still counts as free.
-/
theorem conversion_round_trip_iff {loadedModules : List (List LxMmaps)} {modifyLdt : Nat → Bool}
    {addr x : Nat} {s t : LdtState} (reached : Runs.Reaches ldtStep LdtArgs {} s)
    (accepted : 4096 ≤ addr) (bounded : addr < 2 ^ 32)
    (converted : lxConvert32to1616 loadedModules modifyLdt addr s = some (t, x)) (nonzero : x ≠ 0) :
    (∀ u, Runs.Reaches ldtStep (LdtHolds (slotOf x)) t u → lxConvert1616to32 u x = some addr) ↔
      0x10000 ≤ addr := by
  have aligned := ldtAligned_reached reached
  obtain ⟨aligned_t, slot, inside, based, named⟩ :=
    lxConvert32to1616_slot aligned bounded converted nonzero
  have small : addr % 0x10000 < 0x10000 := Nat.mod_lt _ (by decide)
  have names : slotOf x = slot := by rw [named, slotOf_segment inside small]
  -- Whatever happens later, converting back only reads the slot.
  have reads : ∀ u : LdtState, lxConvert1616to32 u x =
      if u.ldt slot = 0 then none else some ((u.ldt slot + addr % 0x10000) % 2 ^ 32) := by
    intro u
    rw [named, lxConvert1616to32_of inside small]
  rw [names]
  constructor
  · -- Converting back at once already needs an entry that is not zero.
    intro back
    have now := back t .here
    rw [reads, based] at now
    split at now
    · cases now
    · rename_i taken
      unfold tileBase at taken
      omega
  · intro high u later
    -- Until the slot is freed its entry stays the tile of the address.
    have stays := later.invariant (fun v => LdtAligned v.ldt ∧ v.ldt slot = tileBase addr)
      ⟨aligned_t, based⟩ (by
        intro v call w out ⟨aligned_v, based_v⟩ holds stepped
        have used : v.ldt slot ≠ 0 := by rw [based_v]; unfold tileBase; omega
        exact ⟨aligned_v.step holds.1 stepped,
          (ldtStep_holds aligned_v holds stepped used).trans based_v⟩)
    rw [reads, stays.2]
    unfold tileBase
    rw [if_neg (by omega)]
    congr 1
    omega

/-- A scan of an empty table finds nothing. -/
theorem scanSlots_empty (addr left i : Nat) (available : Option Nat) :
    ∃ last, scanSlots (fun _ => 0) addr left i available = .missing last ∧
      (left ≠ 0 → last.isSome) ∧ (left = 0 → last = available) := by
  -- Every slot is free, so the last one passed is the one that is offered.
  induction left generalizing i available with
  | zero => exact ⟨available, rfl, fun absurd => (absurd rfl).elim, fun _ => rfl⟩
  | succ left ih =>
    obtain ⟨last, scanned, some_left, none_left⟩ := ih (i + 1) (some i)
    refine ⟨last, by simpa [scanSlots] using scanned, fun _ => ?_, by simp⟩
    rcases Nat.eq_zero_or_pos left with rfl | more
    · rw [none_left rfl]
      rfl
    · exact some_left (by omega)

/-- The first conversion of a loader enters the tile of the address into the slot of its number. -/
theorem lxConvert32to1616_empty (addr : Nat) (accepted : 4096 ≤ addr)
    (below : addr < 1024 * 1024 * 512) :
    ∃ t, lxConvert32to1616 [] (fun _ => true) addr {} =
        some (t, lxSelectorToSegment (addr >>> 16) <<< 16 ||| addr % 0x10000) := by
  obtain ⟨last, scanned, offered, _⟩ :=
    scanSlots_empty addr lxMaxLdtSlots 0 (preferredSlot (fun _ => 0) addr)
  obtain ⟨available, rfl⟩ := Option.isSome_iff_exists.mp (offered (by decide))
  -- No slot holds anything, so the slot of the tile is the preferred one.
  have nothing : tiledSlot (fun _ => 0) addr = none := by simp [tiledSlot]
  have preferred : preferredSlot (fun _ => 0) addr = some (addr >>> 16) := by
    simp [preferredSlot, tiledIndex, below]
  have inside : addr >>> 16 < lxMaxLdtSlots := by
    rw [Nat.shiftRight_eq_div_pow]
    unfold lxMaxLdtSlots
    omega
  unfold lxConvert32to1616 lxFindSelector
  rw [if_neg (by omega), if_neg (by omega)]
  dsimp only
  rw [nothing]
  dsimp only
  rw [scanned, preferred]
  simp [allocateSelector, inside]

/--
The first conversion of an address above the lowest 64K converts back for as long as its slot is
kept.
-/
theorem conversion_round_trip_first_tile :
    ∃ t, lxConvert32to1616 [] (fun _ => true) 0x12345 {} = some (t, 0x000F2345) ∧
      ∀ u, Runs.Reaches ldtStep (LdtHolds (slotOf 0x000F2345)) t u →
        lxConvert1616to32 u 0x000F2345 = some 0x12345 := by
  obtain ⟨t, converted⟩ := lxConvert32to1616_empty 0x12345 (by decide) (by decide)
  exact ⟨t, converted,
    (conversion_round_trip_iff .here (by decide) (by decide) converted (by decide)).mpr (by decide)⟩

/--
The first conversion of an address in the second page names slot zero, which still counts as free.
-/
theorem conversion_trips_in_low_tile :
    ¬ ∀ s t addr x, Runs.Reaches ldtStep LdtArgs {} s → 4096 ≤ addr → addr < 2 ^ 32 →
      lxConvert32to1616 [] (fun _ => true) addr s = some (t, x) → x ≠ 0 →
        lxConvert1616to32 t x = some addr := by
  intro back
  -- The address is accepted, and gets the slot of its tile.
  obtain ⟨t, converted⟩ := lxConvert32to1616_empty 0x1000 (by decide) (by decide)
  have claimed := back {} t 0x1000 0x00071000 .here (by decide) (by decide) converted (by decide)
  -- The entry of slot zero is the base of the lowest tile, which is zero.
  obtain ⟨_, slot, inside, based, named⟩ :=
    lxConvert32to1616_slot (ldtAligned_reached .here) (by decide) converted (by decide)
  have named : 0x00071000 = lxSelectorToSegment slot <<< 16 ||| 0x1000 % 0x10000 := named
  rw [named, lxConvert1616to32_of inside (by decide), based] at claimed
  cases claimed

end TwoIne
