import TwoIne.LxLoader.Ldt

/-! Every slot of the selector table holds its own 64K tile, and 16:16 addresses convert back. -/

namespace TwoIne

/-- The start of the 64K tile an address lies in. -/
def tileBase (addr : Nat) : Nat := addr - addr % 0x10000

/-- A 64K aligned tile that holds an address is the tile the address lies in. -/
theorem tileBase_of_holds {tile addr : Nat} (aligned : tile % 0x10000 = 0) (small : tile < 2 ^ 32)
    (holds : tileHolds tile addr = true) : tile = tileBase addr := by
  -- The end of the topmost tile wraps to zero, so that tile holds nothing.
  simp only [tileHolds, Bool.and_eq_true, decide_eq_true_eq] at holds
  unfold tileBase
  omega

/-- Below the topmost tile, a tile holds each address that lies in it. -/
theorem holds_tileBase {addr : Nat} (below : addr < 0xFFFF0000) :
    tileHolds (tileBase addr) addr = true := by
  -- The tile does not reach the end of the 32-bit addresses, so its own end does not wrap.
  unfold tileHolds tileBase
  rw [Bool.and_eq_true, decide_eq_true_eq, decide_eq_true_eq]
  omega

/-- A slot the scan reports is taken and holds the address. -/
theorem scanSlots_found {ldt : Nat → Nat} {addr left i j : Nat} {available : Option Nat}
    (scanned : scanSlots ldt addr left i available = .found j) :
    i ≤ j ∧ j < i + left ∧ ldt j ≠ 0 ∧ tileHolds (ldt j) addr = true := by
  -- The scan either reports the slot it is at or goes on to the next one.
  induction left generalizing i available with
  | zero => simp [scanSlots] at scanned
  | succ left ih =>
    unfold scanSlots at scanned
    split at scanned
    · -- A free slot is passed.
      obtain ⟨after, before, found⟩ := ih scanned
      exact ⟨by omega, by omega, found⟩
    · rename_i used
      split at scanned
      · -- The slot at hand holds the address.
        rename_i holds
        cases scanned
        exact ⟨Nat.le_refl j, by omega, used, holds⟩
      · obtain ⟨after, before, found⟩ := ih scanned
        exact ⟨by omega, by omega, found⟩

/-- A scan that reports nothing passed no slot that holds the address, and offers a free slot. -/
theorem scanSlots_missing {ldt : Nat → Nat} {addr left i : Nat} {available last : Option Nat}
    (scanned : scanSlots ldt addr left i available = .missing last) :
    (∀ j, i ≤ j → j < i + left → ldt j ≠ 0 → tileHolds (ldt j) addr = false) ∧
      ∀ k, last = some k → available = some k ∨ k < i + left ∧ ldt k = 0 := by
  -- The slots from `i` on are passed one by one, and the last free one is remembered.
  induction left generalizing i available with
  | zero =>
    unfold scanSlots at scanned
    cases scanned
    exact ⟨fun j after before => by omega, fun k offered => .inl offered⟩
  | succ left ih =>
    unfold scanSlots at scanned
    split at scanned
    · -- A free slot is remembered.
      rename_i empty
      obtain ⟨passed, offers⟩ := ih scanned
      refine ⟨fun j after before used => ?_, fun k offered => ?_⟩
      · -- What was said of the later slots holds of this one as well.
        rcases Nat.eq_or_lt_of_le after with rfl | later
        · exact absurd empty used
        · exact passed j later (by omega) used
      · rcases offers k offered with same | ⟨before, free⟩
        · cases same
          exact .inr ⟨by omega, empty⟩
        · exact .inr ⟨by omega, free⟩
    · split at scanned
      · cases scanned
      · -- A taken slot that does not hold the address is passed.
        rename_i misses
        obtain ⟨passed, offers⟩ := ih scanned
        refine ⟨fun j after before used => ?_, fun k offered => ?_⟩
        · rcases Nat.eq_or_lt_of_le after with rfl | later
          · exact Bool.eq_false_iff.mpr misses
          · exact passed j later (by omega) used
        · rcases offers k offered with same | ⟨before, free⟩
          · exact .inl same
          · exact .inr ⟨by omega, free⟩

/--
A scan that reports nothing offers the last free slot it passed, or what it was given when it passed
none.
-/
theorem scanSlots_last {ldt : Nat → Nat} {addr left i : Nat} {available last : Option Nat}
    (scanned : scanSlots ldt addr left i available = .missing last) :
    (last = available ∧ ∀ j, i ≤ j → j < i + left → ldt j ≠ 0) ∨
      ∃ k, last = some k ∧ k < i + left ∧ ldt k = 0 ∧
        ∀ j, k < j → j < i + left → ldt j ≠ 0 := by
  -- Each free slot replaces the one remembered so far.
  induction left generalizing i available with
  | zero =>
    unfold scanSlots at scanned
    cases scanned
    exact .inl ⟨rfl, fun j after before => by omega⟩
  | succ left ih =>
    unfold scanSlots at scanned
    split at scanned
    · rename_i empty
      rcases ih scanned with ⟨same, taken⟩ | ⟨k, offered, before, free, taken⟩
      · -- No free slot follows this one.
        exact .inr ⟨i, same, by omega, empty, fun j after before => taken j after (by omega)⟩
      · exact .inr ⟨k, offered, by omega, free, fun j after before => taken j after (by omega)⟩
    · rename_i used
      split at scanned
      · cases scanned
      · rcases ih scanned with ⟨same, taken⟩ | ⟨k, offered, before, free, taken⟩
        · -- No slot was free so far, and this one is not free either.
          refine .inl ⟨same, fun j after before => ?_⟩
          rcases Nat.eq_or_lt_of_le after with rfl | later
          · exact used
          · exact taken j later (by omega)
        · exact .inr ⟨k, offered, by omega, free, fun j after before => taken j after (by omega)⟩

/-- All a lookup can do: give up, find the slot of the tile, or enter the tile into a free slot. -/
inductive LookupDoes (s : LdtState) (addr : Nat) : LdtState → Option (Nat × Nat) → Prop
  | refused : LookupDoes s addr s none
  | hit {slot : Nat} (inside : slot < lxMaxLdtSlots) (used : s.ldt slot ≠ 0)
      (holds : tileHolds (s.ldt slot) addr = true) :
      LookupDoes s addr s (some (slotOffset s.ldt slot addr))
  | entered {slot : Nat} {entry : UserDesc} (accepted : 4096 ≤ addr) (inside : slot < lxMaxLdtSlots)
      (free : s.ldt slot = 0) (based : entry.baseAddr = tileBase addr)
      (missing : ∀ j, j < lxMaxLdtSlots → s.ldt j ≠ 0 → tileHolds (s.ldt j) addr = false) :
      LookupDoes s addr (s.install slot (tileBase addr) entry) (some (slot, addr % 0x10000))

/-- The tile of an address below 512 megabytes has a slot. -/
theorem tiledIndex_lt {addr idx : Nat} (tiled : tiledIndex addr = some idx) :
    idx < lxMaxLdtSlots ∧ idx = addr / 0x10000 := by
  -- Five hundred and twelve megabytes have as many tiles as the table has slots.
  simp only [tiledIndex, Nat.shiftRight_eq_div_pow] at tiled
  split at tiled
  · cases tiled
    unfold lxMaxLdtSlots
    omega
  · cases tiled

/-- Allocating a slot inside the table trips no assertion. -/
theorem allocateSelector_free (modifyLdt : Nat → Bool) {selector : Nat} (pages addr : Nat)
    (contents : LdtContents) (is32bit : Bool) {s : LdtState} (inside : selector < lxMaxLdtSlots)
    (free : s.ldt selector = 0) :
    allocateSelector modifyLdt selector pages addr contents is32bit s = some (s, false) ∨
      ∃ entry : UserDesc, entry.baseAddr = addr ∧
        allocateSelector modifyLdt selector pages addr contents is32bit s =
          some (s.install selector addr entry, true) := by
  -- Inside the table and free, only the kernel can refuse the slot.
  unfold allocateSelector
  cases accepted : modifyLdt selector with
  | false => simp [inside, free]
  | true =>
    right
    refine ⟨{ baseAddr := addr, limit := pages, seg32bit := is32bit, contents }, rfl, ?_⟩
    simp [inside, free]

/-- A lookup trips no assertion, and does one of the three things it can do. -/
theorem lxFindSelector_does (loadedModules : List (List LxMmaps)) (modifyLdt : Nat → Bool)
    (addr : Nat) (iscode : Option Bool) (s : LdtState) :
    ∃ t out, lxFindSelector loadedModules modifyLdt addr iscode s = some (t, out) ∧
      LookupDoes s addr t out := by
  unfold lxFindSelector
  split
  · -- The lowest page has no selector.
    exact ⟨s, none, rfl, .refused⟩
  · rename_i accepted
    cases fast : tiledSlot s.ldt addr with
    | some idx =>
      -- The tile of the address is in its own slot.
      obtain ⟨tiled, taken⟩ := Option.filter_eq_some_iff.mp fast
      simp only [ne_eq, Bool.and_eq_true, decide_eq_true_eq] at taken
      exact ⟨s, _, rfl, .hit (tiledIndex_lt tiled).1 taken.1 taken.2⟩
    | none =>
      dsimp only
      cases scanned : scanSlots s.ldt addr lxMaxLdtSlots 0 (preferredSlot s.ldt addr) with
      | found i =>
        -- The scan came across a slot that holds the address.
        obtain ⟨_, inside, used, holds⟩ := scanSlots_found scanned
        exact ⟨s, _, rfl, .hit (by omega) used holds⟩
      | missing last =>
        obtain ⟨passed, offers⟩ := scanSlots_missing scanned
        cases last with
        -- The table is full.
        | none => exact ⟨s, none, rfl, .refused⟩
        | some available =>
          -- The slot to fill is free, whether it is the preferred one or the one the scan offers.
          have preferred_free : ∀ k, preferredSlot s.ldt addr = some k →
              k < lxMaxLdtSlots ∧ s.ldt k = 0 := by
            intro k preferred
            obtain ⟨tiled, free⟩ := Option.filter_eq_some_iff.mp preferred
            exact ⟨(tiledIndex_lt tiled).1, by simpa using free⟩
          have selected : (preferredSlot s.ldt addr).getD available < lxMaxLdtSlots ∧
              s.ldt ((preferredSlot s.ldt addr).getD available) = 0 := by
            cases preferred : preferredSlot s.ldt addr with
            | some k => exact preferred_free k preferred
            | none =>
              rcases offers available rfl with same | ⟨before, free⟩
              · rw [preferred] at same
                cases same
              · exact ⟨by simpa using before, free⟩
          dsimp only
          rcases allocateSelector_free modifyLdt 16 (addr - addr % 0x10000)
              (selectorContents loadedModules addr iscode) false selected.1 selected.2
            with refused | ⟨entry, based, done⟩
          · -- The kernel refused the entry.
            rw [refused]
            exact ⟨s, none, rfl, .refused⟩
          · -- The tile is entered, and no slot the scan passed holds the address.
            rw [done]
            refine ⟨_, _, rfl, .entered (by omega) selected.1 selected.2 based ?_⟩
            exact fun j inside => passed j (Nat.zero_le j) (by omega)

/-- The table holds 64K aligned tiles below the topmost one, each of them in one slot only. -/
structure LdtTiled (ldt : Nat → Nat) : Prop where
  aligned : ∀ i, i < lxMaxLdtSlots → ldt i % 0x10000 = 0
  below : ∀ i, i < lxMaxLdtSlots → ldt i < 0xFFFF0000
  unique : ∀ i j, i < lxMaxLdtSlots → j < lxMaxLdtSlots → ldt i ≠ 0 → ldt i = ldt j → i = j

/-- In a tiled table a slot holds an address exactly when it has the tile of the address. -/
theorem LdtTiled.holds_iff {ldt : Nat → Nat} (tiled : LdtTiled ldt) {i addr : Nat}
    (inside : i < lxMaxLdtSlots) (below : addr < 0xFFFF0000) :
    tileHolds (ldt i) addr = true ↔ ldt i = tileBase addr := by
  constructor
  · -- An aligned tile that holds the address is the tile of the address.
    have small := tiled.below i inside
    exact tileBase_of_holds (tiled.aligned i inside) (by omega)
  · intro same
    rw [same]
    exact holds_tileBase below

/-- A lookup in a tiled table leaves it tiled. -/
theorem LdtTiled.lookup {s t : LdtState} {addr : Nat} {out : Option (Nat × Nat)}
    (tiled : LdtTiled s.ldt) (low : 0x10000 ≤ addr) (below : addr < 0xFFFF0000)
    (does : LookupDoes s addr t out) : LdtTiled t.ldt := by
  cases does with
  | refused => exact tiled
  | hit _ _ _ => exact tiled
  | @entered slot entry _ inside free _ missing =>
    have aligned : tileBase addr % 0x10000 = 0 := by unfold tileBase; omega
    have bounded : tileBase addr < 0xFFFF0000 := by unfold tileBase; omega
    -- No slot that is taken has the new tile already, because then it would hold the address.
    have absent : ∀ j, j < lxMaxLdtSlots → s.ldt j ≠ 0 → s.ldt j ≠ tileBase addr := by
      intro j inside' used same
      have holds := (tiled.holds_iff inside' below).mpr same
      rw [missing j inside' used] at holds
      cases holds
    have nonzero : tileBase addr ≠ 0 := by unfold tileBase; omega
    refine ⟨fun i inside' => ?_, fun i inside' => ?_, fun i j inside_i inside_j used same => ?_⟩
    · -- The new entry starts at a whole tile.
      show Function.update s.ldt slot (tileBase addr) i % 0x10000 = 0
      rcases eq_or_ne i slot with rfl | other
      · rw [Function.update_self, aligned]
      · rw [Function.update_of_ne other, tiled.aligned i inside']
    · -- The new entry lies below the topmost tile.
      show Function.update s.ldt slot (tileBase addr) i < 0xFFFF0000
      rcases eq_or_ne i slot with rfl | other
      · rw [Function.update_self]
        exact bounded
      · rw [Function.update_of_ne other]
        exact tiled.below i inside'
    · -- Two slots with one tile are both old, or one of them would be new and the other hold the
      -- address.
      simp only [LdtState.install] at used same
      rcases eq_or_ne i slot with rfl | other
      · rcases eq_or_ne j i with rfl | other'
        · rfl
        · rw [Function.update_self, Function.update_of_ne other'] at same
          exact absurd same.symm (absent j inside_j (same ▸ nonzero))
      · rw [Function.update_of_ne other] at used same
        rcases eq_or_ne j slot with rfl | other'
        · rw [Function.update_self] at same
          exact absurd same (absent i inside_i used)
        · rw [Function.update_of_ne other'] at same
          exact tiled.unique i j inside_i inside_j used same

/-- Clearing a slot leaves the table tiled. -/
theorem LdtTiled.clear {s : LdtState} (tiled : LdtTiled s.ldt) (slot : Nat) :
    LdtTiled (s.clear slot).ldt := by
  -- A cleared slot holds nothing, and the others are as they were.
  have kept : ∀ i, (s.clear slot).ldt i = 0 ∨ (s.clear slot).ldt i = s.ldt i := by
    intro i
    simp only [LdtState.clear]
    rcases eq_or_ne i slot with rfl | other
    · exact .inl (Function.update_self ..)
    · exact .inr (Function.update_of_ne other ..)
  refine ⟨fun i inside => ?_, fun i inside => ?_, fun i j inside_i inside_j used same => ?_⟩
  · rcases kept i with gone | stays
    · rw [gone]
    · rw [stays, tiled.aligned i inside]
  · rcases kept i with gone | stays
    · rw [gone]
      omega
    · rw [stays]
      exact tiled.below i inside
  · -- Slots that still hold something were not cleared.
    have stays_i := (kept i).resolve_left used
    have stays_j := (kept j).resolve_left (same ▸ used)
    rw [stays_i] at used same
    rw [stays_j] at same
    exact tiled.unique i j inside_i inside_j used same

/-- A call on the selector table, with what the kernel answers. -/
inductive LdtCall where
  | find (loadedModules : List (List LxMmaps)) (modifyLdt : Nat → Bool) (addr : Nat)
      (iscode : Option Bool)
  | alloc (loadedModules : List (List LxMmaps)) (modifyLdt : Nat → Bool) (mapped iscode : Bool)
  | free (modifyLdt : Nat → Bool) (selector : Nat)
  | stack (modifyLdt : Nat → Bool) (addr stacklen : Nat) (deinit : Bool)

/-- One call on the selector table; a lookup answers with a selector and an offset. -/
def ldtStep (s : LdtState) : LdtCall → Option (LdtState × Option (Nat × Nat))
  | .find loadedModules modifyLdt addr iscode =>
    lxFindSelector loadedModules modifyLdt addr iscode s
  | .alloc loadedModules modifyLdt mapped iscode =>
    (lxAllocSegment loadedModules modifyLdt mapped iscode s).map fun out => (out.1, none)
  | .free modifyLdt selector => (lxFreeSelector modifyLdt selector s).map fun t => (t, none)
  | .stack modifyLdt addr stacklen deinit =>
    (initOs2StackSegments modifyLdt addr stacklen deinit s).map fun t => (t, none)

/--
The calls of a program after its stack was tiled: lookups, segments and frees between the two
bounds.
-/
def LdtMay (s : LdtState) : LdtCall → Prop
  | .find _ _ addr _ => 0x10000 ≤ addr ∧ addr < 0xFFFF0000
  | .alloc _ _ _ _ => 0x10000 ≤ s.baseaddr ∧ s.baseaddr < 0xFFFF0000
  | .free _ _ => True
  | .stack _ _ _ _ => False

/-- The calls among them that free nothing. -/
def LdtKeeps (s : LdtState) (call : LdtCall) : Prop :=
  LdtMay s call ∧ ∀ modifyLdt selector, call ≠ .free modifyLdt selector

/-- Freeing a selector leaves the table alone or clears the slot. -/
theorem lxFreeSelector_does {modifyLdt : Nat → Bool} {selector : Nat} {s t : LdtState}
    (freed : lxFreeSelector modifyLdt selector s = some t) : t = s ∨ t = s.clear selector := by
  -- The slot may be free already, and the kernel may refuse to clear it.
  unfold lxFreeSelector at freed
  split at freed
  · cases freed
  · split at freed
    · cases freed
      exact .inl rfl
    · split at freed
      · cases freed
        exact .inl rfl
      · cases freed
        exact .inr rfl

/-- Allocating a segment is a lookup of its address, unless the memory was not granted. -/
theorem lxAllocSegment_does {loadedModules : List (List LxMmaps)} {modifyLdt : Nat → Bool}
    {mapped iscode : Bool} {s t : LdtState} {out : Option (Nat × Nat)}
    (allocated : lxAllocSegment loadedModules modifyLdt mapped iscode s = some (t, out)) :
    t = s ∨ ∃ found, LookupDoes { s with baseaddr := s.baseaddr + 0x10000 } s.baseaddr t found := by
  unfold lxAllocSegment at allocated
  split at allocated
  · -- No memory was granted.
    cases allocated
    exact .inl rfl
  · -- The memory is there, and the lookup of its address follows.
    obtain ⟨u, found, looked, does⟩ := lxFindSelector_does loadedModules modifyLdt s.baseaddr
      (some iscode) { s with baseaddr := s.baseaddr + 0x10000 }
    dsimp only at allocated
    rw [looked] at allocated
    cases found with
    | none => cases allocated
    | some pair =>
      dsimp only at allocated
      split at allocated
      · cases allocated
      · cases allocated
        exact .inr ⟨_, does⟩

/-- Every permitted call leaves the table tiled. -/
theorem LdtTiled.step {s t : LdtState} {call : LdtCall} {out : Option (Nat × Nat)}
    (tiled : LdtTiled s.ldt) (may : LdtMay s call) (stepped : ldtStep s call = some (t, out)) :
    LdtTiled t.ldt := by
  -- Each call either looks an address up or clears a slot.
  cases call with
  | find loadedModules modifyLdt addr iscode =>
    obtain ⟨u, found, looked, does⟩ := lxFindSelector_does loadedModules modifyLdt addr iscode s
    rw [ldtStep, looked] at stepped
    cases stepped
    exact tiled.lookup may.1 may.2 does
  | alloc loadedModules modifyLdt mapped iscode =>
    obtain ⟨⟨u, found⟩, allocated, same⟩ := Option.map_eq_some_iff.mp stepped
    cases same
    rcases lxAllocSegment_does allocated with rfl | ⟨_, does⟩
    · exact tiled
    · exact LdtTiled.lookup (s := { s with baseaddr := s.baseaddr + 0x10000 }) tiled may.1
        may.2 does
  | free modifyLdt selector =>
    obtain ⟨u, freed, same⟩ := Option.map_eq_some_iff.mp stepped
    cases same
    rcases lxFreeSelector_does freed with rfl | rfl
    · exact tiled
    · exact tiled.clear selector
  | stack _ _ _ _ => exact may.elim

/-- A lookup leaves every slot that is taken as it was. -/
theorem LookupDoes.kept {s t : LdtState} {addr slot : Nat} {out : Option (Nat × Nat)}
    (does : LookupDoes s addr t out) (used : s.ldt slot ≠ 0) : t.ldt slot = s.ldt slot := by
  cases does with
  | refused => rfl
  | hit _ _ _ => rfl
  | @entered other _ _ _ free _ _ =>
    -- The slot that was filled was free.
    have apart : slot ≠ other := fun same => used (same ▸ free)
    show Function.update s.ldt other _ slot = s.ldt slot
    exact Function.update_of_ne apart ..

/-- A successful lookup in a tiled table answers with the slot of the tile and the offset in it. -/
theorem LookupDoes.answer {s t : LdtState} {addr slot offset : Nat} (tiled : LdtTiled s.ldt)
    (below : addr < 0xFFFF0000) (does : LookupDoes s addr t (some (slot, offset))) :
    slot < lxMaxLdtSlots ∧ t.ldt slot = tileBase addr ∧ offset = addr % 0x10000 := by
  cases does with
  | hit inside used holds =>
    -- The slot that was found has the tile of the address.
    have based := (tiled.holds_iff inside below).mp holds
    refine ⟨inside, based, ?_⟩
    rw [based]
    unfold tileBase
    omega
  | entered _ inside _ _ _ => exact ⟨inside, Function.update_self .., rfl⟩

/-- A call that frees nothing leaves every slot that is taken as it was. -/
theorem ldtStep_keeps {s t : LdtState} {call : LdtCall} {out : Option (Nat × Nat)} {slot : Nat}
    (keeps : LdtKeeps s call) (stepped : ldtStep s call = some (t, out)) (used : s.ldt slot ≠ 0) :
    t.ldt slot = s.ldt slot := by
  -- The calls that are left are lookups, and a lookup only fills a free slot.
  cases call with
  | find loadedModules modifyLdt addr iscode =>
    obtain ⟨u, found, looked, does⟩ := lxFindSelector_does loadedModules modifyLdt addr iscode s
    rw [ldtStep, looked] at stepped
    cases stepped
    exact does.kept used
  | alloc loadedModules modifyLdt mapped iscode =>
    obtain ⟨⟨u, found⟩, allocated, same⟩ := Option.map_eq_some_iff.mp stepped
    cases same
    rcases lxAllocSegment_does allocated with rfl | ⟨_, does⟩
    · rfl
    · exact does.kept used
  | free modifyLdt selector => exact absurd rfl (keeps.2 modifyLdt selector)
  | stack _ _ _ _ => exact keeps.1.elim

/-- Looking up an address whose tile has a slot finds that slot and changes nothing. -/
theorem lxFindSelector_again {s : LdtState} {addr slot : Nat} (tiled : LdtTiled s.ldt)
    (low : 0x10000 ≤ addr) (below : addr < 0xFFFF0000) (inside : slot < lxMaxLdtSlots)
    (based : s.ldt slot = tileBase addr) (loadedModules : List (List LxMmaps))
    (modifyLdt : Nat → Bool) (iscode : Option Bool) :
    lxFindSelector loadedModules modifyLdt addr iscode s =
      some (s, some (slot, addr % 0x10000)) := by
  have holds := (tiled.holds_iff inside below).mpr based
  have used : s.ldt slot ≠ 0 := by rw [based]; unfold tileBase; omega
  have offset : ∀ i, s.ldt i = tileBase addr →
      slotOffset s.ldt i addr = (i, addr % 0x10000) := by
    intro i same
    unfold slotOffset
    rw [same]
    unfold tileBase
    congr 1
    omega
  -- Whatever slot is found holds the address, so it is the slot of the tile.
  have same_slot : ∀ i, i < lxMaxLdtSlots → s.ldt i ≠ 0 → tileHolds (s.ldt i) addr = true →
      i = slot := by
    intro i inside' used' holds'
    have based' := (tiled.holds_iff inside' below).mp holds'
    exact tiled.unique i slot inside' inside used' (based'.trans based.symm)
  unfold lxFindSelector
  rw [if_neg (by omega)]
  cases fast : tiledSlot s.ldt addr with
  | some idx =>
    -- The quick path finds the slot of the tile.
    obtain ⟨indexed, taken⟩ := Option.filter_eq_some_iff.mp fast
    simp only [ne_eq, Bool.and_eq_true, decide_eq_true_eq] at taken
    rw [same_slot idx (tiledIndex_lt indexed).1 taken.1 taken.2]
    simp only [offset slot based]
  | none =>
    dsimp only
    cases scanned : scanSlots s.ldt addr lxMaxLdtSlots 0 (preferredSlot s.ldt addr) with
    | found i =>
      -- The scan comes across the slot of the tile.
      obtain ⟨_, inside', used', holds'⟩ := scanSlots_found scanned
      rw [same_slot i (by omega) used' holds']
      simp only [offset slot based]
    | missing last =>
      -- The scan cannot pass the slot of the tile.
      obtain ⟨passed, _⟩ := scanSlots_missing scanned
      rw [passed slot (Nat.zero_le slot) (by omega) used] at holds
      cases holds

/-- Tiling a stack enters each tile into the slot of its own number. -/
theorem tileStack_tiles (modifyLdt : Nat → Bool) {tiles addr : Nat} {s : LdtState}
    (aligned : addr % 0x10000 = 0) (below : addr + tiles * 0x10000 ≤ 1024 * 1024 * 512)
    (own : ∀ i, s.ldt i = 0 ∨ s.ldt i = i * 0x10000) :
    ∃ t, tileStack modifyLdt false tiles addr s = some t ∧
      ∀ i, t.ldt i = 0 ∨ t.ldt i = i * 0x10000 := by
  -- Each step fills the slot of its tile, or leaves it as it was.
  induction tiles generalizing addr s with
  | zero => exact ⟨s, rfl, own⟩
  | succ tiles ih =>
    -- The slot of a tile below the bound is its own number, and is in the table.
    have slot : (addr >>> 16) % 2 ^ 16 = addr / 0x10000 := by
      rw [Nat.shiftRight_eq_div_pow]
      omega
    have inside : addr / 0x10000 < lxMaxLdtSlots := by
      unfold lxMaxLdtSlots
      omega
    have next : (addr + 0x10000) % 2 ^ 32 = addr + 0x10000 := by omega
    have later : ∀ u : LdtState, (∀ i, u.ldt i = 0 ∨ u.ldt i = i * 0x10000) →
        ∃ t, tileStack modifyLdt false tiles (addr + 0x10000) u = some t ∧
          ∀ i, t.ldt i = 0 ∨ t.ldt i = i * 0x10000 :=
      fun u own' => ih (by omega) (by omega) own'
    unfold tileStack
    simp only [slot, next, if_false, Bool.false_eq_true]
    by_cases free : s.ldt (addr / 0x10000) = 0
    · -- A free slot is filled with its own tile, unless the kernel refuses.
      rcases allocateSelector_free modifyLdt 16 addr .data false inside free with
        refused | ⟨entry, _, done⟩
      · rw [refused]
        exact later s own
      · rw [done]
        apply later
        intro i
        rcases eq_or_ne i (addr / 0x10000) with rfl | other
        · right
          show Function.update s.ldt _ addr _ = _
          rw [Function.update_self]
          omega
        · have same : (s.install (addr / 0x10000) addr entry).ldt i = s.ldt i :=
            Function.update_of_ne other ..
          rw [same]
          exact own i
    · -- A taken slot stays as it is.
      have taken : allocateSelector modifyLdt (addr / 0x10000) 16 addr .data false s =
          some (s, false) := by
        simp [allocateSelector, inside, free]
      rw [taken]
      exact later s own

/-- A table that has each tile in the slot of its own number is tiled. -/
theorem ldtTiled_of_own {ldt : Nat → Nat} (own : ∀ i, ldt i = 0 ∨ ldt i = i * 0x10000) :
    LdtTiled ldt := by
  refine ⟨fun i inside => ?_, fun i inside => ?_, fun i j inside_i inside_j used same => ?_⟩
  · rcases own i with free | tile
    · rw [free]
    · rw [tile]
      omega
  · unfold lxMaxLdtSlots at inside
    rcases own i with free | tile
    · rw [free]
      omega
    · rw [tile]
      omega
  · -- Slots with the same tile have the same number.
    have tile_i := (own i).resolve_left used
    have tile_j := (own j).resolve_left (same ▸ used)
    omega

/-- A stack below 512 megabytes is tiled without tripping an assertion. -/
theorem initOs2StackSegments_tiled (modifyLdt : Nat → Bool) {addr stacklen : Nat}
    (below : addr + stacklen ≤ 1024 * 1024 * 512) :
    ∃ t, initOs2StackSegments modifyLdt addr stacklen false {} = some t ∧ LdtTiled t.ldt := by
  have own : ∀ i, ({} : LdtState).ldt i = 0 ∨ ({} : LdtState).ldt i = i * 0x10000 :=
    fun i => .inl rfl
  -- Padding to whole tiles does not reach past the bound, which is a multiple of a tile.
  have fits : addr - addr % 0x10000 + stackTileCount addr stacklen * 0x10000 ≤
      1024 * 1024 * 512 := by
    unfold stackTileCount
    dsimp only
    split <;> omega
  obtain ⟨t, done, own'⟩ := tileStack_tiles modifyLdt (by omega) fits own
  exact ⟨t, done, ldtTiled_of_own own'⟩

/-- When the slot of the tile holds an address, a scan of the whole table finds that slot too. -/
def PathsAgree (ldt : Nat → Nat) : Prop :=
  ∀ addr idx available, addr < 0xFFFF0000 → tiledSlot ldt addr = some idx →
    scanSlots ldt addr lxMaxLdtSlots 0 available = .found idx

/-- Lookups answer with the address asked for, and answer the same until something is freed. -/
def LookupsStable (s : LdtState) : Prop :=
  ∀ loadedModules modifyLdt addr iscode t slot offset, 0x10000 ≤ addr → addr < 0xFFFF0000 →
    lxFindSelector loadedModules modifyLdt addr iscode s = some (t, some (slot, offset)) →
      slot < lxMaxLdtSlots ∧ t.ldt slot + offset = addr ∧
        ∀ u, Runs.Reaches ldtStep LdtKeeps t u → ∀ loadedModules modifyLdt iscode,
          lxFindSelector loadedModules modifyLdt addr iscode u = some (u, some (slot, offset))

/-- In a tiled table the quick path and the scan agree. -/
theorem LdtTiled.pathsAgree {ldt : Nat → Nat} (tiled : LdtTiled ldt) : PathsAgree ldt := by
  intro addr idx available below fast
  obtain ⟨indexed, taken⟩ := Option.filter_eq_some_iff.mp fast
  simp only [ne_eq, Bool.and_eq_true, decide_eq_true_eq] at taken
  have inside := (tiledIndex_lt indexed).1
  cases scanned : scanSlots ldt addr lxMaxLdtSlots 0 available with
  | found i =>
    -- Two slots that hold the address have the same tile.
    obtain ⟨_, inside', used', holds'⟩ := scanSlots_found scanned
    have here := (tiled.holds_iff inside below).mp taken.2
    have there := (tiled.holds_iff (by omega) below).mp holds'
    rw [tiled.unique i idx (by omega) inside used' (there.trans here.symm)]
  | missing last =>
    -- The scan cannot pass the slot that the quick path found.
    obtain ⟨passed, _⟩ := scanSlots_missing scanned
    rw [passed idx (Nat.zero_le idx) (by omega) taken.1] at taken
    cases taken.2

/-- In a tiled table lookups are stable. -/
theorem LdtTiled.lookupsStable {s : LdtState} (tiled : LdtTiled s.ldt) : LookupsStable s := by
  intro loadedModules modifyLdt addr iscode t slot offset low below looked
  -- The first lookup answers with the slot of the tile.
  obtain ⟨t', out, looked', does⟩ := lxFindSelector_does loadedModules modifyLdt addr iscode s
  cases looked.symm.trans looked'
  obtain ⟨inside, based, rfl⟩ := does.answer tiled below
  have tiled' : LdtTiled t.ldt := tiled.lookup low below does
  refine ⟨inside, by rw [based]; unfold tileBase; omega, fun u reached modules modify code => ?_⟩
  -- The table stays tiled and the slot keeps its tile, whatever is looked up or allocated
  -- meanwhile.
  have stays : LdtTiled u.ldt ∧ u.ldt slot = tileBase addr := by
    apply reached.invariant fun v => LdtTiled v.ldt ∧ v.ldt slot = tileBase addr
    · exact ⟨tiled', based⟩
    · intro v call w out ⟨tiled_v, based_v⟩ keeps stepped
      have used : v.ldt slot ≠ 0 := by rw [based_v]; unfold tileBase; omega
      exact ⟨tiled_v.step keeps.1 stepped, (ldtStep_keeps keeps stepped used).trans based_v⟩
  exact lxFindSelector_again stays.1 low below inside stays.2 modules modify code

/--
After the stack below 512 megabytes is tiled, the table stays tiled whatever is looked up, allocated
or freed.

So the quick path of a lookup and its scan never differ, a lookup that succeeds answers with a
selector and an offset that add up to the address, and a repeated lookup answers the same and
changes nothing.
-/
theorem ldt_tiling_holds (modifyLdt : Nat → Bool) {addr stacklen : Nat}
    (below : addr + stacklen ≤ 1024 * 1024 * 512) :
    ∃ start, initOs2StackSegments modifyLdt addr stacklen false {} = some start ∧
      ∀ s, Runs.Reaches ldtStep LdtMay start s →
        LdtTiled s.ldt ∧ PathsAgree s.ldt ∧ LookupsStable s := by
  obtain ⟨start, inited, tiled⟩ := initOs2StackSegments_tiled modifyLdt below
  refine ⟨start, inited, fun s reached => ?_⟩
  -- Every call after the tiling keeps the table tiled.
  have tiled_s := reached.invariant (fun v => LdtTiled v.ldt) tiled
    fun _ _ _ _ tiled_v may stepped => tiled_v.step may stepped
  exact ⟨tiled_s, tiled_s.pathsAgree, tiled_s.lookupsStable⟩

/-- A stack of two tiles at 128 megabytes, whose end is not aligned. -/
theorem ldt_tiling_holds_small_stack :
    ∃ start, initOs2StackSegments (fun _ => true) 0x8000000 0x18000 false {} = some start ∧
      ∀ s, Runs.Reaches ldtStep LdtMay start s →
        LdtTiled s.ldt ∧ PathsAgree s.ldt ∧ LookupsStable s :=
  ldt_tiling_holds (fun _ => true) (by decide)

end TwoIne
