import TwoIne.LxLoader.Bridges
import TwoIne.Proofs.LxLoader.Conversion

/-!
The processor sees the segments that the loader recorded: every slot in use has a descriptor of 16
bits that starts where the loader thinks it does.
-/

namespace TwoIne

open X86

/-- The kernel was given a descriptor for every slot that is in use. -/
def LdtInstalled (s : LdtState) : Prop :=
  ∀ slot, s.ldt slot ≠ 0 →
    ∃ entry, s.descriptors slot = some entry ∧ entry.baseAddr = s.ldt slot ∧ entry.seg32bit = false

section Installed

variable {modifyLdt : Nat → Bool} {s t : LdtState}

/-- Allocating a slot installs a descriptor for it. -/
theorem LdtInstalled.allocate {selector pages addr : Nat} {contents : LdtContents} {worked : Bool}
    (installed : LdtInstalled s)
    (allocated : allocateSelector modifyLdt selector pages addr contents false s =
      some (t, worked)) : LdtInstalled t := by
  unfold allocateSelector at allocated
  split at allocated
  · cases allocated
  · split at allocated
    · cases allocated
      exact installed
    · split at allocated
      · cases allocated
        exact installed
      · -- The slot that is filled has the new descriptor, and the others keep theirs.
        cases allocated
        intro slot used
        simp only [LdtState.install] at used ⊢
        rcases eq_or_ne slot selector with rfl | other
        · rw [Function.update_self, Function.update_self]
          exact ⟨_, rfl, rfl, rfl⟩
        · rw [Function.update_of_ne other] at used
          rw [Function.update_of_ne other, Function.update_of_ne other]
          exact installed slot used

/-- Freeing a slot leaves the others as they are. -/
theorem LdtInstalled.free {selector : Nat} (installed : LdtInstalled s)
    (freed : lxFreeSelector modifyLdt selector s = some t) : LdtInstalled t := by
  -- A slot that is freed is not in use any more.
  rcases lxFreeSelector_does freed with rfl | rfl
  · exact installed
  · intro slot used
    simp only [LdtState.clear] at used ⊢
    rcases eq_or_ne slot selector with rfl | other
    · rw [Function.update_self] at used
      exact absurd rfl used
    · rw [Function.update_of_ne other] at used
      rw [Function.update_of_ne other, Function.update_of_ne other]
      exact installed slot used

/-- Looking an address up allocates a slot at most. -/
theorem LdtInstalled.find {loadedModules : List (List LxMmaps)} {addr : Nat} {iscode : Option Bool}
    {out : Option (Nat × Nat)} (installed : LdtInstalled s)
    (looked : lxFindSelector loadedModules modifyLdt addr iscode s = some (t, out)) :
    LdtInstalled t := by
  unfold lxFindSelector at looked
  split at looked
  · cases looked
    exact installed
  · split at looked
    · cases looked
      exact installed
    · dsimp only at looked
      split at looked
      · cases looked
        exact installed
      · cases looked
        exact installed
      · -- The tile of the address gets a slot of its own.
        split at looked
        · cases looked
        · rename_i allocated
          cases looked
          exact installed.allocate allocated
        · rename_i allocated
          cases looked
          exact installed.allocate allocated

/-- Tiling a stack allocates or frees one slot after the other. -/
theorem LdtInstalled.tile {deinit : Bool} {tiles addr : Nat} (installed : LdtInstalled s)
    (tiled : tileStack modifyLdt deinit tiles addr s = some t) : LdtInstalled t := by
  -- The induction follows the tiles, and each of them touches one slot.
  induction tiles generalizing addr s with
  | zero =>
    cases tiled
    exact installed
  | succ tiles ih =>
    unfold tileStack at tiled
    dsimp only at tiled
    split at tiled
    · cases tiled
    · rename_i u tile
      refine ih ?_ tiled
      split at tile
      · exact installed.free tile
      · obtain ⟨⟨u, worked⟩, allocated, same⟩ := Option.map_eq_some_iff.mp tile
        cases same
        exact installed.allocate allocated

/-- Every call on the table keeps the descriptors in step with it. -/
theorem LdtInstalled.step {call : LdtCall} {out : Option (Nat × Nat)} (installed : LdtInstalled s)
    (stepped : ldtStep s call = some (t, out)) : LdtInstalled t := by
  -- A segment is a lookup with memory of its own, and a stack is a run of single slots.
  cases call with
  | find loadedModules modifyLdt addr iscode => exact installed.find stepped
  | alloc loadedModules modifyLdt mapped iscode =>
    obtain ⟨⟨u, found⟩, allocated, same⟩ := Option.map_eq_some_iff.mp stepped
    cases same
    unfold lxAllocSegment at allocated
    split at allocated
    · cases allocated
      exact installed
    · have moved : LdtInstalled { s with baseaddr := s.baseaddr + 0x10000 } := installed
      dsimp only at allocated
      split at allocated
      · cases allocated
      · cases allocated
      · rename_i looked
        split at allocated
        · cases allocated
        · cases allocated
          exact moved.find looked
  | free modifyLdt selector =>
    obtain ⟨u, freed, same⟩ := Option.map_eq_some_iff.mp stepped
    cases same
    exact installed.free freed
  | stack modifyLdt addr stacklen deinit =>
    obtain ⟨u, tiled, same⟩ := Option.map_eq_some_iff.mp stepped
    cases same
    exact installed.tile tiled

/-- The descriptors of a loader that has run any calls are in step with its table. -/
theorem ldtInstalled_reached (reached : Runs.Reaches ldtStep LdtArgs {} s) : LdtInstalled s :=
  reached.invariant LdtInstalled (fun _ used => absurd rfl used)
    fun _ _ _ _ installed _ stepped => installed.step stepped

end Installed

section Selectors

variable {s : LdtState} {slot : Nat}

/-- The selector of a slot. -/
def slotSelector (slot : Nat) : BitVec 16 := BitVec.ofNat 16 slot <<< 3 ||| 7

/-- The slot of a selector is above three bits that are set. -/
theorem slotSelector_shift (inside : slot < lxMaxLdtSlots) :
    slotSelector slot >>> 3 = BitVec.ofNat 16 slot := by
  unfold lxMaxLdtSlots at inside
  have eighth : (slot % 2 ^ 16) <<< 3 % 2 ^ 16 = slot <<< 3 := by
    rw [Nat.shiftLeft_eq, Nat.shiftLeft_eq]
    omega
  have value : (slotSelector slot).toNat = slot * 8 + 7 := by
    unfold slotSelector
    rw [BitVec.toNat_or, BitVec.toNat_shiftLeft, BitVec.toNat_ofNat, eighth]
    refine (Nat.shiftLeft_add_eq_or_of_lt (i := 3) (b := 7) (by decide) slot).symm.trans ?_
    rw [Nat.shiftLeft_eq]
  apply BitVec.eq_of_toNat_eq
  rw [BitVec.toNat_ushiftRight, value, BitVec.toNat_ofNat, Nat.shiftRight_eq_div_pow]
  omega

/-- The selector of a slot is one of the table. -/
theorem slotSelector_table (slot : Nat) : (slotSelector slot).getLsbD 2 = true := by
  unfold slotSelector
  have set : (7 : BitVec 16).getLsbD 2 = true := rfl
  rw [BitVec.getLsbD_or, set, Bool.or_true]

/-- The segment of a slot is of 16 bits, and starts where the loader recorded. -/
theorem LdtInstalled.segment (installed : LdtInstalled s) (inside : slot < lxMaxLdtSlots)
    (used : s.ldt slot ≠ 0) :
    s.segments.base (slotSelector slot) = BitVec.ofNat 32 (s.ldt slot) ∧
      s.segments.wide (slotSelector slot) = false := by
  -- The selector names the table and the slot in it.
  obtain ⟨entry, there, based, narrow⟩ := installed slot used
  have number : (slotSelector slot >>> 3).toNat = slot := by
    unfold lxMaxLdtSlots at inside
    rw [slotSelector_shift inside, BitVec.toNat_ofNat]
    omega
  unfold LdtState.segments
  dsimp only
  rw [slotSelector_table, if_pos rfl, number, there]
  exact ⟨congrArg (BitVec.ofNat 32) based, narrow⟩

/-- The segments of the kernel hold all of the memory. -/
theorem segments_kernel {selector : BitVec 16} (kernel : selector.getLsbD 2 = false) :
    s.segments.base selector = 0#32 ∧ s.segments.wide selector = true := by
  unfold LdtState.segments
  dsimp only
  rw [kernel, if_neg Bool.false_ne_true]
  exact ⟨rfl, rfl⟩

end Selectors

end TwoIne
