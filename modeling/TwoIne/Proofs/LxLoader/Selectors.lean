import TwoIne.LxLoader.Objects
import TwoIne.Proofs.LxLoader.Conversion

/-! What a new selector is made for: code exactly if executable memory of a module is there. -/

namespace TwoIne

/-- What is left of a mapping behind the alignment in front of it. -/
def LxMmaps.usable (mmaps : LxMmaps) : Nat :=
  mmaps.size - (mmaps.addr - mmaps.mapped.getD mmaps.addr)

/-- The mapping of an object, once its pages have the protection they are to have. -/
def LxMapping.protected (mapping : LxMapping) (prot : Nat) : LxMmaps where
  mapped := some mapping.mapped
  addr := mapping.addr
  size := mapping.size
  prot := prot

/-- The memory of a mapping is executable. -/
def LxMmaps.executable (mmaps : LxMmaps) : Bool := mmaps.prot &&& protExec ≠ 0

/-- An address is in the usable part of a mapping. -/
def LxMmaps.holds (mmaps : LxMmaps) (addr : Nat) : Bool :=
  mmaps.addr ≤ addr && addr < mmaps.addr + mmaps.usable

/-- An address is in a mapping as a lookup sees it, with what the alignment took and the end. -/
def LxMmaps.reaches (mmaps : LxMmaps) (addr : Nat) : Bool :=
  mmaps.addr ≤ addr && addr ≤ (mmaps.addr + mmaps.size) % 2 ^ 32

/-- An address is in executable memory of some of these mappings. -/
def InCode (mappings : List LxMmaps) (addr : Nat) : Prop :=
  ∃ mmaps ∈ mappings, mmaps.executable = true ∧ mmaps.holds addr = true

/-- The first of these mappings that a lookup sees the address in is executable. -/
def SeenAsCode (mappings : List LxMmaps) (addr : Nat) : Prop :=
  ∃ mmaps, mappings.find? (·.reaches addr) = some mmaps ∧ mmaps.executable = true

/-- What a lookup sees of the loaded modules tells what is there. -/
structure SeenRight (main loaded : List LxMmaps) (addr : Nat) : Prop where
  /-- Executable memory of the main module, which is not looked at, is seen as another module's. -/
  program : InCode main addr → SeenAsCode loaded addr
  /-- Executable memory of a loaded module is not hidden by a mapping that is looked at before. -/
  libraries : InCode loaded addr → SeenAsCode loaded addr
  /-- What is seen as code is not just what the alignment took, or the end of a mapping. -/
  inside : SeenAsCode loaded addr → InCode main addr ∨ InCode loaded addr

/-- The usable part of an object that is mapped is what its pages are filled into. -/
theorem mapObject_usable {image : PagedImage} {mmap : Mmap} {i : Nat} {obj : LxObjectTableEntry}
    {mapping : LxMapping} (mapped : mapObject image mmap i obj = .mapped mapping)
    (small : mapping.size < 2 ^ 32) (aligned : mapping.addr ≤ mapping.mapped + mapping.size)
    (prot : Nat) : (mapping.protected prot).usable = mapping.vsize := by
  simp only [mapObject] at mapped
  split at mapped
  · cases mapped
  · split at mapped
    · cases mapped
    · rename_i mmapaddr _
      split at mapped
      · split at mapped
        · -- The part in front of the 64K boundary is not used.
          cases mapped
          simp only [LxMapping.protected, LxMmaps.usable, Option.getD_some, uint32Sub] at *
          omega
        · cases mapped
      · cases mapped
        simp [LxMapping.protected, LxMmaps.usable]

/-- A lookup of an address in a slot that is free makes the slot for what it takes to be there. -/
theorem new_selector_contents {loadedModules : List (List LxMmaps)} {modifyLdt : Nat → Bool}
    {addr slot offset : Nat} {iscode : Option Bool} {s t : LdtState}
    (looked : lxFindSelector loadedModules modifyLdt addr iscode s = some (t, some (slot, offset)))
    (free : s.ldt slot = 0) :
    ∃ entry, t.descriptors slot = some entry ∧
      entry.contents = selectorContents loadedModules addr iscode := by
  unfold lxFindSelector at looked
  split at looked
  · cases looked
  · split at looked
    · -- A slot that holds the address is not free.
      rename_i idx fast
      cases looked
      have taken := (Option.filter_eq_some_iff.mp fast).2
      simp [free] at taken
    · dsimp only at looked
      split at looked
      · rename_i found scanned
        cases looked
        exact absurd free (scanSlots_found scanned).2.2.1
      · cases looked
      · split at looked
        · cases looked
        · cases looked
        · -- The descriptor was installed as it was made.
          rename_i available _ _ _ allocated
          cases looked
          unfold allocateSelector at allocated
          split at allocated
          · cases allocated
          · split at allocated
            · cases allocated
            · split at allocated
              · cases allocated
              · cases allocated
                exact ⟨_, Function.update_self .., rfl⟩

/-- Without being told, a lookup takes an address for code if it is seen as code. -/
theorem selectorContents_code_iff (loadedModules : List (List LxMmaps)) (addr : Nat) :
    selectorContents loadedModules addr none = .code ↔ SeenAsCode loadedModules.flatten addr := by
  have same : mappedCode loadedModules addr =
      (loadedModules.flatten.find? (·.reaches addr)).map LxMmaps.executable := rfl
  rw [selectorContents, same, SeenAsCode]
  cases loadedModules.flatten.find? (·.reaches addr) with
  | none => simp
  | some mmaps => simp

/-- The first lookup of an address enters its tile into the slot of its number. -/
theorem lxFindSelector_first (loadedModules : List (List LxMmaps)) (addr : Nat)
    (accepted : 4096 ≤ addr) (below : addr < 1024 * 1024 * 512) :
    ∃ t, lxFindSelector loadedModules (fun _ => true) addr none {} =
      some (t, some (addr >>> 16, addr % 0x10000)) := by
  obtain ⟨last, scanned, offered, _⟩ :=
    scanSlots_empty addr lxMaxLdtSlots 0 (preferredSlot (fun _ => 0) addr)
  obtain ⟨available, rfl⟩ := Option.isSome_iff_exists.mp (offered (by decide))
  have nothing : tiledSlot (fun _ => 0) addr = none := by simp [tiledSlot]
  have preferred : preferredSlot (fun _ => 0) addr = some (addr >>> 16) := by
    simp [preferredSlot, tiledIndex, below]
  have inside : addr >>> 16 < lxMaxLdtSlots := by
    rw [Nat.shiftRight_eq_div_pow]
    unfold lxMaxLdtSlots
    omega
  unfold lxFindSelector
  rw [if_neg (by omega)]
  dsimp only
  rw [nothing]
  dsimp only
  rw [scanned, preferred]
  simp [allocateSelector, inside]

/-- The first page of the code of a program, in memory of its own. -/
def programCode : LxMmaps := { mapped := some 0x20000, addr := 0x20000, size := 0x1000, prot := 5 }

end TwoIne
