import TwoIne.Lib.ByteBlocks

/-! Blocks of bytes in which some places are still open, and are patched one after another. -/

namespace Patches

open ByteBlocks

/-- A block has bytes at a place. -/
def HasAt (block : List UInt8) (addr : Nat) (bytes : List UInt8) : Prop :=
  ∀ k < bytes.length, block[addr + k]? = bytes[k]?

/-- A place, and how many bytes there belong to it. -/
abbrev Site := Nat × Nat

/-- The byte with an index belongs to one of the sites. -/
def OpenAt (sites : List Site) (k : Nat) : Prop :=
  ∃ site ∈ sites, site.1 ≤ k ∧ k < site.1 + site.2

/-- Two sites have no byte in common. -/
def Apart (a b : Site) : Prop := a.1 + a.2 ≤ b.1 ∨ b.1 + b.2 ≤ a.1

/-- Sites have no byte in common in either order. -/
theorem Apart.symm {a b : Site} (apart : Apart a b) : Apart b a := Or.symm apart

/-- What is apart from a site is apart from what lies at its start, too. -/
theorem Apart.shorter {a b : Site} {n : Nat} (apart : Apart a b) (short : n ≤ a.2) :
    Apart (a.1, n) b := by
  simp only [Apart] at apart ⊢
  omega

/-- A block is what it should be, apart from the bytes that are still open. -/
structure AgreeOff (opened : Nat → Prop) (block content : List UInt8) : Prop where
  length : block.length = content.length
  same : ∀ k, ¬ opened k → block[k]? = content[k]?

section Sites

variable {block content after bytes : List UInt8} {addr : Nat} {sites rest : List Site}
  {opened other : Nat → Prop}

/-- No site is open if there is none. -/
theorem not_openAt_nil (k : Nat) : ¬ OpenAt [] k := fun opened => by
  obtain ⟨site, member, _⟩ := opened
  cases member

/-- A byte of several sites is one of the first or one of the others. -/
theorem openAt_cons {site : Site} {k : Nat} :
    OpenAt (site :: sites) k ↔ site.1 ≤ k ∧ k < site.1 + site.2 ∨ OpenAt sites k := by
  simp only [OpenAt, List.mem_cons, exists_eq_or_imp]

/-- A block that agrees off some bytes agrees off more of them. -/
theorem AgreeOff.mono (agree : AgreeOff opened block content) (more : ∀ k, opened k → other k) :
    AgreeOff other block content :=
  ⟨agree.length, fun k closed => agree.same k fun opened => closed (more k opened)⟩

/-- A block without open bytes is what it should be. -/
theorem AgreeOff.closed (agree : AgreeOff (OpenAt []) block content) : block = content :=
  List.ext_getElem? fun k => agree.same k (not_openAt_nil k)

/-- What a block has lies inside of it. -/
theorem HasAt.inside (has : HasAt content addr bytes) (some_there : 0 < bytes.length) :
    addr + bytes.length ≤ content.length := by
  -- The last byte is one of the block.
  have last := has (bytes.length - 1) (by omega)
  rw [List.getElem?_eq_getElem (by omega : bytes.length - 1 < bytes.length)] at last
  obtain ⟨below, _⟩ := List.getElem?_eq_some_iff.mp last
  omega

/-- Storing the bytes that should be at a site closes it. -/
theorem AgreeOff.store (agree : AgreeOff (OpenAt ((addr, bytes.length) :: sites)) block content)
    (has : HasAt content addr bytes) (stored : StoredAt block addr bytes after) :
    AgreeOff (OpenAt sites) after content := by
  refine ⟨stored.length.trans agree.length, fun k closed => ?_⟩
  by_cases here : addr ≤ k ∧ k < addr + bytes.length
  · -- This is one of the bytes that were stored.
    obtain ⟨j, rfl⟩ := Nat.exists_eq_add_of_le here.1
    have below : j < bytes.length := by omega
    rw [stored.stored j below, has j below]
  · rw [stored.others k (by omega)]
    exact agree.same k fun opened => (openAt_cons.mp opened).elim here closed

/-- Storing nothing changes nothing. -/
theorem StoredAt.nothing (stored : StoredAt block addr [] after) : after = block :=
  List.ext_getElem? fun k => stored.others k (by rw [List.length_nil]; omega)

/-- What should be at a site can be stored there. -/
theorem AgreeOff.storable (agree : AgreeOff opened block content)
    (has : HasAt content addr bytes) :
    ∃ after, storeBytes block addr bytes = some after ∧ StoredAt block addr bytes after := by
  cases bytes with
  | nil =>
    exact ⟨block, rfl, rfl, fun k none_there => absurd none_there (Nat.not_lt_zero k),
      fun _ _ => rfl⟩
  | cons byte bytes =>
    apply storeBytes_inside
    rw [agree.length]
    exact has.inside (Nat.succ_pos _)

/-- Storing bytes leaves what is read elsewhere as it was. -/
theorem loadBytes_apart (site : Site) (stored : StoredAt block addr bytes after)
    (apart : Apart (addr, bytes.length) site) :
    loadBytes after site.1 site.2 = loadBytes block site.1 site.2 := by
  simp only [Apart] at apart
  unfold loadBytes
  rw [stored.length]
  by_cases inside : site.1 + site.2 ≤ block.length
  · rw [if_pos inside, if_pos inside]
    congr 1
    apply List.ext_getElem?
    intro k
    by_cases below : k < site.2
    · rw [List.getElem?_take_of_lt below, List.getElem?_take_of_lt below, List.getElem?_drop,
        List.getElem?_drop, stored.others _ (by omega)]
    · rw [List.getElem?_take_eq_none (by omega), List.getElem?_take_eq_none (by omega)]
  · rw [if_neg inside, if_neg inside]

end Sites

end Patches
