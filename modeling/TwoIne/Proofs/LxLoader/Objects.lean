import TwoIne.LxLoader.Objects
import TwoIne.Proofs.LxLoader.Iterated
import TwoIne.Proofs.LxLoader.PackTokens

/-!
Loading an object writes its mapping and nothing else, if its pages and the data of its preloaded
pages are not larger than the mapping.
-/

namespace TwoIne

open Buffers Memories Regions

/-- The data of a page are what its type says. -/
def PageUnpacks (image : PagedImage) (page : LxObjectPageTableEntry) : Prop :=
  match page.flags.toNat with
  | 0 | 2 | 3 => True
  | 1 => ∃ records, FitRecords lxPageSize 0 (pageData image page) records
  | 5 => ∃ tokens, pageTokens (pageData image page) lxPageSize = some tokens
  | _ => False

/-- Among the records of an iterated page there is one with a product that is too large. -/
def PageOverflows (image : PagedImage) (page : LxObjectPageTableEntry) : Prop :=
  page.flags.toNat = 1 ∧ ProductOverflows lxPageSize 0 (pageData image page)

/-- How many bytes are written for a page; the data of a preloaded page may be larger than it. -/
def pageExtent (page : LxObjectPageTableEntry) : Nat :=
  if page.flags.toNat = 0 then max lxPageSize page.data_size.toNat else lxPageSize

/-- What filling a page comes to, by what its data are. -/
structure PageComes (image : PagedImage) (memory : Memory) (dst : Nat)
    (page : LxObjectPageTableEntry) : Prop where
  overflow : PageOverflows image page → fillPage image memory dst page = .overflow
  filled : ¬ PageOverflows image page → PageUnpacks image page →
    ∃ after, fillPage image memory dst page = .filled after ∧
      Marks memory after dst (pageExtent page)
  refused : ¬ PageOverflows image page → ¬ PageUnpacks image page →
    fillPage image memory dst page = .refused

section Pages

variable {image : PagedImage} {memory : Memory} {dst : Nat} {page : LxObjectPageTableEntry}

/-- A page that was written to its end has only marked cells. -/
theorem written_all {after : Buffer} {n : Nat} (length : after.length = n)
    (written : WrittenTo after n) : ∀ cell ∈ after, cell.written = true := by
  intro cell member
  obtain ⟨i, below, rfl⟩ := List.getElem_of_mem member
  obtain ⟨value, stored⟩ := written i (length ▸ below)
  rw [List.getElem?_eq_getElem below] at stored
  rw [Option.some.inj stored]

/-- The cells that bytes are written to are marked. -/
theorem written_cells (bytes : List UInt8) :
    ∀ cell ∈ bytes.map fun value => (⟨value, true⟩ : Cell), cell.written = true := by
  intro cell member
  obtain ⟨value, _, rfl⟩ := List.mem_map.mp member
  rfl

/-- A window into the memory that was written to its end is put back. -/
theorem window_marks {after : Buffer} (length : after.length = lxPageSize)
    (written : WrittenTo after lxPageSize) :
    Marks memory (writeMemory memory dst after) dst lxPageSize :=
  length ▸ writeMemory_marks memory dst (written_all length written)

/-- The data of a page are as many bytes as its entry says. -/
theorem pageData_length (image : PagedImage) (page : LxObjectPageTableEntry) :
    (pageData image page).length = page.data_size.toNat := by
  rw [pageData, List.length_map, List.length_range]

/-- A preloaded page is written with its data, and with zeros up to its end. -/
theorem preload_comes (dst_lt : dst < addresses) (preload : page.flags.toNat = 0) :
    ∃ after, fillPage image memory dst page = .filled after ∧
      Marks memory after dst (pageExtent page) := by
  have data_marks := writeMemory_marks memory dst
    (written_cells (pageData image page))
  rw [List.length_map, pageData_length] at data_marks
  have size_lt : page.data_size.toNat < 0x10000 := page.data_size.isLt
  simp only [fillPage, preload, pageExtent, if_true]
  by_cases short : page.data_size.toNat < lxPageSize
  · refine ⟨_, if_pos short, ?_⟩
    have both := data_marks.trans dst_lt (by simp only [lxPageSize, addresses] at short ⊢; omega)
      (fillMemory_marks _ _ (lxPageSize - page.data_size.toNat) 0)
    rw [show max lxPageSize page.data_size.toNat =
      page.data_size.toNat + (lxPageSize - page.data_size.toNat) by omega]
    exact both
  · refine ⟨_, if_neg short, ?_⟩
    rw [Nat.max_eq_right (by omega)]
    exact data_marks

/-- An iterated page comes to what its records say. -/
theorem iterated_comes (iterated : page.flags.toNat = 1) : PageComes image memory dst page := by
  have window : (readMemory memory dst lxPageSize).length = lxPageSize := readMemory_length _ _ _
  have size_lt : (pageData image page).length < 0x100000000 := by
    have small : page.data_size.toNat < 0x10000 := page.data_size.isLt
    rw [pageData_length]
    omega
  obtain ⟨result, ends, comes⟩ := decompressIterated_comes (pageData image page)
    (readMemory memory dst lxPageSize) size_lt (by rw [window, lxPageSize]; decide)
  have run := ends ((pageData image page).length + 1) (by omega)
  rw [window] at run comes
  have unpacks_iff : PageUnpacks image page ↔
      ∃ records, FitRecords lxPageSize 0 (pageData image page) records := by
    simp only [PageUnpacks, iterated]
  have overflows_iff : PageOverflows image page ↔
      ProductOverflows lxPageSize ([] : List UInt8).length (pageData image page) := by
    simp only [PageOverflows, iterated, true_and, List.length_nil]
  have extent : pageExtent page = lxPageSize := by
    rw [pageExtent, if_neg (by omega)]
  cases comes with
  | overflow overflows =>
    refine ⟨fun _ => ?_, fun small => absurd (overflows_iff.mpr overflows) small,
      fun small => absurd (overflows_iff.mpr overflows) small⟩
    simp only [fillPage, iterated, run]
  | refused after length small unfit =>
    refine ⟨fun overflows => absurd (overflows_iff.mp overflows) small, fun _ unpacks => ?_,
      fun _ _ => ?_⟩
    · obtain ⟨records, fit⟩ := unpacks_iff.mp unpacks
      exact absurd fit (unfit records)
    · simp only [fillPage, iterated, run, if_true]
  | done after records length small fit written filled =>
    refine ⟨fun overflows => absurd (overflows_iff.mp overflows) small, fun _ _ => ?_,
      fun _ refused => absurd (unpacks_iff.mpr ⟨records, fit⟩) refused⟩
    refine ⟨writeMemory memory dst after, ?_, extent ▸ window_marks length written⟩
    simp only [fillPage, iterated, run, Nat.one_ne_zero, if_false]

/-- A page in the second exepack format comes to what its tokens say. -/
theorem exepack2_comes (packed : page.flags.toNat = 5) : PageComes image memory dst page := by
  have window : (readMemory memory dst lxPageSize).length = lxPageSize := readMemory_length _ _ _
  obtain ⟨ret, after, length, written, ends, unpacks⟩ :=
    page_unpacks (pageRegion image page) (readMemory memory dst lxPageSize) (by rw [window]; rfl)
  have run := ends machineInts machineInts_sound ((pageData image page).length + 1)
    (Nat.lt_succ_self _)
  rw [window] at run unpacks length written
  have unpacks_iff : PageUnpacks image page ↔
      ∃ tokens, pageTokens (pageRegion image page).bytes lxPageSize = some tokens := by
    simp only [PageUnpacks, packed, pageRegion]
  have never : ¬ PageOverflows image page := by
    intro overflows
    rw [PageOverflows, packed] at overflows
    omega
  have extent : pageExtent page = lxPageSize := by
    rw [pageExtent, if_neg (by omega)]
  have filled_eq : fillPage image memory dst page =
      if ret = 0 then .refused else .filled (writeMemory memory dst after) := by
    have same : decompressExePack2 machineInts lxPageSize (pageRegion image page)
        (pageData image page).length ((pageData image page).length + 1)
        (readMemory memory dst lxPageSize) = .returned ret after := run
    simp only [fillPage, packed, same]
  rcases unpacks with failed | success
  · refine ⟨fun overflows => absurd overflows never, fun _ unpacks => ?_, fun _ _ => ?_⟩
    · obtain ⟨tokens, said⟩ := unpacks_iff.mp unpacks
      rw [failed.2] at said
      cases said
    · rw [filled_eq, if_pos failed.1]
  · obtain ⟨one, tokens, _, said, _⟩ := success
    refine ⟨fun overflows => absurd overflows never, fun _ _ => ?_,
      fun _ refused => absurd (unpacks_iff.mpr ⟨tokens, said⟩) refused⟩
    exact ⟨writeMemory memory dst after, by rw [filled_eq, if_neg (by omega)],
      extent ▸ window_marks length (written one)⟩

/-- A page of any type comes to what its data are. -/
theorem page_comes (image : PagedImage) (memory : Memory) (dst_lt : dst < addresses)
    (page : LxObjectPageTableEntry) : PageComes image memory dst page := by
  by_cases iterated : page.flags.toNat = 1
  · exact iterated_comes iterated
  by_cases packed : page.flags.toNat = 5
  · exact exepack2_comes packed
  have never : ¬ PageOverflows image page := fun overflows => iterated overflows.1
  refine ⟨fun overflows => absurd overflows never, fun _ unpacks => ?_, fun _ refused => ?_⟩
  · by_cases preload : page.flags.toNat = 0
    · exact preload_comes dst_lt preload
    by_cases zeros : page.flags.toNat = 2 ∨ page.flags.toNat = 3
    · refine ⟨fillMemory memory dst lxPageSize 0, ?_, ?_⟩
      · rcases zeros with two | three
        · simp only [fillPage, two]
        · simp only [fillPage, three]
      · rw [pageExtent, if_neg preload]
        exact fillMemory_marks _ _ _ _
    · -- No other type can be unpacked.
      exfalso
      unfold PageUnpacks at unpacks
      split at unpacks <;> simp_all
  · unfold PageUnpacks at refused
    unfold fillPage
    split <;> simp_all

end Pages

section Objects

variable (image : PagedImage) (mmap : Mmap) (obj : LxObjectTableEntry)

/-- Filling some pages gets as far as a page that cannot be unpacked, or fills all of them. -/
inductive PagesCome (memory : Memory) (pagenum left : Nat) : PageOutcome → Prop
  | filled (after : Memory)
      (unpack : ∀ k, pagenum ≤ k → k < pagenum + left →
        PageUnpacks image (objectPage image obj k) ∧ ¬ PageOverflows image (objectPage image obj k))
      (marks : ∀ place, (after place).written = true ↔ (memory place).written = true ∨
        ∃ k, pagenum ≤ k ∧ k < pagenum + left ∧
          behind (k * lxPageSize % addresses) place < pageExtent (objectPage image obj k)) :
      PagesCome memory pagenum left (.filled after)
  | overflow (k : Nat) (from_here : pagenum ≤ k) (within : k < pagenum + left)
      (unpack : ∀ j, pagenum ≤ j → j < k → PageUnpacks image (objectPage image obj j))
      (overflows : PageOverflows image (objectPage image obj k)) :
      PagesCome memory pagenum left .overflow
  | refused (k : Nat) (from_here : pagenum ≤ k) (within : k < pagenum + left)
      (unpack : ∀ j, pagenum ≤ j → j < k → ¬ PageOverflows image (objectPage image obj j))
      (small : ¬ PageOverflows image (objectPage image obj k))
      (unfit : ¬ PageUnpacks image (objectPage image obj k)) :
      PagesCome memory pagenum left .refused

/-- A page that is filled comes in front of the others. -/
theorem PagesCome.front {memory middle : Memory} {pagenum left : Nat} {outcome : PageOutcome}
    (unpacks : PageUnpacks image (objectPage image obj pagenum))
    (small : ¬ PageOverflows image (objectPage image obj pagenum))
    (marks : Marks memory middle (pagenum * lxPageSize % addresses)
      (pageExtent (objectPage image obj pagenum)))
    (comes : PagesCome image obj middle (pagenum + 1) left outcome) :
    PagesCome image obj memory pagenum (left + 1) outcome := by
  have split : ∀ k, pagenum ≤ k → k = pagenum ∨ pagenum + 1 ≤ k := fun k _ => by omega
  cases comes with
  | filled after unpack rest =>
    refine .filled after ?_ ?_
    · intro k from_here within
      rcases split k from_here with rfl | later
      · exact ⟨unpacks, small⟩
      · exact unpack k later (by omega)
    · intro place
      rw [rest place, marks place, or_assoc]
      apply or_congr_right
      constructor
      · intro either
        rcases either with here | there
        · exact ⟨pagenum, by omega, by omega, here⟩
        · obtain ⟨k, from_here, within, near⟩ := there
          exact ⟨k, by omega, by omega, near⟩
      · intro there
        obtain ⟨k, from_here, within, near⟩ := there
        rcases split k from_here with rfl | later
        · exact .inl near
        · exact .inr ⟨k, later, by omega, near⟩
  | overflow k from_here within unpack overflows =>
    refine .overflow k (by omega) (by omega) ?_ overflows
    intro j from_here before
    rcases split j from_here with rfl | later
    · exact unpacks
    · exact unpack j later before
  | refused k from_here within unpack small_there unfit =>
    refine .refused k (by omega) (by omega) ?_ small_there unfit
    intro j from_here before
    rcases split j from_here with rfl | later
    · exact small
    · exact unpack j later before

/-- Filling pages comes to what the data of the pages are. -/
theorem fillPages_come (left : Nat) : ∀ (pagenum : Nat) (memory : Memory),
    PagesCome image obj memory pagenum left
      (fillPages image obj left pagenum (pagenum * lxPageSize % addresses) memory) := by
  induction left with
  | zero =>
    intro pagenum memory
    refine .filled memory (fun k from_here within => by omega) ?_
    intro place
    refine ⟨.inl, ?_⟩
    intro either
    rcases either with before | ⟨k, from_here, within, _⟩
    · exact before
    · omega
  | succ left ih =>
    intro pagenum memory
    have dst_lt : pagenum * lxPageSize % addresses < addresses := Nat.mod_lt _ (by decide)
    have page := page_comes image memory dst_lt (objectPage image obj pagenum)
    rw [fillPages]
    by_cases overflows : PageOverflows image (objectPage image obj pagenum)
    · rw [page.overflow overflows]
      exact .overflow pagenum (Nat.le_refl _) (by omega) (fun j _ _ => by omega) overflows
    by_cases unpacks : PageUnpacks image (objectPage image obj pagenum)
    · obtain ⟨middle, filled, marks⟩ := page.filled overflows unpacks
      rw [filled]
      -- The other pages are filled behind this one.
      have next : (pagenum * lxPageSize % addresses + lxPageSize) % addresses =
          (pagenum + 1) * lxPageSize % addresses := by
        rw [Nat.mod_add_mod, Nat.succ_mul]
      simp only [next]
      exact (ih (pagenum + 1) middle).front image obj unpacks overflows marks
    · rw [page.refused overflows unpacks]
      exact .refused pagenum (Nat.le_refl _) (by omega) (fun j _ _ => by omega) overflows unpacks

/-- The size of an object is one of whole pages. -/
theorem roundedSize_pages (virtual_size : BitVec 32) :
    roundedSize virtual_size % lxPageSize = 0 ∧ roundedSize virtual_size < addresses := by
  have small : virtual_size.toNat < 0x100000000 := virtual_size.isLt
  rw [roundedSize]
  by_cases part : virtual_size.toNat % lxPageSize ≠ 0
  · rw [if_pos part]
    simp only [lxPageSize, addresses]
    omega
  · rw [if_neg part]
    simp only [lxPageSize, addresses] at part ⊢
    omega

/-- What an operating system promises about a mapping: it starts with a page. -/
def MmapAligned (mmap : Mmap) : Prop :=
  ∀ i base size addr, mmap i base size = some addr → addr % lxPageSize = 0

/-- A mapping has whole pages behind its address, up to its end. -/
theorem mapObject_pages (aligned : MmapAligned mmap) {i : Nat} {mapping : LxMapping}
    (mapped : mapObject image mmap i obj = .mapped mapping) :
    mapping.vsize % lxPageSize = 0 ∧ mapping.vsize < addresses ∧
      mapping.mapped ≤ mapping.addr ∧
      mapping.addr + mapping.vsize = mapping.mapped + mapping.size := by
  obtain ⟨pages, small⟩ := roundedSize_pages obj.virtual_size
  simp only [mapObject] at mapped
  by_cases large : obj.needs_1616_alias ∧ 0x10000 < roundedSize obj.virtual_size
  · rw [if_pos large] at mapped
    cases mapped
  rw [if_neg large] at mapped
  generalize (if image.isDLL = true then 0 else obj.reloc_base_addr.toNat) = base at mapped
  generalize vsize_eq : (if obj.needs_1616_alias = true ∧ image.isDLL = true then
    (roundedSize obj.virtual_size + 0x10000) % addresses
    else roundedSize obj.virtual_size) = vsize at mapped
  have vsize_pages : vsize % lxPageSize = 0 ∧ vsize < addresses := by
    rw [← vsize_eq]
    split
    · simp only [lxPageSize, addresses] at pages ⊢
      omega
    · exact ⟨pages, small⟩
  cases answer : mmap i base vsize with
  | none =>
    rw [answer] at mapped
    cases mapped
  | some mmapaddr =>
    have page := aligned i base vsize mmapaddr answer
    simp only [answer] at mapped
    by_cases shifted : obj.needs_1616_alias = true ∧ mmapaddr % 0x10000 ≠ 0
    · rw [if_pos shifted] at mapped
      by_cases dll : image.isDLL = true
      · -- The mapping was made larger by what it may have to be moved by.
        rw [if_pos dll] at mapped
        cases mapped
        have room : 0x10000 ≤ vsize := by
          rw [← vsize_eq, if_pos ⟨shifted.1, dll⟩]
          have alias_small : ¬ 0x10000 < roundedSize obj.virtual_size :=
            fun too_large => large ⟨shifted.1, too_large⟩
          simp only [addresses]
          omega
        simp only [uint32Sub, lxPageSize, addresses] at vsize_pages page ⊢
        omega
      · rw [if_neg dll] at mapped
        cases mapped
    · rw [if_neg shifted] at mapped
      cases mapped
      exact ⟨vsize_pages.1, vsize_pages.2, Nat.le_refl _, rfl⟩

/-- An object was mapped, and its pages can all be unpacked, or it is not loaded at all. -/
def ObjectLoads (i : Nat) : Prop :=
  obj.object_flags &&& 0x8#32 ≠ 0 ∨
    ∃ mapping, mapObject image mmap i obj = .mapped mapping ∧
      ∀ k < obj.num_page_table_entries.toNat,
        PageUnpacks image (objectPage image obj k) ∧ ¬ PageOverflows image (objectPage image obj k)

/--
The pages of an object, and the data of its preloaded pages, are not larger than its mapping, if
they can all be unpacked; and no page that is unpacked has a product that is too large.
-/
def ObjectFits (i : Nat) : Prop :=
  obj.object_flags &&& 0x8#32 = 0 →
    ∀ mapping, mapObject image mmap i obj = .mapped mapping →
      (∀ k < obj.num_page_table_entries.toNat,
        (∀ j < k, PageUnpacks image (objectPage image obj j)) →
          ¬ PageOverflows image (objectPage image obj k)) ∧
      ((∀ k < obj.num_page_table_entries.toNat, PageUnpacks image (objectPage image obj k)) →
        obj.num_page_table_entries.toNat * lxPageSize ≤ mapping.vsize ∧
        ∀ k < obj.num_page_table_entries.toNat, (objectPage image obj k).flags.toNat = 0 →
          k * lxPageSize + (objectPage image obj k).data_size.toNat ≤ mapping.vsize)

end Objects

/--
An object is not loaded, or what is written is its mapping from its address to the end, and all of
it is.
-/
def ObjectOutcome.Inside : ObjectOutcome → Prop
  | .loaded mapping memory =>
    mapping.mapped ≤ mapping.addr ∧
      mapping.addr + mapping.vsize = mapping.mapped + mapping.size ∧
      ∀ place < addresses, (memory place).written = true ↔ place < mapping.vsize
  | .overflow | .outside => False
  | .skipped | .failed | .aborted => True

/-- The extents of pages and the rest of a mapping are all of it, exactly if the pages fit. -/
theorem extents_iff {vsize pages : Nat} (extent : Nat → Nat) {written : Nat → Prop}
    (whole : vsize % lxPageSize = 0) (small : vsize < addresses)
    (covers : ∀ k, lxPageSize ≤ extent k)
    (marks : ∀ place, written place ↔
      (∃ k < pages, behind (k * lxPageSize % addresses) place < extent k) ∨
        behind (pages * lxPageSize % addresses) place <
          uint32Sub vsize (pages * lxPageSize % addresses)) :
    (∀ place < addresses, written place ↔ place < vsize) ↔
      pages * lxPageSize ≤ vsize ∧ ∀ k < pages, k * lxPageSize + extent k ≤ vsize := by
  constructor
  · intro inside
    -- The place behind the mapping is not written.
    have free : ¬ written vsize := fun reached => by
      have below := (inside vsize small).mp reached
      omega
    have pages_le : pages * lxPageSize ≤ vsize := by
      by_contra larger
      apply free
      rw [marks]
      have start : vsize / lxPageSize * lxPageSize = vsize :=
        Nat.div_mul_cancel (Nat.dvd_of_mod_eq_zero whole)
      refine .inl ⟨vsize / lxPageSize, ?_, ?_⟩
      · rw [← start] at larger
        exact Nat.lt_of_mul_lt_mul_right (Nat.lt_of_not_le larger)
      · have covered := covers (vsize / lxPageSize)
        rw [start, Nat.mod_eq_of_lt small, behind_of_le (Nat.le_refl _) small, Nat.sub_self]
        exact Nat.lt_of_lt_of_le (by decide) covered
    refine ⟨pages_le, ?_⟩
    intro k below
    have start_le : k * lxPageSize ≤ pages * lxPageSize := Nat.mul_le_mul_right _ (by omega)
    by_contra larger
    apply free
    rw [marks]
    refine .inl ⟨k, below, ?_⟩
    rw [Nat.mod_eq_of_lt (by omega), behind_of_le (by omega) small]
    omega
  · intro fits place place_lt
    obtain ⟨pages_le, extents⟩ := fits
    have dst_eq : pages * lxPageSize % addresses = pages * lxPageSize :=
      Nat.mod_eq_of_lt (by omega)
    have remain : uint32Sub vsize (pages * lxPageSize) = vsize - pages * lxPageSize := by
      simp only [uint32Sub, addresses] at small ⊢
      omega
    rw [marks, dst_eq, remain]
    constructor
    · intro either
      rcases either with ⟨k, below, near⟩ | near
      · have extent_le := extents k below
        rw [Nat.mod_eq_of_lt (by omega)] at near
        by_cases front : k * lxPageSize ≤ place
        · rw [behind_of_le front place_lt] at near
          omega
        · rw [behind_of_lt (by omega)] at near
          omega
      · by_cases front : pages * lxPageSize ≤ place
        · rw [behind_of_le front place_lt] at near
          omega
        · rw [behind_of_lt (by omega)] at near
          omega
    · intro inside
      by_cases front : pages * lxPageSize ≤ place
      · right
        rw [behind_of_le front place_lt]
        omega
      · -- The place is within one of the pages.
        left
        have page_le : place / lxPageSize * lxPageSize ≤ place := Nat.div_mul_le_self _ _
        have page_lt : place < (place / lxPageSize + 1) * lxPageSize :=
          Nat.lt_mul_of_div_lt (Nat.lt_succ_self _) (by decide)
        have covered := covers (place / lxPageSize)
        refine ⟨place / lxPageSize, ?_, ?_⟩
        · exact Nat.div_lt_of_lt_mul (by rw [Nat.mul_comm]; omega)
        · rw [Nat.mod_eq_of_lt (by omega), behind_of_le page_le place_lt]
          rw [Nat.succ_mul] at page_lt
          omega

/-- A page has at least its own size. -/
theorem pageExtent_covers (page : LxObjectPageTableEntry) : lxPageSize ≤ pageExtent page := by
  rw [pageExtent]
  split
  · exact Nat.le_max_left _ _
  · exact Nat.le_refl _

/-- Pages that are written in full end within a mapping exactly if their data do. -/
theorem extents_fit {page : Nat → LxObjectPageTableEntry} {pages vsize : Nat}
    (pages_le : pages * lxPageSize ≤ vsize) :
    (∀ k < pages, k * lxPageSize + pageExtent (page k) ≤ vsize) ↔
      ∀ k < pages, (page k).flags.toNat = 0 →
        k * lxPageSize + (page k).data_size.toNat ≤ vsize := by
  constructor
  · intro extents k below preload
    have extent := extents k below
    rw [pageExtent, if_pos preload] at extent
    have data_le := Nat.le_max_right lxPageSize (page k).data_size.toNat
    omega
  · intro data k below
    have page_le : (k + 1) * lxPageSize ≤ pages * lxPageSize := Nat.mul_le_mul_right _ below
    rw [Nat.succ_mul] at page_le
    rw [pageExtent]
    split
    · rename_i preload
      have data_le := data k below preload
      omega
    · omega

section Loading

variable (image : PagedImage) (mmap : Mmap)

/-- An object that is not mapped is not loaded. -/
theorem unmapped_fits (obj : LxObjectTableEntry) {i : Nat}
    (unmapped : ∀ mapping, mapObject image mmap i obj ≠ .mapped mapping) :
    ObjectFits image mmap obj i :=
  fun _ mapping mapped => absurd mapped (unmapped mapping)

/-- An object that is loaded stays inside of its mapping and fills it, exactly if it fits. -/
theorem object_inside_iff (aligned : MmapAligned mmap) (i : Nat) (obj : LxObjectTableEntry) :
    (loadObject image mmap i obj).Inside ↔ ObjectFits image mmap obj i := by
  unfold loadObject
  by_cases resource : obj.object_flags &&& 0x8#32 ≠ 0
  · rw [if_pos resource]
    exact ⟨fun _ loaded => absurd loaded resource, fun _ => trivial⟩
  rw [if_neg resource]
  cases mapped : mapObject image mmap i obj with
  | failed =>
    exact ⟨fun _ => unmapped_fits image mmap obj (by rw [mapped]; simp), fun _ => trivial⟩
  | aborted =>
    exact ⟨fun _ => unmapped_fits image mmap obj (by rw [mapped]; simp), fun _ => trivial⟩
  | mapped mapping =>
    obtain ⟨whole, small, front, finish⟩ := mapObject_pages image mmap obj aligned mapped
    have fits_iff : ObjectFits image mmap obj i ↔
        (∀ k < obj.num_page_table_entries.toNat,
          (∀ j < k, PageUnpacks image (objectPage image obj j)) →
            ¬ PageOverflows image (objectPage image obj k)) ∧
        ((∀ k < obj.num_page_table_entries.toNat, PageUnpacks image (objectPage image obj k)) →
          obj.num_page_table_entries.toNat * lxPageSize ≤ mapping.vsize ∧
          ∀ k < obj.num_page_table_entries.toNat, (objectPage image obj k).flags.toNat = 0 →
            k * lxPageSize + (objectPage image obj k).data_size.toNat ≤ mapping.vsize) := by
      constructor
      · intro fits
        exact fits (not_not.mp resource) mapping mapped
      · intro fits _ other found
        obtain rfl := MapOutcome.mapped.inj (mapped.symm.trans found)
        exact fits
    rw [fits_iff]
    have come := fillPages_come image obj obj.num_page_table_entries.toNat 0
      (fun _ => ⟨0, false⟩)
    rw [Nat.zero_mul, Nat.zero_mod] at come
    simp only
    generalize fillPages image obj obj.num_page_table_entries.toNat 0 0 _ = outcome at come
    cases come with
    | overflow k from_here within unpack overflows =>
      refine ⟨False.elim, fun fits => ?_⟩
      exact fits.1 k (by omega) (fun j before => unpack j (Nat.zero_le _) before) overflows
    | refused k from_here within unpack small_there unfit =>
      refine ⟨fun _ => ⟨?_, fun all => absurd (all k (by omega)) unfit⟩, fun _ => trivial⟩
      -- No page behind the one that is refused is reached.
      intro other below reached
      rcases Nat.lt_trichotomy other k with before | same | later
      · exact unpack other (Nat.zero_le _) before
      · exact same ▸ small_there
      · exact absurd (reached k later) unfit
    | filled after unpack marks =>
      have all : ∀ k < obj.num_page_table_entries.toNat,
          PageUnpacks image (objectPage image obj k) ∧
            ¬ PageOverflows image (objectPage image obj k) :=
        fun k below => unpack k (Nat.zero_le _) (by omega)
      have pages_marks : ∀ place, (after place).written = true ↔
          ∃ k < obj.num_page_table_entries.toNat,
            behind (k * lxPageSize % addresses) place < pageExtent (objectPage image obj k) := by
        intro place
        rw [marks place, Nat.zero_add]
        simp
      rw [and_iff_right fun k below _ => (all k below).2,
        forall_prop_of_true fun k below => (all k below).1]
      rw [ObjectOutcome.Inside, and_iff_right front, and_iff_right finish]
      rw [extents_iff (fun k => pageExtent (objectPage image obj k)) whole small
        (fun k => pageExtent_covers _)]
      · exact and_congr_right fun pages_le => extents_fit pages_le
      · intro place
        rw [← pages_marks place]
        by_cases remain : uint32Sub mapping.vsize
            (obj.num_page_table_entries.toNat * lxPageSize % addresses) ≠ 0
        · rw [if_pos remain]
          exact fillMemory_marks _ _ _ _ place
        · rw [if_neg remain, not_not.mp remain]
          simp

/-- Loading goes on behind an object exactly if it is loaded, or skipped. -/
theorem loadObject_loads (i : Nat) (obj : LxObjectTableEntry) :
    ObjectLoads image mmap obj i ↔ loadObject image mmap i obj = .skipped ∨
      ∃ mapping memory, loadObject image mmap i obj = .loaded mapping memory := by
  unfold loadObject ObjectLoads
  by_cases resource : obj.object_flags &&& 0x8#32 ≠ 0
  · rw [if_pos resource]
    exact ⟨fun _ => .inl rfl, fun _ => .inl resource⟩
  rw [if_neg resource]
  cases mapped : mapObject image mmap i obj with
  | failed => simpa using resource
  | aborted => simpa using resource
  | mapped mapping =>
    have come := fillPages_come image obj obj.num_page_table_entries.toNat 0
      (fun _ => ⟨0, false⟩)
    rw [Nat.zero_mul, Nat.zero_mod] at come
    simp only
    generalize fillPages image obj obj.num_page_table_entries.toNat 0 0 _ = outcome at come
    cases come with
    | overflow k from_here within unpack overflows =>
      simp only [resource, false_or, reduceCtorEq, exists_false, iff_false]
      intro loads
      obtain ⟨_, _, all⟩ := loads
      exact (all k (by omega)).2 overflows
    | refused k from_here within unpack small unfit =>
      simp only [resource, false_or, reduceCtorEq, exists_false, iff_false]
      intro loads
      obtain ⟨_, _, all⟩ := loads
      exact unfit (all k (by omega)).1
    | filled after unpack marks =>
      refine ⟨fun _ => .inr ⟨mapping, _, rfl⟩, fun _ => .inr ⟨mapping, rfl, ?_⟩⟩
      exact fun k below => unpack k (Nat.zero_le _) (by omega)

/-- What comes of the objects behind one is asked only if it is loaded, or skipped. -/
theorem loadObjects_cons (start : Nat) (obj : LxObjectTableEntry)
    (objects : List LxObjectTableEntry) :
    (∀ outcome ∈ loadObjects image mmap start (obj :: objects), outcome.Inside) ↔
      (loadObject image mmap start obj).Inside ∧
        (ObjectLoads image mmap obj start →
          ∀ outcome ∈ loadObjects image mmap (start + 1) objects, outcome.Inside) := by
  rw [loadObject_loads, loadObjects]
  cases loadObject image mmap start obj <;> simp

/-- The objects of a table are loaded one after the other, until one is not. -/
theorem objects_inside_from (aligned : MmapAligned mmap) (objects : List LxObjectTableEntry) :
    ∀ start, (∀ outcome ∈ loadObjects image mmap start objects, outcome.Inside) ↔
      ∀ i obj, objects[i]? = some obj →
        (∀ j < i, ∀ other, objects[j]? = some other →
          ObjectLoads image mmap other (start + j)) →
        ObjectFits image mmap obj (start + i) := by
  induction objects with
  | nil =>
    intro start
    simp [loadObjects]
  | cons first objects ih =>
    intro start
    rw [loadObjects_cons, object_inside_iff image mmap aligned, ih (start + 1)]
    constructor
    · intro both i obj found reached
      cases i with
      | zero =>
        obtain rfl := Option.some.inj found
        exact both.1
      | succ i =>
        have loads := reached 0 (by omega) first rfl
        have fits := both.2 loads i obj found fun j below other found_other => by
          rw [Nat.add_right_comm]
          exact reached (j + 1) (by omega) other found_other
        rw [Nat.add_right_comm] at fits
        exact fits
    · intro all
      refine ⟨all 0 first rfl fun j below => by omega, ?_⟩
      intro loads i obj found reached
      have fits := all (i + 1) obj found fun j below other found_other => by
        cases j with
        | zero =>
          obtain rfl := Option.some.inj found_other
          exact loads
        | succ j =>
          have earlier := reached j (by omega) other found_other
          rw [Nat.add_right_comm] at earlier
          exact earlier
      rw [Nat.add_right_comm]
      exact fits

end Loading

/-- A system that maps objects where they are asked for, and others where there is room. -/
def plainMmap : Mmap := fun i base size =>
  if size = 0 ∨ base % lxPageSize ≠ 0 then none
  else some (if base = 0 then 0x20000000 + i * 0x1000000 else base)

/-- The mappings start with a page. -/
theorem plainMmap_aligned : MmapAligned plainMmap := by
  intro i base size addr answer
  simp only [plainMmap, Option.ite_none_left_eq_some, Option.some.injEq] at answer
  obtain ⟨page, rfl⟩ := answer
  simp only [lxPageSize] at page ⊢
  split <;> omega

/-- A module whose pages are all filled with zeros. -/
def zeroImage : PagedImage where
  isDLL := false
  page_offset_shift := 0
  data_pages_offset := 0
  object_page_table := fun _ => ⟨0, 0, 3⟩
  origexe := fun _ => 0

/-- An object of one page for which so many pages are listed. -/
def onePageObject (pages : BitVec 32) : LxObjectTableEntry where
  virtual_size := 0x1000
  reloc_base_addr := 0x10000
  object_flags := 0
  page_table_index := 1
  num_page_table_entries := pages

end TwoIne
