import Mathlib.Data.List.Perm.Subperm
import TwoIne.Lib.Chains
import TwoIne.Lib.Outcomes
import TwoIne.Lib.Patches
import TwoIne.LxLoader.NeFixups
import TwoIne.Proofs.LxLoader.Fixups
import TwoIne.Proofs.LxLoader.Iterated

/-!
A segment whose sources are chained through the places that are still open is fixed up to what it
should contain.
-/

namespace TwoIne

open Buffers ByteBlocks Chains Outcomes Patches

/-- Where a chain goes on, unless it has left the segment. -/
def linkTo (size place : Nat) : Option Nat := if place < size then some place else none

/-- Where the chain goes on behind a source. -/
def chainLink (size : Nat) (dst : List UInt8) (source : Nat) : Option (Option Nat) :=
  (loadBytes dst source 2).map fun link => linkTo size (littleEndian link)

/-- A record, and all sources that it is for. -/
structure NeRelocation where
  fixup : NeFixup
  sources : List Nat
  deriving DecidableEq, Repr

/-- The bytes that a record is stored in. -/
def NeFixup.encode (fixup : NeFixup) : List UInt8 :=
  fixup.srctype :: fixup.flags :: (littleBytes 2 fixup.srcchain_offset.toNat ++
    (littleBytes 2 fixup.target.toNat ++ littleBytes 2 fixup.offset.toNat))

/-- The bytes that are read of a source, as part of the chain or to be added to. -/
def NeRelocation.readSites (relocation : NeRelocation) : List Site :=
  relocation.sources.map fun source =>
    (source, if relocation.fixup.additive then neWidth relocation.fixup.srctype
      else max 2 (neWidth relocation.fixup.srctype))

/-- The bytes that are written of a source. -/
def NeRelocation.sites (relocation : NeRelocation) : List Site :=
  relocation.sources.map fun source => (source, neWidth relocation.fixup.srctype)

/--
The sources of a record stand for its value: what they are fixed up to is in the contents, and
their chain or what the value is added to is in the segment.
-/
def NeRelocation.Linked (relocation : NeRelocation) (size : Nat) (memory content : List UInt8) :
    Option (BitVec 32) → Prop
  | none => relocation.sources = []
  | some target =>
    if relocation.fixup.additive then
      ∃ source, relocation.sources = [relocation.fixup.srcchain_offset.toNat] ∧
        loadBytes memory relocation.fixup.srcchain_offset.toNat
          (neWidth relocation.fixup.srctype) = some source ∧
        HasAt content relocation.fixup.srcchain_offset.toNat
          (addFields (neFields relocation.fixup.srctype target) source)
    else
      Chain (chainLink size memory) (linkTo size relocation.fixup.srcchain_offset.toNat)
          relocation.sources ∧
        ∀ source ∈ relocation.sources,
          HasAt content source (neBytes relocation.fixup.srctype target)

section Sources

variable {srctype : UInt8} {target : BitVec 32} {size : Nat} {content : List UInt8}

/-- All values take the same number of bytes of a source. -/
theorem neBytes_length (srctype : UInt8) (target : BitVec 32) :
    (neBytes srctype target).length = neWidth srctype := by
  unfold neWidth neBytes neFields
  split <;> rfl

/-- Adding to fields leaves them as long as they are. -/
theorem addFields_length (fields : List (Nat × Nat)) (source : List UInt8) :
    (addFields fields source).length =
      (fields.flatMap fun (width, value) => littleBytes width value).length := by
  induction fields generalizing source with
  | nil => rfl
  | cons field fields ih =>
    rw [addFields, List.length_append, ih, List.flatMap_cons, List.length_append,
      littleBytes_length, littleBytes_length]

/-- A chain whose sources are apart is patched to its end. -/
theorem patchNeChain_restores {sources : List Nat} :
    ∀ {start fuel : Nat} {dst : List UInt8} {others : List Site},
      Chain (chainLink size dst) (linkTo size start) sources →
      (sources.map fun source => (source, max 2 (neWidth srctype))).Pairwise Apart →
      AgreeOff (OpenAt (sources.map (fun source => (source, neWidth srctype)) ++ others))
        dst content →
      (∀ source ∈ sources, HasAt content source (neBytes srctype target)) →
      sources.length < fuel →
      ∃ after, patchNeChain srctype target size fuel start dst = .ok after ∧
        AgreeOff (OpenAt others) after content ∧
        ∀ site : Site, (∀ source ∈ sources, Apart (source, neWidth srctype) site) →
          loadBytes after site.1 site.2 = loadBytes dst site.1 site.2 := by
  -- The induction follows the chain, whose links are read before they are patched.
  induction sources with
  | nil =>
    intro start fuel dst others chain _ agree _ enough
    have left : ¬ start < size := fun inside => by
      have ended : linkTo size start = none := chain
      rw [linkTo, if_pos inside] at ended
      cases ended
    obtain ⟨fuel, rfl⟩ := Nat.exists_eq_add_of_lt enough
    refine ⟨dst, ?_, by simpa using agree, fun _ _ => rfl⟩
    rw [patchNeChain, if_neg left]
  | cons source sources ih =>
    intro start fuel dst others chain apart agree has enough
    obtain ⟨head, r, linked, rest⟩ := chain
    have inside : start < size ∧ start = source := by
      unfold linkTo at head
      split at head
      · rename_i inside
        exact ⟨inside, Option.some.inj head⟩
      · cases head
    obtain ⟨inside, rfl⟩ := inside
    obtain ⟨link, loaded, next⟩ := Option.map_eq_some_iff.mp linked
    have here := has start List.mem_cons_self
    have width := neBytes_length srctype target
    obtain ⟨dst', done, stored⟩ := agree.storable here
    rw [List.map_cons, List.pairwise_cons] at apart
    -- The other sources are not touched.
    have away : ∀ other ∈ sources, Apart (start, neWidth srctype) (other, 2) := fun other member =>
      ((apart.1 _ (List.mem_map_of_mem member)).shorter (Nat.le_max_right _ _)).symm.shorter
        (Nat.le_max_left _ _) |>.symm
    have same : ∀ other ∈ sources, chainLink size dst' other = chainLink size dst other := by
      intro other member
      have read := loadBytes_apart (other, 2) stored (by
        rw [width]
        exact away other member)
      unfold chainLink
      rw [read]
    have agree' : AgreeOff (OpenAt (sources.map (fun source => (source, neWidth srctype)) ++
        others)) dst' content := by
      rw [List.map_cons, List.cons_append, ← width] at agree
      rw [← width]
      exact agree.store here stored
    obtain ⟨fuel, rfl⟩ := Nat.exists_eq_add_of_lt enough
    have chain : Chain (chainLink size dst') (linkTo size (littleEndian link)) sources :=
      next ▸ rest.frame same
    have enough : sources.length < sources.length + 1 + fuel := by omega
    obtain ⟨after, patched, restored, frame⟩ := ih chain apart.2 agree'
      (fun other member => has other (List.mem_cons_of_mem _ member)) enough
    refine ⟨after, ?_, restored, fun site apart => ?_⟩
    · rw [List.length_cons, patchNeChain, if_pos inside, loaded]
      simp only [done]
      exact patched
    · rw [frame site fun other member => apart other (List.mem_cons_of_mem _ member)]
      exact loadBytes_apart site stored (by
        rw [width]
        exact apart start List.mem_cons_self)

/-- What a value is added to is found where it was read. -/
theorem addNeSource_restores {place : Nat} {dst source : List UInt8} {others : List Site}
    (loaded : loadBytes dst place (neWidth srctype) = some source)
    (agree : AgreeOff (OpenAt ((place, neWidth srctype) :: others)) dst content)
    (has : HasAt content place (addFields (neFields srctype target) source)) :
    ∃ after, addNeSource srctype target place dst = .ok after ∧
      AgreeOff (OpenAt others) after content ∧
      ∀ site : Site, Apart (place, neWidth srctype) site →
        loadBytes after site.1 site.2 = loadBytes dst site.1 site.2 := by
  have width : (addFields (neFields srctype target) source).length = neWidth srctype := by
    rw [addFields_length]
    exact neBytes_length srctype target
  obtain ⟨after, done, stored⟩ := agree.storable has
  refine ⟨after, ?_, ?_, fun site apart => loadBytes_apart site stored (by rw [width]; exact apart)⟩
  · rw [addNeSource, loaded]
    simp only [done]
  · rw [← width] at agree
    exact agree.store has stored

/-- A chain of sources stays inside of the segment. -/
theorem chain_inside {dst : List UInt8} {sources : List Nat} :
    ∀ {start : Nat}, Chain (chainLink size dst) (linkTo size start) sources →
      ∀ source ∈ sources, source < size := by
  induction sources with
  | nil => exact fun _ source member => nomatch member
  | cons first sources ih =>
    intro start chain source member
    obtain ⟨head, r, linked, rest⟩ := chain
    rcases List.mem_cons.mp member with rfl | member
    · unfold linkTo at head
      split at head
      · rename_i inside
        exact Option.some.inj head ▸ inside
      · cases head
    · obtain ⟨link, _, next⟩ := Option.map_eq_some_iff.mp linked
      have rest : Chain (chainLink size dst) (linkTo size (littleEndian link)) sources :=
        next ▸ rest
      exact ih rest source member

/-- There are no more sources that are apart than there are places. -/
theorem sources_length {sources : List Nat} {width : Nat} (positive : 0 < width)
    (apart : (sources.map fun source => (source, width)).Pairwise Apart)
    (inside : ∀ source ∈ sources, source < size) : sources.length ≤ size := by
  have distinct : sources.Nodup := by
    refine (List.pairwise_map.mp apart).imp fun {a b} apart same => ?_
    simp only [Apart, same] at apart
    omega
  have places : sources ⊆ List.range size := fun source member =>
    List.mem_range.mpr (inside source member)
  have bound := (distinct.subperm places).length_le
  rwa [List.length_range] at bound

end Sources

section Relocations

variable {relocation : NeRelocation} {size fuel : Nat} {dst after content : List UInt8}
  {value : Option (BitVec 32)} {others : List Site}

/-- What is written of a source is read, too. -/
theorem NeRelocation.sites_short {site : Site} (member : site ∈ relocation.sites) :
    ∃ read ∈ relocation.readSites, read.1 = site.1 ∧ site.2 ≤ read.2 := by
  obtain ⟨source, listed, rfl⟩ := List.mem_map.mp member
  refine ⟨_, List.mem_map.mpr ⟨source, listed, rfl⟩, rfl, ?_⟩
  dsimp only
  split
  · exact Nat.le_refl _
  · exact Nat.le_max_right _ _

/-- A record is linked as long as what is read of its sources is as it was. -/
theorem NeRelocation.Linked.frame (linked : relocation.Linked size dst content value)
    (same : ∀ read ∈ relocation.readSites, ∀ count ≤ read.2,
      loadBytes after read.1 count = loadBytes dst read.1 count) :
    relocation.Linked size after content value := by
  cases value with
  | none => exact linked
  | some target =>
    simp only [NeRelocation.Linked, NeRelocation.readSites, List.forall_mem_map] at linked same ⊢
    by_cases additive : relocation.fixup.additive = true
    · simp only [if_pos additive] at linked same ⊢
      obtain ⟨source, only, loaded, has⟩ := linked
      refine ⟨source, only, ?_, has⟩
      rw [same _ (by rw [only]; exact List.mem_singleton_self _) _ (Nat.le_refl _)]
      exact loaded
    · simp only [if_neg additive] at linked same ⊢
      refine ⟨linked.1.frame fun source member => ?_, linked.2⟩
      rw [chainLink, chainLink, same source member 2 (Nat.le_max_left _ _)]

/-- Applying a record closes its sources. -/
theorem NeRelocation.apply_restores (linked : relocation.Linked size dst content value)
    (apart : relocation.readSites.Pairwise Apart)
    (agree : AgreeOff (OpenAt (relocation.sites ++ others)) dst content) (enough : size < fuel) :
    ∃ after, relocation.fixup.apply size fuel value dst = .ok after ∧
      AgreeOff (OpenAt others) after content ∧
      ∀ site : Site, (∀ written ∈ relocation.sites, Apart written site) →
        loadBytes after site.1 site.2 = loadBytes dst site.1 site.2 := by
  cases value with
  | none =>
    have none_there : relocation.sources = [] := linked
    rw [NeRelocation.sites, none_there] at agree
    exact ⟨dst, rfl, agree, fun _ _ => rfl⟩
  | some target =>
    simp only [NeRelocation.Linked, NeRelocation.readSites, NeRelocation.sites,
      List.forall_mem_map, NeFixup.apply] at linked apart agree ⊢
    by_cases additive : relocation.fixup.additive = true
    · simp only [if_pos additive] at linked ⊢
      obtain ⟨source, only, loaded, has⟩ := linked
      rw [only] at agree ⊢
      obtain ⟨after, added, restored, frame⟩ := addNeSource_restores loaded agree has
      exact ⟨after, added, restored, fun site apart =>
        frame site (apart _ (List.mem_singleton_self _))⟩
    · simp only [if_neg additive] at linked apart ⊢
      have inside := chain_inside linked.1
      have count := sources_length (by omega) apart inside
      exact patchNeChain_restores linked.1 apart agree linked.2 (by omega)

end Relocations

/-- The values of records one after another. -/
def neTargets (env : NeFixupEnv) :
    LdtState → List NeFixup → Except NeFixupStop (LdtState × List (Option (BitVec 32)))
  | s, [] => .ok (s, [])
  | s, fixup :: fixups => do
    let (s, value) ← neTarget env s fixup
    let (s, values) ← neTargets env s fixups
    return (s, value :: values)

/-- A record is read as it was stored. -/
theorem readNeFixup_encode (fixup : NeFixup) (rest : List UInt8) :
    readNeFixup (fixup.encode ++ rest) = .ok (fixup, rest) := by
  have read : ∀ word : BitVec 16,
      BitVec.ofNat 16 (littleEndian (littleBytes 2 word.toNat)) = word := by
    intro word
    have small : word.toNat < 256 ^ 2 := word.isLt
    rw [littleEndian_littleBytes, Nat.mod_eq_of_lt small, BitVec.ofNat_toNat, BitVec.setWidth_eq]
  have first := read fixup.srcchain_offset
  have second := read fixup.target
  have third := read fixup.offset
  simp only [littleBytes] at first second third
  simp only [NeFixup.encode, littleBytes, List.cons_append, List.nil_append, readNeFixup, first,
    second, third]

/-- The records of a segment are applied one after another. -/
theorem fixupNeRecords_restores {env : NeFixupEnv} {size fuel : Nat} {content rest : List UInt8}
    (enough : size < fuel) {relocations : List NeRelocation} :
    ∀ {s s' : LdtState} {values : List (Option (BitVec 32))} {dst : List UInt8},
      neTargets env s (relocations.map NeRelocation.fixup) = .ok (s', values) →
      List.Forall₂ (fun relocation value => relocation.Linked size dst content value)
        relocations values →
      (relocations.flatMap NeRelocation.readSites).Pairwise Apart →
      AgreeOff (OpenAt (relocations.flatMap NeRelocation.sites)) dst content →
      fixupNeRecords env size fuel relocations.length
        ((relocations.map NeRelocation.fixup).flatMap NeFixup.encode ++ rest) s dst =
          .ok (s', content) := by
  -- A record leaves what is read for the records behind it as it was.
  induction relocations with
  | nil =>
    intro s s' values dst resolved _ _ agree
    cases resolved
    rw [List.length_nil, fixupNeRecords, agree.closed]
  | cons relocation relocations ih =>
    intro s s' values dst resolved linked apart agree
    rw [List.map_cons, neTargets] at resolved
    obtain ⟨⟨t, value⟩, first, resolved⟩ := bind_ok.mp resolved
    obtain ⟨⟨u, others⟩, behind, resolved⟩ := bind_ok.mp resolved
    cases resolved
    obtain ⟨linked, linked_behind⟩ := List.forall₂_cons.mp linked
    rw [List.flatMap_cons, List.pairwise_append] at apart
    obtain ⟨apart, apart_behind, between⟩ := apart
    obtain ⟨after, applied, restored, frame⟩ := relocation.apply_restores linked apart agree enough
    have linked_after : List.Forall₂
        (fun relocation value => relocation.Linked size after content value) relocations others := by
      refine ((List.forall₂_and_left _ _).mpr ⟨fun _ member => member, linked_behind⟩).imp ?_
      rintro other value ⟨member, linked⟩
      refine linked.frame fun read there count short => ?_
      refine frame (read.1, count) fun written wrote => ?_
      obtain ⟨site, member', start, short'⟩ := relocation.sites_short wrote
      have away := between site member' read (List.mem_flatMap.mpr ⟨other, member, there⟩)
      simp only [Apart] at away ⊢
      omega
    rw [List.length_cons, List.map_cons, List.flatMap_cons, List.append_assoc, fixupNeRecords]
    simp only [readNeFixup_encode, first, applied, bind, Except.bind]
    exact ih behind linked_after apart_behind restored

end TwoIne
