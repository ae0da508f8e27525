import TwoIne.Lib.LinkWalks
import TwoIne.Proofs.LxLoader.NeFixups

/-! When following a chain of sources comes to an end, however the sources overlap. -/

namespace TwoIne

open ByteBlocks LinkWalks Patches

/-- The byte at a place of a segment, as a number. -/
def segmentByte (dst : List UInt8) (place : Nat) : Nat := (dst[place]?.getD 0).toNat

section Chains

variable {srctype : UInt8} {target : BitVec 32} {size start : Nat} {dst after bytes : List UInt8}

/-- The link of a source is what its two bytes say. -/
theorem load_link (inside : start + 2 ≤ dst.length) :
    ∃ source, loadBytes dst start 2 = some source ∧
      littleEndian source = link (segmentByte dst) start := by
  have first : start < dst.length := by omega
  have second : start + 1 < dst.length := by omega
  have both : (dst.drop start).take 2 = [dst[start], dst[start + 1]] := by
    rw [List.drop_eq_getElem_cons first, List.drop_eq_getElem_cons second]
    rfl
  refine ⟨_, by rw [loadBytes, if_pos inside, both], ?_⟩
  simp only [littleEndian_cons, littleEndian_nil, link, segmentByte,
    List.getElem?_eq_getElem first, List.getElem?_eq_getElem second, Option.getD_some]
  omega

/-- Storing bytes in a segment writes them as numbers. -/
theorem segmentByte_stored (stored : StoredAt dst start bytes after) :
    segmentByte after = put (segmentByte dst) start (bytes.map UInt8.toNat) := by
  funext k
  unfold put segmentByte
  by_cases behind : start ≤ k
  · obtain ⟨j, rfl⟩ := Nat.exists_eq_add_of_le behind
    rw [if_pos behind, Nat.add_sub_cancel_left, List.getElem?_map]
    by_cases inside : j < bytes.length
    · rw [stored.stored j inside, List.getElem?_eq_getElem inside]
      rfl
    · have none_there : bytes[j]? = none := List.getElem?_eq_none (Nat.not_lt.mp inside)
      rw [stored.others _ (by omega), none_there]
      rfl
  · rw [if_neg behind, stored.others _ (by omega)]

/-- A chain is followed to its end if the walk along its links ends. -/
theorem patchNeChain_of_ends (narrow : neWidth srctype ≤ 2) (small : size < neSegmentSpace)
    {memory : Nat → Nat}
    (ends : Ends size ((neBytes srctype target).map UInt8.toNat) start memory) :
    ∀ {dst : List UInt8}, dst.length = neSegmentSpace → segmentByte dst = memory →
      ∃ fuel after, patchNeChain srctype target size fuel start dst = .ok after := by
  induction ends with
  | left outside => exact fun {dst} _ _ => ⟨1, dst, if_neg (Nat.not_lt.mpr outside)⟩
  | @next place memory later ih =>
    intro dst length same
    by_cases inside : place < size
    · obtain ⟨source, loaded, linked⟩ := load_link (by omega : place + 2 ≤ dst.length)
      have width := neBytes_length srctype target
      have room : place + (neBytes srctype target).length ≤ dst.length := by omega
      obtain ⟨next, done, stored⟩ := storeBytes_inside room
      obtain ⟨fuel, after, ran⟩ := ih (stored.length.trans length)
        (by rw [segmentByte_stored stored, same])
      refine ⟨fuel + 1, after, ?_⟩
      rw [patchNeChain, if_pos inside, loaded]
      simp only [done]
      rw [linked, same]
      exact ran
    · exact ⟨1, dst, if_neg inside⟩

/-- A chain that is followed to its end is a walk that ends. -/
theorem ends_of_patchNeChain (narrow : neWidth srctype ≤ 2) (small : size < neSegmentSpace)
    {fuel : Nat} :
    ∀ {start : Nat} {dst after : List UInt8}, dst.length = neSegmentSpace →
      patchNeChain srctype target size fuel start dst = .ok after →
      Ends size ((neBytes srctype target).map UInt8.toNat) start (segmentByte dst) := by
  induction fuel with
  | zero => exact fun _ ran => nomatch ran
  | succ fuel ih =>
    intro start dst after length ran
    by_cases inside : start < size
    · obtain ⟨source, loaded, linked⟩ := load_link (by omega : start + 2 ≤ dst.length)
      have width := neBytes_length srctype target
      have room : start + (neBytes srctype target).length ≤ dst.length := by omega
      obtain ⟨next, done, stored⟩ := storeBytes_inside room
      rw [patchNeChain, if_pos inside, loaded] at ran
      simp only [done, linked] at ran
      have later := ih (stored.length.trans length) ran
      rw [segmentByte_stored stored] at later
      exact .next later
    · exact .left (Nat.not_lt.mp inside)

/-- A segment with the link to a place at this place, which is what is written there. -/
theorem selfLink_exists (narrow : neWidth srctype = 1 ∨ neWidth srctype = 2)
    (inside : littleEndian (neBytes srctype target) < size) (small : size < neSegmentSpace) :
    ∃ dst : List UInt8, dst.length = neSegmentSpace ∧
      ¬ Ends size ((neBytes srctype target).map UInt8.toNat)
        (littleEndian (neBytes srctype target)) (segmentByte dst) := by
  have width := neBytes_length srctype target
  have room : littleEndian (neBytes srctype target) + (neBytes srctype target).length ≤
      (List.replicate neSegmentSpace (0 : UInt8)).length := by
    rw [List.length_replicate]
    omega
  obtain ⟨dst, _, stored⟩ := storeBytes_inside room
  refine ⟨dst, stored.length.trans List.length_replicate, ?_⟩
  rw [segmentByte_stored stored]
  have zeros : segmentByte (List.replicate neSegmentSpace 0) = fun _ => 0 := by
    funext k
    unfold segmentByte
    rw [List.getElem?_replicate]
    split <;> rfl
  rw [zeros]
  -- What is written there is what was stored there, so the walk stays where it is.
  rcases narrow with one | two
  · obtain ⟨low, same⟩ := List.length_eq_one_iff.mp (width.trans one)
    rw [same] at inside ⊢
    refine stays inside ?_ ?_
    · simp [link, put_byte]
    · funext k
      simp only [List.map_cons, List.map_nil, put_byte]
      split <;> rfl
  · obtain ⟨low, high, same⟩ := List.length_eq_two.mp (width.trans two)
    rw [same] at inside ⊢
    refine stays inside ?_ ?_
    · simp [link, put_word]
    · funext k
      simp only [List.map_cons, List.map_nil, put_word]
      split
      · rfl
      · split <;> rfl

/-- The walk along the links of a chain ends if what is written there leads out as a link. -/
theorem narrow_ends (narrow : neWidth srctype = 1 ∨ neWidth srctype = 2)
    (out : size ≤ littleEndian (neBytes srctype target)) (memory : Nat → Nat) (start : Nat) :
    Ends size ((neBytes srctype target).map UInt8.toNat) start memory := by
  have width := neBytes_length srctype target
  rcases narrow with one | two
  · obtain ⟨low, same⟩ := List.length_eq_one_iff.mp (width.trans one)
    rw [same] at out ⊢
    exact byte_ends (by simpa using out) memory start
  · obtain ⟨low, high, same⟩ := List.length_eq_two.mp (width.trans two)
    rw [same] at out ⊢
    exact word_ends (by simpa using out) memory start

/--
Every chain of sources of one or two bytes, wherever it starts and whatever the segment contains, is
followed to an end, if and only if what is written leads out of the segment as a link.
-/
theorem every_chain_ends_iff (narrow : neWidth srctype = 1 ∨ neWidth srctype = 2)
    (small : size < neSegmentSpace) :
    (∀ (dst : List UInt8) (start : Nat), dst.length = neSegmentSpace →
      ∃ fuel after, patchNeChain srctype target size fuel start dst = .ok after) ↔
    size ≤ littleEndian (neBytes srctype target) := by
  have width : neWidth srctype ≤ 2 := by omega
  constructor
  · intro always
    by_contra inside
    obtain ⟨dst, length, forever⟩ := selfLink_exists narrow (Nat.not_le.mp inside) small
    obtain ⟨fuel, after, ran⟩ := always dst _ length
    exact forever (ends_of_patchNeChain width small length ran)
  · intro out dst start length
    exact patchNeChain_of_ends width small (narrow_ends narrow out _ start) length rfl

/-- An offset of 0xFFFF in a segment of the largest size that can be said. -/
theorem highest_offset_ends :
    (∀ (dst : List UInt8) (start : Nat), dst.length = neSegmentSpace →
      ∃ fuel after, patchNeChain 5 0xFFFF 0xFFFF fuel start dst = .ok after) ↔
    0xFFFF ≤ littleEndian (neBytes 5 0xFFFF) :=
  every_chain_ends_iff (.inr (by decide)) (by decide)

end Chains

end TwoIne
