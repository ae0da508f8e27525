import TwoIne.Debugger.DebugAranges
import TwoIne.Lib.Frames
import TwoIne.LxLoader.Numbers
import TwoIne.Proofs.Debugger.LineReaders

/-!
The two passes over the address ranges agree with the units of the section, and so with each other,
exactly if the length of no unit wraps around.
-/

namespace TwoIne

open Regions Leb128 Frames

/-! The units and the entries that a section holds -/

/-- The number of bytes of the unit that data begin with, zero for what is none. -/
def arangesUnitSize (data : List UInt8) : Nat :=
  if data.length < 12 ∨ littleEndian (data.take 4) = 0 then 0 else 4 + littleEndian (data.take 4)

/-- The size of the addresses of a unit. -/
def unitAddrSize (unit : List UInt8) : Nat := (unit[10]?.getD 0).toNat

/-- The size of the segments of a unit. -/
def unitSegSize (unit : List UInt8) : Nat := (unit[11]?.getD 0).toNat

/-- The entry that data begin with. -/
def entryAt (addrSize segSize : Nat) (data : List UInt8) : ArangesEntry where
  addr := littleEndian (data.take addrSize)
  seg := littleEndian ((data.drop addrSize).take segSize)
  len := littleEndian ((data.drop (addrSize + segSize)).take addrSize)

/-- The number of bytes of the entry that data begin with, zero for a terminator. -/
def entrySize (addrSize segSize : Nat) (data : List UInt8) : Nat :=
  if data.length < addrSize + segSize + addrSize ∨ entryAt addrSize segSize data = .terminator then 0
  else addrSize + segSize + addrSize

/-- The entries of data, up to the first terminator. -/
def dataEntries (addrSize segSize : Nat) (data : List UInt8) : List ArangesEntry :=
  (frames (entrySize addrSize segSize) data).map (entryAt addrSize segSize)

/-- The entries of a unit. -/
def unitRanges (unit : List UInt8) : List ArangesEntry :=
  dataEntries (unitAddrSize unit) (unitSegSize unit) (unit.drop 12)

/-- Where units stand that follow each other, and their lengths as they are written. -/
def unitPlaces : Nat → List (List UInt8) → List (Nat × Nat)
  | _, [] => []
  | start, unit :: units => (start, unit.length - 4) :: unitPlaces (start + unit.length) units

/--
What the two passes have to do: they come to an end inside the section, the units are those of the
section, and the entries of the units are counted and stored in their order.

The second pass may leave out units at the end that have no entry.
-/
structure ArangesRight (sec : Region) (counted : RangeCount) (stored : RangeStore) : Prop where
  counts : ∃ enough, ∀ steps ≥ enough, countSection sec steps = .ok counted
  stores : ∃ enough, ∀ steps ≥ enough,
    storeSection sec steps counted.totalRangeCount = .ok stored
  units : counted.accepted.units = unitPlaces sec.base (frames arangesUnitSize sec.bytes)
  sameUnits : stored.accepted.units <+: counted.accepted.units
  entries : counted.accepted.entries = (frames arangesUnitSize sec.bytes).flatMap unitRanges
  sameEntries : stored.accepted.entries = counted.accepted.entries
  count : counted.totalRangeCount = stored.accepted.entries.length
  index : stored.idx = counted.totalRangeCount
  ranges : stored.ranges = counted.accepted.entries.map ArangesEntry.range

/-- Where the units of a section end, the length that is written there does not wrap around. -/
def LengthsFit (sec : Region) : Prop :=
  12 ≤ (behind arangesUnitSize sec.bytes).length →
    sec.finish - (behind arangesUnitSize sec.bytes).length + 4 +
      littleEndian ((behind arangesUnitSize sec.bytes).take 4) < addresses

instance (sec : Region) : Decidable (LengthsFit sec) := inferInstanceAs (Decidable (_ → _))

/-- The sizes of the fields of the units are at most four. -/
def SmallFields (units : List (List UInt8)) : Prop :=
  ∀ unit ∈ units, unitAddrSize unit ≤ 4 ∧ unitSegSize unit ≤ 4

section Fields

variable {sec : Region} {p : Nat} {addrSize segSize : Nat} {data rest : List UInt8}

/-- The bytes of a field are put together. -/
theorem readField_value {front field : List UInt8} (holds : Holds sec p (front ++ (field ++ rest)))
    (small : front.length + field.length ≤ 4) {value : Nat} (below : value < 256 ^ front.length) :
    readField sec p field.length front.length value =
      .ok (value + 256 ^ front.length * littleEndian field) := by
  -- Each byte is put on top of those in front of it.
  induction field generalizing front value with
  | nil =>
    rw [littleEndian_nil, Nat.mul_zero]
    rfl
  | cons byte field ih =>
    rw [List.length_cons] at small
    have byte_at : readByte sec (advance p front.length) = .ok byte := by
      refine readByte_at holds ?_
      rw [List.getElem?_append_right (Nat.le_refl _), Nat.sub_self]
      rfl
    have power : 256 ^ front.length = 2 ^ (8 * front.length) := by rw [Nat.pow_mul]
    have byte_lt : byte.toNat < 256 := UInt8.toNat_lt _
    have next_power : 256 ^ (front.length + 1) = 256 * 256 ^ front.length := by
      rw [Nat.pow_succ, Nat.mul_comm]
    have grown : value + byte.toNat * 256 ^ front.length < 256 ^ (front.length + 1) := by
      have top := Nat.mul_le_mul_right (256 ^ front.length) (Nat.le_of_lt_succ byte_lt)
      rw [next_power]
      have more := Nat.succ_mul 255 (256 ^ front.length)
      omega
    have word : 256 ^ (front.length + 1) ≤ 2 ^ 32 := by
      have four : (2 : Nat) ^ 32 = 256 ^ 4 := by decide
      rw [four]
      exact Nat.pow_le_pow_right (by decide) (by omega)
    have put : value ||| (byte.toNat <<< (8 * front.length)) % 0x100000000 =
        value + byte.toNat * 256 ^ front.length := by
      have fits : 8 * front.length ≤ 32 := by omega
      have accumulated := accumulate byte.toNat fits (power ▸ below)
      rw [← power, Nat.mod_eq_of_lt (Nat.lt_of_lt_of_le grown word)] at accumulated
      exact accumulated
    have whole : Holds sec p ((front ++ [byte]) ++ (field ++ rest)) := by
      rw [List.append_assoc]
      exact holds
    have size : (front ++ [byte]).length = front.length + 1 := List.length_append
    have next := ih whole (by omega) (by rw [size]; exact grown)
    rw [size] at next
    rw [List.length_cons, readField, if_neg (by omega), byte_at]
    simp only [bind, Except.bind]
    rw [put, next, littleEndian_cons, next_power]
    congr 1
    rw [Nat.mul_add, Nat.mul_comm (256 ^ front.length) byte.toNat, Nat.mul_assoc 256,
      Nat.mul_left_comm, Nat.add_assoc]

/-- The field at the front of data is read. -/
theorem readField_front (holds : Holds sec p data) {size : Nat} (inside : size ≤ data.length)
    (small : size ≤ 4) : readField sec p size 0 0 = .ok (littleEndian (data.take size)) := by
  have length : (data.take size).length = size := List.length_take_of_le inside
  have split : Holds sec p ([] ++ (data.take size ++ data.drop size)) := by
    rw [List.nil_append, List.take_append_drop]
    exact holds
  have value := readField_value split (by rw [length, List.length_nil]; omega) Nat.one_pos
  rw [length, List.length_nil] at value
  rw [value, Nat.pow_zero, Nat.one_mul, Nat.zero_add]

/-- What is behind some of the data. -/
theorem holds_drop (holds : Holds sec p data) {n : Nat} (inside : n ≤ data.length) :
    Holds sec (p + n) (data.drop n) ∧ advance p n = p + n := by
  have split : Holds sec p (data.take n ++ data.drop n) := by
    rw [List.take_append_drop]
    exact holds
  have behind := split.behind
  rw [List.length_take_of_le inside] at behind
  exact ⟨behind, holds.advance inside⟩

/-- The entry at the front of data is read. -/
theorem readEntry_front (holds : Holds sec p data)
    (inside : addrSize + segSize + addrSize ≤ data.length) (addr_small : addrSize ≤ 4)
    (seg_small : segSize ≤ 4) :
    readEntry sec addrSize segSize p =
      .ok (entryAt addrSize segSize data, p + (addrSize + segSize + addrSize)) := by
  -- The three fields stand one behind the other.
  have addr_inside : addrSize ≤ data.length := by omega
  obtain ⟨seg_at, to_seg⟩ := holds_drop holds addr_inside
  have seg_inside : segSize ≤ (data.drop addrSize).length := by
    rw [List.length_drop]
    omega
  obtain ⟨len_at, to_len⟩ := holds_drop seg_at seg_inside
  have len_inside : addrSize ≤ ((data.drop addrSize).drop segSize).length := by
    rw [List.length_drop, List.length_drop]
    omega
  obtain ⟨_, to_end⟩ := holds_drop len_at len_inside
  have addr := readField_front holds addr_inside addr_small
  have seg := readField_front seg_at seg_inside seg_small
  have len := readField_front len_at len_inside addr_small
  rw [readEntry, addr]
  simp only [bind, Except.bind, pure, Except.pure]
  rw [to_seg, seg]
  dsimp only
  rw [to_len, len]
  dsimp only
  rw [to_end, List.drop_drop, entryAt, Nat.add_assoc, Nat.add_assoc, Nat.add_assoc]

/-- The length at the front of data is read. -/
theorem readU32Le_front (holds : Holds sec p data) (inside : 4 ≤ data.length) :
    readU32Le sec p = .ok (littleEndian (data.take 4)) := by
  have size : (data.take 4).length = 4 := List.length_take_of_le inside
  have split : Holds sec p (data.take 4 ++ data.drop 4) := by
    rw [List.take_append_drop]
    exact holds
  match bytes : data.take 4, size with
  | [b0, b1, b2, b3], _ =>
    rw [bytes] at split
    have low0 : b0.toNat < 256 := UInt8.toNat_lt _
    have low1 : b1.toNat < 256 := UInt8.toNat_lt _
    have low2 : b2.toNat < 256 := UInt8.toNat_lt _
    have low3 : b3.toNat < 256 := UInt8.toNat_lt _
    obtain ⟨value, is_value⟩ : ∃ value : BitVec 32,
        value.toNat = littleEndian [b0, b1, b2, b3] := by
      refine ⟨BitVec.ofNat 32 (littleEndian [b0, b1, b2, b3]), ?_⟩
      simp only [littleEndian_cons, littleEndian_nil, BitVec.toNat_ofNat]
      omega
    have written : DwarfLines.le32 value = [b0, b1, b2, b3] := by
      simp only [littleEndian_cons, littleEndian_nil] at is_value
      simp only [DwarfLines.le32, List.cons.injEq, and_true, ← UInt8.toNat_inj, Nat.toUInt8,
        UInt8.toNat_ofNat']
      omega
    rw [← written] at split
    rw [readU32Le_holds split, is_value]

end Fields

section Entries

variable {sec : Region} {p unitEnd : Nat} {addrSize segSize : Nat} {data : List UInt8}

/-- Where data stand at the end of which a unit or the section ends. -/
def UpTo (sec : Region) (p stop : Nat) (data : List UInt8) : Prop :=
  Holds sec p data ∧ p + data.length = stop

/-- Data from a place on go up to the same end. -/
theorem UpTo.drop {stop : Nat} (upto : UpTo sec p stop data) {n : Nat} (inside : n ≤ data.length) :
    UpTo sec (p + n) stop (data.drop n) ∧ advance p n = p + n := by
  obtain ⟨holds, last⟩ := upto
  obtain ⟨behind, moved⟩ := holds_drop holds inside
  exact ⟨⟨behind, by rw [List.length_drop]; omega⟩, moved⟩

/-- An entry fits if there are enough bytes for it. -/
theorem entryFits_iff (upto : UpTo sec p unitEnd data) (addr_small : addrSize ≤ 4)
    (seg_small : segSize ≤ 4) :
    entryFits addrSize segSize unitEnd p ↔ addrSize + segSize + addrSize ≤ data.length := by
  -- Behind the section there is room for the pointer.
  have bound := upto.1.bound.2
  have fits := sec.fits
  have last := upto.2
  simp only [Region.finish] at bound
  unfold entryFits
  rw [advance_advance, advance_advance, advance, Nat.mod_eq_of_lt (by omega)]
  omega

/-- Data with another entry. -/
theorem begins_entry_iff :
    Begins (entrySize addrSize segSize) data ↔
      addrSize + segSize + addrSize ≤ data.length ∧
        entryAt addrSize segSize data ≠ .terminator := by
  unfold Begins entrySize
  by_cases short : data.length < addrSize + segSize + addrSize
  · rw [if_pos (Or.inl short)]
    omega
  by_cases last : entryAt addrSize segSize data = .terminator
  · rw [if_pos (Or.inr last)]
    exact ⟨fun none => absurd none.1 (Nat.lt_irrefl 0), fun entry => absurd last entry.2⟩
  rw [if_neg (not_or.mpr ⟨short, last⟩)]
  refine ⟨fun begins => ⟨begins.2, last⟩, fun entry => ⟨?_, entry.1⟩⟩
  -- An entry without any bytes would be a terminator.
  by_contra none
  have no_addr : addrSize = 0 := by omega
  have no_seg : segSize = 0 := by omega
  apply last
  rw [no_addr, no_seg]
  rfl

/-- The size of the entry that data begin with. -/
theorem entrySize_begins (begins : Begins (entrySize addrSize segSize) data) :
    entrySize addrSize segSize data = addrSize + segSize + addrSize := by
  obtain ⟨inside, other⟩ := begins_entry_iff.mp begins
  rw [entrySize, if_neg (not_or.mpr ⟨Nat.not_lt.mpr inside, other⟩)]

/-- An entry is found at the front of its own bytes. -/
theorem entryAt_take (addrSize segSize : Nat) (data : List UInt8) :
    entryAt addrSize segSize (data.take (addrSize + segSize + addrSize)) =
      entryAt addrSize segSize data := by
  unfold entryAt
  rw [List.take_take, List.drop_take, List.take_take, List.drop_take, List.take_take]
  congr 2
  · congr 1
    omega
  · congr 1
    omega
  · congr 1
    omega

/-- The first entry of data, and the others. -/
theorem dataEntries_begins (begins : Begins (entrySize addrSize segSize) data) :
    dataEntries addrSize segSize data =
      entryAt addrSize segSize data ::
        dataEntries addrSize segSize (data.drop (addrSize + segSize + addrSize)) := by
  rw [dataEntries, frames_begins begins, List.map_cons, entrySize_begins begins, entryAt_take]
  rfl

/-- Data without an entry. -/
theorem dataEntries_ends (ends : ¬ Begins (entrySize addrSize segSize) data) :
    dataEntries addrSize segSize data = [] := by
  rw [dataEntries, frames_ends ends]
  rfl

/-- The count with entries more. -/
def RangeCount.plus (count : RangeCount) (entries : List ArangesEntry) : RangeCount where
  totalRangeCount := count.totalRangeCount + entries.length
  accepted := { count.accepted with entries := count.accepted.entries ++ entries }

/-- The first pass counts the entries of a unit. -/
theorem countRanges_data (addr_small : addrSize ≤ 4) (seg_small : segSize ≤ 4) (data : List UInt8) :
    ∀ p steps count, UpTo sec p unitEnd data → data.length < steps →
      countRanges sec addrSize segSize unitEnd steps p count =
        .ok (count.plus (dataEntries addrSize segSize data)) := by
  induction data using induct (entrySize addrSize segSize) with
  | ends data ends =>
    intro p steps count upto enough
    obtain ⟨steps, rfl⟩ := Nat.exists_eq_succ_of_ne_zero (Nat.ne_zero_of_lt enough)
    have same : count.plus (dataEntries addrSize segSize data) = count := by
      rw [dataEntries_ends ends, RangeCount.plus, List.length_nil, List.append_nil, Nat.add_zero]
    rw [countRanges, same]
    have fits := entryFits_iff upto addr_small seg_small
    by_cases room : addrSize + segSize + addrSize ≤ data.length
    · -- The entry that is read is a terminator.
      have last : entryAt addrSize segSize data = .terminator := by
        by_contra other
        exact ends (begins_entry_iff.mpr ⟨room, other⟩)
      rw [if_pos (fits.mpr room), readEntry_front upto.1 room addr_small seg_small]
      simp only [bind, Except.bind, last, if_pos]
      rfl
    · rw [if_neg (fun other => room (fits.mp other))]
  | begins data begins ih =>
    intro p steps count upto enough
    obtain ⟨steps, rfl⟩ := Nat.exists_eq_succ_of_ne_zero (Nat.ne_zero_of_lt enough)
    obtain ⟨room, other⟩ := begins_entry_iff.mp begins
    have fits := entryFits_iff upto addr_small seg_small
    have shorter := begins.shorter
    rw [entrySize_begins begins] at ih shorter
    rw [countRanges, if_pos (fits.mpr room), readEntry_front upto.1 room addr_small seg_small]
    simp only [bind, Except.bind, if_neg other]
    rw [ih _ steps _ (upto.drop room).1 (by omega), dataEntries_begins begins]
    simp only [RangeCount.plus, List.length_cons, List.append_assoc, List.singleton_append]
    congr 2
    omega

/-- A unit that is too short for its header has no entries. -/
theorem entryFits_short {unitEnd : Nat} (short : unitEnd < p) (bound : p ≤ sec.finish)
    (addr_byte : addrSize < 256) (seg_byte : segSize < 256) :
    ¬ entryFits addrSize segSize unitEnd p := by
  have fits := sec.fits
  simp only [Region.finish] at bound
  unfold entryFits
  rw [advance_advance, advance_advance, advance, Nat.mod_eq_of_lt (by omega)]
  omega

/-- The table with the entries stored so far, and nothing behind them. -/
structure Filled (total : Nat) (t : RangeStore) : Prop where
  idx : t.idx = t.accepted.entries.length
  ranges : t.ranges = t.accepted.entries.map ArangesEntry.range ++
    List.replicate (total - t.idx) ⟨0, 0, 0⟩
  within : t.idx ≤ total

/-- An entry is stored behind those before. -/
theorem storeRange_filled {total : Nat} {t : RangeStore} (filled : Filled total t)
    (room : t.idx < total) (entry : ArangesEntry) :
    ∃ after, storeRange entry t = .ok after ∧ Filled total after ∧
      after.accepted = { t.accepted with entries := t.accepted.entries ++ [entry] } := by
  have idx := filled.idx
  have size : t.ranges.length = total := by
    rw [filled.ranges, List.length_append, List.length_map, List.length_replicate]
    omega
  refine ⟨_, if_pos (by omega), ⟨?_, ?_, room⟩, rfl⟩
  · show t.idx + 1 = (t.accepted.entries ++ [entry]).length
    rw [List.length_append, List.length_singleton, idx]
  · obtain ⟨left, is_left⟩ : ∃ left, total - t.idx = left + 1 := ⟨total - t.idx - 1, by omega⟩
    have place : (t.accepted.entries.map ArangesEntry.range).length = t.idx := by
      rw [List.length_map, idx]
    show t.ranges.set t.idx entry.range =
      (t.accepted.entries ++ [entry]).map ArangesEntry.range ++
        List.replicate (total - (t.idx + 1)) ⟨0, 0, 0⟩
    have rest : total - (t.idx + 1) = left := by omega
    rw [filled.ranges, is_left, rest, ← place, List.set_append_right _ _ (Nat.le_refl _),
      Nat.sub_self, List.replicate_succ, List.set_cons_zero, List.map_append, List.append_assoc]
    rfl

/-- The second pass stores the entries of a unit. -/
theorem storeRanges_data {total : Nat} (addr_small : addrSize ≤ 4) (seg_small : segSize ≤ 4)
    (data : List UInt8) :
    ∀ p t, UpTo sec p unitEnd data → Filled total t →
      t.idx + (dataEntries addrSize segSize data).length ≤ total →
      ∃ after, (∀ steps > data.length,
          storeRanges sec addrSize segSize unitEnd total steps p t = .ok after) ∧
        Filled total after ∧ after.accepted.units = t.accepted.units ∧
        after.accepted.entries = t.accepted.entries ++ dataEntries addrSize segSize data := by
  induction data using induct (entrySize addrSize segSize) with
  | ends data ends =>
    intro p t upto filled _
    refine ⟨t, fun steps enough => ?_, filled, rfl, ?_⟩
    · obtain ⟨steps, rfl⟩ := Nat.exists_eq_succ_of_ne_zero (Nat.ne_zero_of_lt enough)
      rw [storeRanges]
      have fits := entryFits_iff upto addr_small seg_small
      by_cases room : addrSize + segSize + addrSize ≤ data.length ∧ t.idx < total
      · -- The entry that is read is a terminator.
        have last : entryAt addrSize segSize data = .terminator := by
          by_contra other
          exact ends (begins_entry_iff.mpr ⟨room.1, other⟩)
        rw [if_pos ⟨fits.mpr room.1, room.2⟩, readEntry_front upto.1 room.1 addr_small seg_small]
        simp only [bind, Except.bind, last, if_pos]
        rfl
      · rw [if_neg (fun other => room ⟨fits.mp other.1, other.2⟩)]
    · rw [dataEntries_ends ends, List.append_nil]
  | begins data begins ih =>
    intro p t upto filled counted
    obtain ⟨room, other⟩ := begins_entry_iff.mp begins
    have fits := entryFits_iff upto addr_small seg_small
    have shorter := begins.shorter
    rw [entrySize_begins begins] at ih shorter
    rw [dataEntries_begins begins, List.length_cons] at counted
    have free : t.idx < total := by omega
    obtain ⟨next, stored, next_filled, accepted⟩ :=
      storeRange_filled filled free (entryAt addrSize segSize data)
    have one_more : next.idx = t.idx + 1 := by
      rw [next_filled.idx, accepted, List.length_append, ← filled.idx]
      rfl
    obtain ⟨after, run, after_filled, units, entries⟩ :=
      ih _ next (upto.drop room).1 next_filled (by omega)
    refine ⟨after, fun steps enough => ?_, after_filled, ?_, ?_⟩
    · obtain ⟨steps, rfl⟩ := Nat.exists_eq_succ_of_ne_zero (Nat.ne_zero_of_lt enough)
      rw [storeRanges, if_pos ⟨fits.mpr room, free⟩,
        readEntry_front upto.1 room addr_small seg_small]
      simp only [bind, Except.bind, if_neg other]
      rw [stored]
      exact run steps (by omega)
    · rw [units, accepted]
    · rw [entries, accepted, dataEntries_begins begins, List.append_assoc, List.singleton_append]

end Entries

section Units

variable {sec : Region} {cursor : Nat} {data : List UInt8}

/-- Data with another unit. -/
theorem begins_unit_iff :
    Begins arangesUnitSize data ↔ 12 ≤ data.length ∧ littleEndian (data.take 4) ≠ 0 ∧
      4 + littleEndian (data.take 4) ≤ data.length := by
  unfold Begins arangesUnitSize
  by_cases none : data.length < 12 ∨ littleEndian (data.take 4) = 0
  · rw [if_pos none]
    omega
  · rw [if_neg none]
    omega

/-- The size of the unit that data begin with. -/
theorem unitSize_begins (begins : Begins arangesUnitSize data) :
    arangesUnitSize data = 4 + littleEndian (data.take 4) := by
  obtain ⟨inside, some_length, _⟩ := begins_unit_iff.mp begins
  rw [arangesUnitSize, if_neg (by omega)]

/-- What the passes find of a unit in the section. -/
structure AtUnit (sec : Region) (cursor : Nat) (data : List UInt8) : Prop where
  header : advance cursor 12 ≤ sec.finish
  length : readU32Le sec cursor = .ok (littleEndian (data.take 4))
  some_length : littleEndian (data.take 4) ≠ 0
  next : advance cursor (4 + littleEndian (data.take 4)) = cursor + arangesUnitSize data
  within : cursor + arangesUnitSize data ≤ sec.finish
  fields : ∃ addrSize segSize : UInt8, readByte sec (advance cursor 10) = .ok addrSize ∧
    readByte sec (advance cursor 11) = .ok segSize ∧
    (12 ≤ arangesUnitSize data →
      addrSize.toNat = unitAddrSize (data.take (arangesUnitSize data)) ∧
      segSize.toNat = unitSegSize (data.take (arangesUnitSize data)))
  entries : advance cursor 12 = cursor + 12

/-- The header at the front of data that are long enough for one. -/
theorem header_iff (upto : UpTo sec cursor sec.finish data) :
    advance cursor 12 ≤ sec.finish ↔ 12 ≤ data.length := by
  have fits := sec.fits
  have last := upto.2
  have bound := upto.1.bound.2
  simp only [Region.finish] at bound last ⊢
  rw [advance, Nat.mod_eq_of_lt (by omega)]
  omega

/-- A unit that data begin with is found. -/
theorem atUnit (upto : UpTo sec cursor sec.finish data) (begins : Begins arangesUnitSize data) :
    AtUnit sec cursor data := by
  obtain ⟨inside, some_length, whole⟩ := begins_unit_iff.mp begins
  have size := unitSize_begins begins
  have last := upto.2
  refine ⟨(header_iff upto).mpr inside, readU32Le_front upto.1 (by omega), some_length, ?_, by omega,
    ?_, upto.1.advance inside⟩
  · rw [upto.1.advance whole, size]
  · obtain ⟨addrSize, addr_at⟩ : ∃ addrSize, data[10]? = some addrSize :=
      ⟨_, List.getElem?_eq_getElem (by omega)⟩
    obtain ⟨segSize, seg_at⟩ : ∃ segSize, data[11]? = some segSize :=
      ⟨_, List.getElem?_eq_getElem (by omega)⟩
    refine ⟨addrSize, segSize, readByte_at upto.1 addr_at, readByte_at upto.1 seg_at, ?_⟩
    intro header
    rw [unitAddrSize, unitSegSize, List.getElem?_take_of_lt (by omega), addr_at,
      List.getElem?_take_of_lt (by omega), seg_at]
    exact ⟨rfl, rfl⟩

/-- The first unit of a section, and the others. -/
theorem unitPlaces_begins (begins : Begins arangesUnitSize data) (start : Nat) :
    unitPlaces start (frames arangesUnitSize data) =
      (start, littleEndian (data.take 4)) ::
        unitPlaces (start + arangesUnitSize data)
          (frames arangesUnitSize (data.drop (arangesUnitSize data))) := by
  have size := unitSize_begins begins
  rw [frames_begins begins, unitPlaces, List.length_take_of_le begins.2, size,
    Nat.add_sub_cancel_left]

/-- A section without a unit has no places of units. -/
theorem unitPlaces_ends (ends : ¬ Begins arangesUnitSize data) (start : Nat) :
    unitPlaces start (frames arangesUnitSize data) = [] := by
  rw [frames_ends ends, unitPlaces]

/-- The entries of a unit that is too short for its header. -/
theorem unitRanges_short {unit : List UInt8} (short : unit.length ≤ 12) : unitRanges unit = [] := by
  have nothing : unit.drop 12 = [] := List.drop_eq_nil_of_le short
  have empty : entryAt (unitAddrSize unit) (unitSegSize unit) [] = .terminator := by
    simp [entryAt, ArangesEntry.terminator]
  rw [unitRanges, nothing]
  exact dataEntries_ends fun begins => (begins_entry_iff.mp begins).2 empty

/-- The entries of a unit stand behind its header. -/
theorem unit_body (upto : UpTo sec cursor sec.finish data) (begins : Begins arangesUnitSize data)
    (header : 12 ≤ arangesUnitSize data) :
    UpTo sec (cursor + 12) (cursor + arangesUnitSize data)
      ((data.take (arangesUnitSize data)).drop 12) := by
  have length : (data.take (arangesUnitSize data)).length = arangesUnitSize data :=
    List.length_take_of_le begins.2
  have split : Holds sec cursor (data.take (arangesUnitSize data) ++
      data.drop (arangesUnitSize data)) := by
    rw [List.take_append_drop]
    exact upto.1
  have whole : UpTo sec cursor (cursor + arangesUnitSize data)
      (data.take (arangesUnitSize data)) := ⟨split.front, by rw [length]⟩
  exact (whole.drop (by rw [length]; exact header)).1

/-- No entry fits in a unit that is too short for its header. -/
theorem unit_outside (upto : UpTo sec cursor sec.finish data) (begins : Begins arangesUnitSize data)
    (short : arangesUnitSize data < 12) (addrSize segSize : UInt8) :
    ¬ entryFits addrSize.toNat segSize.toNat (cursor + arangesUnitSize data) (cursor + 12) := by
  have inside := (begins_unit_iff.mp begins).1
  have last := upto.2
  have behind_unit : cursor + arangesUnitSize data < cursor + 12 := by omega
  have in_section : cursor + 12 ≤ sec.finish := by omega
  exact entryFits_short behind_unit in_section addrSize.toNat_lt segSize.toNat_lt

/-- The first pass counts the entries of a unit that it has found. -/
theorem countRanges_unit (upto : UpTo sec cursor sec.finish data)
    (begins : Begins arangesUnitSize data) {addrSize segSize : UInt8}
    (fields : 12 ≤ arangesUnitSize data →
      addrSize.toNat = unitAddrSize (data.take (arangesUnitSize data)) ∧
      segSize.toNat = unitSegSize (data.take (arangesUnitSize data)))
    (small : unitAddrSize (data.take (arangesUnitSize data)) ≤ 4 ∧
      unitSegSize (data.take (arangesUnitSize data)) ≤ 4)
    {steps : Nat} (enough : data.length < steps) (count : RangeCount) :
    countRanges sec addrSize.toNat segSize.toNat (cursor + arangesUnitSize data) steps (cursor + 12)
        count =
      .ok (count.plus (unitRanges (data.take (arangesUnitSize data)))) := by
  have length : (data.take (arangesUnitSize data)).length = arangesUnitSize data :=
    List.length_take_of_le begins.2
  by_cases header : 12 ≤ arangesUnitSize data
  · obtain ⟨addr, seg⟩ := fields header
    rw [addr, seg]
    refine countRanges_data small.1 small.2 _ _ _ _ (unit_body upto begins header) ?_
    rw [List.length_drop, length]
    have whole := begins.2
    omega
  · obtain ⟨steps, rfl⟩ := Nat.exists_eq_succ_of_ne_zero (Nat.ne_zero_of_lt enough)
    have outside : ¬ entryFits addrSize.toNat segSize.toNat (cursor + arangesUnitSize data)
        (cursor + 12) := unit_outside upto begins (Nat.lt_of_not_le header) addrSize segSize
    rw [countRanges, if_neg outside, unitRanges_short (by omega), RangeCount.plus, List.length_nil,
      List.append_nil, Nat.add_zero]

/-- The second pass stores the entries of a unit that it has found. -/
theorem storeRanges_unit (upto : UpTo sec cursor sec.finish data)
    (begins : Begins arangesUnitSize data) {addrSize segSize : UInt8}
    (fields : 12 ≤ arangesUnitSize data →
      addrSize.toNat = unitAddrSize (data.take (arangesUnitSize data)) ∧
      segSize.toNat = unitSegSize (data.take (arangesUnitSize data)))
    (small : unitAddrSize (data.take (arangesUnitSize data)) ≤ 4 ∧
      unitSegSize (data.take (arangesUnitSize data)) ≤ 4)
    {total : Nat} {t : RangeStore} (filled : Filled total t)
    (counted : t.idx + (unitRanges (data.take (arangesUnitSize data))).length ≤ total) :
    ∃ after, (∀ steps > data.length, storeRanges sec addrSize.toNat segSize.toNat
        (cursor + arangesUnitSize data) total steps (cursor + 12) t = .ok after) ∧
      Filled total after ∧ after.accepted.units = t.accepted.units ∧
      after.accepted.entries =
        t.accepted.entries ++ unitRanges (data.take (arangesUnitSize data)) := by
  have length : (data.take (arangesUnitSize data)).length = arangesUnitSize data :=
    List.length_take_of_le begins.2
  by_cases header : 12 ≤ arangesUnitSize data
  · obtain ⟨addr, seg⟩ := fields header
    rw [addr, seg]
    obtain ⟨after, run, kept⟩ :=
      storeRanges_data small.1 small.2 _ _ t (unit_body upto begins header) filled counted
    refine ⟨after, fun steps enough => run steps ?_, kept⟩
    rw [List.length_drop, length]
    have whole := begins.2
    omega
  · have outside : ¬ entryFits addrSize.toNat segSize.toNat (cursor + arangesUnitSize data)
        (cursor + 12) := unit_outside upto begins (Nat.lt_of_not_le header) addrSize segSize
    refine ⟨t, fun steps enough => ?_, filled, rfl, ?_⟩
    · obtain ⟨steps, rfl⟩ := Nat.exists_eq_succ_of_ne_zero (Nat.ne_zero_of_lt enough)
      rw [storeRanges, if_neg (fun both => outside both.1)]
    · rw [unitRanges_short (by omega), List.append_nil]

/-- Where the units end, the length that is written does not wrap around. -/
def LengthFits (sec : Region) (data : List UInt8) : Prop :=
  12 ≤ (behind arangesUnitSize data).length →
    sec.finish - (behind arangesUnitSize data).length + 4 +
      littleEndian ((behind arangesUnitSize data).take 4) < addresses

/-- What the first pass adds to a count for units. -/
def RangeCount.units (count : RangeCount) (cursor : Nat) (units : List (List UInt8)) :
    RangeCount where
  totalRangeCount := count.totalRangeCount + (units.flatMap unitRanges).length
  accepted := ⟨count.accepted.units ++ unitPlaces cursor units,
    count.accepted.entries ++ units.flatMap unitRanges⟩

/-- Where the units end, a pass stops if the length that is written does not wrap around. -/
theorem stops_at_end (upto : UpTo sec cursor sec.finish data)
    (ends : ¬ Begins arangesUnitSize data) (fits : LengthFits sec data)
    (header : advance cursor 12 ≤ sec.finish) :
    readU32Le sec cursor = .ok (littleEndian (data.take 4)) ∧
      (littleEndian (data.take 4) = 0 ∨
        sec.finish < advance cursor (4 + littleEndian (data.take 4))) := by
  have inside := (header_iff upto).mp header
  have last := upto.2
  refine ⟨readU32Le_front upto.1 (by omega), ?_⟩
  by_contra stays
  rw [not_or] at stays
  have bound : sec.finish - data.length + 4 + littleEndian (data.take 4) < addresses := by
    have fits := fits
    rw [LengthFits, behind_ends ends] at fits
    exact fits inside
  have start : sec.finish - data.length = cursor := by omega
  rw [start] at bound
  rw [advance, Nat.mod_eq_of_lt (by omega)] at stays
  exact ends (begins_unit_iff.mpr ⟨inside, stays.1, by omega⟩)

/-- The first pass counts what the units of the section have. -/
theorem countAranges_units {steps : Nat} (data : List UInt8) :
    ∀ cursor left count, UpTo sec cursor sec.finish data → data.length < left →
      data.length < steps → SmallFields (frames arangesUnitSize data) → LengthFits sec data →
      countAranges sec steps left cursor count =
        .ok (count.units cursor (frames arangesUnitSize data)) := by
  induction data using induct arangesUnitSize with
  | ends data ends =>
    intro cursor left count upto enough _ _ fits
    obtain ⟨left, rfl⟩ := Nat.exists_eq_succ_of_ne_zero (Nat.ne_zero_of_lt enough)
    have same : count.units cursor (frames arangesUnitSize data) = count := by
      rw [RangeCount.units, unitPlaces_ends ends, frames_ends ends, List.flatMap_nil,
        List.length_nil, List.append_nil, List.append_nil, Nat.add_zero]
    rw [countAranges, same]
    by_cases header : advance cursor 12 ≤ sec.finish
    · obtain ⟨read, stops⟩ := stops_at_end upto ends fits header
      rw [if_pos header, read]
      simp only [bind, Except.bind]
      rw [if_pos stops]
      rfl
    · rw [if_neg header]
  | begins data begins ih =>
    intro cursor left count upto enough steps_enough small fits
    obtain ⟨left, rfl⟩ := Nat.exists_eq_succ_of_ne_zero (Nat.ne_zero_of_lt enough)
    have found := atUnit upto begins
    have finish := found.within
    obtain ⟨addrSize, segSize, addr, seg, fields⟩ := found.fields
    have shorter := begins.shorter
    rw [frames_begins begins] at small
    have small_unit := small _ List.mem_cons_self
    have unit := countRanges_unit upto begins fields small_unit steps_enough
      { count with accepted := count.accepted.unit cursor (littleEndian (data.take 4)) }
    have rest_fits : LengthFits sec (data.drop (arangesUnitSize data)) := by
      rw [LengthFits, ← behind_begins begins]
      exact fits
    have rest := ih (cursor + arangesUnitSize data) left
      (({ count with accepted := count.accepted.unit cursor (littleEndian (data.take 4)) } :
        RangeCount).plus (unitRanges (data.take (arangesUnitSize data))))
      (upto.drop begins.2).1 (by omega) (by omega)
      (fun unit member => small unit (List.mem_cons_of_mem _ member)) rest_fits
    rw [countAranges, if_pos found.header, found.length]
    simp only [bind, Except.bind]
    rw [if_neg (by rw [found.next]; exact not_or.mpr ⟨found.some_length, Nat.not_lt.mpr finish⟩),
      addr]
    dsimp only
    rw [seg, found.entries, found.next]
    dsimp only
    rw [unit]
    dsimp only
    rw [rest, RangeCount.units, RangeCount.units, unitPlaces_begins begins,
      frames_begins begins, List.flatMap_cons]
    simp only [RangeCount.plus, Accepted.unit, List.append_assoc, List.length_append,
      List.singleton_append, Nat.add_assoc]

/-- The second pass stores what the units of the section have. -/
theorem storeAranges_units {total : Nat} (data : List UInt8) :
    ∀ cursor t, UpTo sec cursor sec.finish data →
      SmallFields (frames arangesUnitSize data) → LengthFits sec data → Filled total t →
      t.idx + ((frames arangesUnitSize data).flatMap unitRanges).length = total →
      ∃ after, (∀ steps > data.length, ∀ left > data.length,
          storeAranges sec steps total left cursor t = .ok after) ∧ Filled total after ∧
        (∃ seen, seen <+: unitPlaces cursor (frames arangesUnitSize data) ∧
          after.accepted.units = t.accepted.units ++ seen) ∧
        after.accepted.entries =
          t.accepted.entries ++ (frames arangesUnitSize data).flatMap unitRanges := by
  induction data using induct arangesUnitSize with
  | ends data ends =>
    intro cursor t upto _ fits filled _
    refine ⟨t, fun steps _ left enough => ?_, filled,
      ⟨[], List.nil_prefix, (List.append_nil _).symm⟩, ?_⟩
    · obtain ⟨left, rfl⟩ := Nat.exists_eq_succ_of_ne_zero (Nat.ne_zero_of_lt enough)
      rw [storeAranges]
      by_cases header : advance cursor 12 ≤ sec.finish ∧ t.idx < total
      · obtain ⟨read, stops⟩ := stops_at_end upto ends fits header.1
        rw [if_pos header, read]
        simp only [bind, Except.bind]
        rw [if_pos stops]
        rfl
      · rw [if_neg header]
    · rw [frames_ends ends, List.flatMap_nil, List.append_nil]
  | begins data begins ih =>
    intro cursor t upto small fits filled counted
    have found := atUnit upto begins
    have finish := found.within
    obtain ⟨addrSize, segSize, addr, seg, fields⟩ := found.fields
    have shorter := begins.shorter
    rw [frames_begins begins] at small counted
    rw [List.flatMap_cons, List.length_append] at counted
    by_cases room : t.idx < total
    · have small_unit := small _ List.mem_cons_self
      have unit_filled : Filled total
          { t with accepted := t.accepted.unit cursor (littleEndian (data.take 4)) } :=
        ⟨filled.idx, filled.ranges, filled.within⟩
      obtain ⟨next, unit, next_filled, next_units, next_entries⟩ := storeRanges_unit upto begins
        fields small_unit unit_filled (by dsimp only; omega)
      have rest_fits : LengthFits sec (data.drop (arangesUnitSize data)) := by
        rw [LengthFits, ← behind_begins begins]
        exact fits
      have next_idx : next.idx =
          t.idx + (unitRanges (data.take (arangesUnitSize data))).length := by
        rw [next_filled.idx, next_entries, List.length_append, filled.idx]
        rfl
      obtain ⟨after, rest, after_filled, ⟨seen, places, units⟩, entries⟩ :=
        ih (cursor + arangesUnitSize data) next (upto.drop begins.2).1
          (fun unit member => small unit (List.mem_cons_of_mem _ member)) rest_fits next_filled
          (by omega)
      refine ⟨after, fun steps steps_enough left enough => ?_, after_filled,
        ⟨(cursor, littleEndian (data.take 4)) :: seen, ?_, ?_⟩, ?_⟩
      · obtain ⟨left, rfl⟩ := Nat.exists_eq_succ_of_ne_zero (Nat.ne_zero_of_lt enough)
        rw [storeAranges, if_pos ⟨found.header, room⟩, found.length]
        simp only [bind, Except.bind]
        rw [if_neg (by
          rw [found.next]
          exact not_or.mpr ⟨found.some_length, Nat.not_lt.mpr finish⟩), addr]
        dsimp only
        rw [seg, found.entries, found.next]
        dsimp only
        rw [unit steps steps_enough]
        exact rest steps (by omega) left (by omega)
      · rw [unitPlaces_begins begins]
        exact (List.prefix_cons_inj _).mpr places
      · rw [units, next_units]
        show t.accepted.units ++ [(cursor, littleEndian (data.take 4))] ++ seen = _
        rw [List.append_assoc, List.singleton_append]
      · rw [entries, next_entries, frames_begins begins, List.flatMap_cons, List.append_assoc]
        rfl
    · -- The table is full, so the units that are left have no entries.
      have none_left : (frames arangesUnitSize data).flatMap unitRanges = [] := by
        rw [frames_begins begins, List.flatMap_cons]
        apply List.eq_nil_of_length_eq_zero
        rw [List.length_append]
        omega
      refine ⟨t, fun steps _ left enough => ?_, filled,
        ⟨[], List.nil_prefix, (List.append_nil _).symm⟩, ?_⟩
      · obtain ⟨left, rfl⟩ := Nat.exists_eq_succ_of_ne_zero (Nat.ne_zero_of_lt enough)
        rw [storeAranges, if_neg (fun both => room both.2)]
      · rw [none_left, List.append_nil]

/-- Counting the entries of a unit leaves the units that have been accepted. -/
theorem countRanges_keeps {addrSize segSize unitEnd : Nat} (steps : Nat) :
    ∀ p count after, countRanges sec addrSize segSize unitEnd steps p count = .ok after →
      after.accepted.units = count.accepted.units := by
  induction steps with
  | zero =>
    intro p count after run
    cases run
  | succ steps ih =>
    intro p count after run
    rw [countRanges] at run
    split at run
    · cases read : readEntry sec addrSize segSize p with
      | error fault =>
        rw [read] at run
        cases run
      | ok found =>
        rw [read] at run
        simp only [bind, Except.bind] at run
        split at run
        · cases run
          rfl
        · exact (ih _ _ _ run).trans rfl
    · cases run
      rfl

/-- A unit that the first pass accepts, and the rest of the pass. -/
theorem countAranges_unit {steps left : Nat} {count after : RangeCount}
    (run : countAranges sec steps (left + 1) cursor count = .ok after)
    (header : advance cursor 12 ≤ sec.finish) {totalLength : Nat}
    (length : readU32Le sec cursor = .ok totalLength)
    (accepted : ¬ (totalLength = 0 ∨ sec.finish < advance cursor (4 + totalLength))) :
    ∃ next, next.accepted.units = count.accepted.units ++ [(cursor, totalLength)] ∧
      countAranges sec steps left (advance cursor (4 + totalLength)) next = .ok after := by
  rw [countAranges, if_pos header, length] at run
  simp only [bind, Except.bind] at run
  rw [if_neg accepted] at run
  cases addr : readByte sec (advance cursor 10) with
  | error fault =>
    rw [addr] at run
    cases run
  | ok addrSize =>
    rw [addr] at run
    cases seg : readByte sec (advance cursor 11) with
    | error fault =>
      rw [seg] at run
      cases run
    | ok segSize =>
      rw [seg] at run
      dsimp only at run
      cases entries : countRanges sec addrSize.toNat segSize.toNat (advance cursor (4 + totalLength))
          steps (advance cursor 12)
          { count with accepted := count.accepted.unit cursor totalLength } with
      | error fault =>
        rw [entries] at run
        cases run
      | ok next =>
        rw [entries] at run
        exact ⟨next, countRanges_keeps _ _ _ _ entries, run⟩

/-- The first pass never gives up a unit that it has accepted. -/
theorem countAranges_grows {steps : Nat} (left : Nat) :
    ∀ cursor count after, countAranges sec steps left cursor count = .ok after →
      count.accepted.units <+: after.accepted.units := by
  induction left with
  | zero =>
    intro cursor count after run
    cases run
  | succ left ih =>
    intro cursor count after run
    by_cases header : advance cursor 12 ≤ sec.finish
    · cases length : readU32Le sec cursor with
      | error fault =>
        rw [countAranges, if_pos header, length] at run
        cases run
      | ok totalLength =>
        by_cases stops : totalLength = 0 ∨ sec.finish < advance cursor (4 + totalLength)
        · rw [countAranges, if_pos header, length] at run
          simp only [bind, Except.bind] at run
          rw [if_pos stops] at run
          cases run
          exact List.prefix_refl _
        · obtain ⟨next, units, rest⟩ := countAranges_unit run header length stops
          have grown := ih _ _ _ rest
          rw [units] at grown
          exact (List.prefix_append _ _).trans grown
    · rw [countAranges, if_neg header] at run
      cases run
      exact List.prefix_refl _

/-- A first pass that comes to an end has accepted more than the units, if a length wraps around. -/
theorem countAranges_wraps {steps : Nat} (data : List UInt8) :
    ∀ cursor left count after, UpTo sec cursor sec.finish data →
      countAranges sec steps left cursor count = .ok after → ¬ LengthFits sec data →
      ∃ more, more ≠ [] ∧ after.accepted.units =
        count.accepted.units ++ unitPlaces cursor (frames arangesUnitSize data) ++ more := by
  induction data using induct arangesUnitSize with
  | ends data ends =>
    intro cursor left count after upto run wraps
    unfold LengthFits at wraps
    rw [behind_ends ends] at wraps
    obtain ⟨inside, wrapped⟩ := Classical.not_imp.mp wraps
    have last := upto.2
    have start : sec.finish - data.length = cursor := by omega
    rw [start] at wrapped
    have header := (header_iff upto).mpr inside
    have length := readU32Le_front upto.1 (Nat.le_trans (by decide) inside)
    have word : littleEndian (data.take 4) < addresses := by
      have size : (data.take 4).length = 4 := List.length_take_of_le (by omega)
      match bytes : data.take 4, size with
      | [b0, b1, b2, b3], _ =>
        have low0 : b0.toNat < 256 := UInt8.toNat_lt _
        have low1 : b1.toNat < 256 := UInt8.toNat_lt _
        have low2 : b2.toNat < 256 := UInt8.toNat_lt _
        have low3 : b3.toNat < 256 := UInt8.toNat_lt _
        simp only [littleEndian_cons, littleEndian_nil, addresses]
        omega
    have bound := sec.fits
    -- The end that has wrapped around is not behind the section, so the unit is accepted.
    have accepted : ¬ (littleEndian (data.take 4) = 0 ∨
        sec.finish < advance cursor (4 + littleEndian (data.take 4))) := by
      rw [not_or, advance]
      simp only [Region.finish, addresses] at last bound wrapped word ⊢
      omega
    cases left with
    | zero => cases run
    | succ left =>
      obtain ⟨next, units, rest⟩ := countAranges_unit run header length accepted
      obtain ⟨more, grown⟩ := countAranges_grows _ _ _ _ rest
      refine ⟨(cursor, littleEndian (data.take 4)) :: more, List.cons_ne_nil _ _, ?_⟩
      rw [unitPlaces_ends ends, List.append_nil, ← grown, units, List.append_assoc,
        List.singleton_append]
  | begins data begins ih =>
    intro cursor left count after upto run wraps
    have found := atUnit upto begins
    have finish := found.within
    have accepted : ¬ (littleEndian (data.take 4) = 0 ∨
        sec.finish < advance cursor (4 + littleEndian (data.take 4))) := by
      rw [found.next]
      exact not_or.mpr ⟨found.some_length, Nat.not_lt.mpr finish⟩
    cases left with
    | zero => cases run
    | succ left =>
      obtain ⟨next, units, rest⟩ := countAranges_unit run found.header found.length accepted
      rw [found.next] at rest
      have rest_wraps : ¬ LengthFits sec (data.drop (arangesUnitSize data)) := by
        rw [LengthFits, ← behind_begins begins]
        exact wraps
      obtain ⟨more, some_more, grown⟩ := ih _ _ _ _ (upto.drop begins.2).1 rest rest_wraps
      refine ⟨more, some_more, ?_⟩
      rw [grown, units, unitPlaces_begins begins]
      simp only [List.append_assoc, List.cons_append, List.nil_append]

/-- A section from its beginning on. -/
theorem upTo_section (sec : Region) : UpTo sec sec.base sec.finish sec.bytes := ⟨holds_all sec, rfl⟩

/-- If a length wraps around, a unit is accepted that is none of the section. -/
theorem fits_of_right {counted : RangeCount} {stored : RangeStore}
    (right : ArangesRight sec counted stored) : LengthsFit sec := by
  by_contra wraps
  obtain ⟨enough, counts⟩ := right.counts
  have run := counts enough (Nat.le_refl _)
  obtain ⟨more, some_more, units⟩ :=
    countAranges_wraps sec.bytes _ _ _ _ (upTo_section sec) run wraps
  rw [right.units] at units
  have lengths := congrArg List.length units
  rw [List.length_append, List.length_append, List.length_nil] at lengths
  exact some_more (List.eq_nil_of_length_eq_zero (by omega))

/-- If no length wraps around, both passes find what the section has. -/
theorem right_of_fits (small : SmallFields (frames arangesUnitSize sec.bytes))
    (fits : LengthsFit sec) : ∃ counted stored, ArangesRight sec counted stored := by
  obtain ⟨counted, is_counted⟩ : ∃ counted : RangeCount,
      counted = ({} : RangeCount).units sec.base (frames arangesUnitSize sec.bytes) := ⟨_, rfl⟩
  have counts : ∀ steps ≥ sec.bytes.length + 1, countSection sec steps = .ok counted := by
    intro steps enough
    rw [is_counted]
    exact countAranges_units sec.bytes _ _ _ (upTo_section sec) enough enough small fits
  have total : counted.totalRangeCount =
      ((frames arangesUnitSize sec.bytes).flatMap unitRanges).length := by
    rw [is_counted]
    exact Nat.zero_add _
  have entries : counted.accepted.entries =
      (frames arangesUnitSize sec.bytes).flatMap unitRanges := by
    rw [is_counted]
    exact List.nil_append _
  have units : counted.accepted.units =
      unitPlaces sec.base (frames arangesUnitSize sec.bytes) := by
    rw [is_counted]
    exact List.nil_append _
  have empty : Filled counted.totalRangeCount
      { ranges := List.replicate counted.totalRangeCount ⟨0, 0, 0⟩ } :=
    ⟨rfl, rfl, Nat.zero_le _⟩
  obtain ⟨stored, run, filled, ⟨seen, places, seen_units⟩, stored_entries⟩ :=
    storeAranges_units sec.bytes _ _ (upTo_section sec) small fits empty
      (by rw [total]; exact Nat.zero_add _)
  have same : stored.accepted.entries = counted.accepted.entries := by
    rw [stored_entries, entries]
    exact List.nil_append _
  have count : counted.totalRangeCount = stored.accepted.entries.length := by
    rw [same, total, entries]
  have index : stored.idx = counted.totalRangeCount := by rw [filled.idx, count]
  refine ⟨counted, stored, ⟨_, counts⟩, ⟨sec.bytes.length + 1, fun steps enough => ?_⟩, units, ?_,
    entries, same, count, index, ?_⟩
  · exact run steps enough steps enough
  · rw [seen_units, units]
    exact places
  · rw [filled.ranges, index, Nat.sub_self, List.replicate_zero, List.append_nil, same]

/-- The two passes agree with the section, and so with each other, exactly if no length wraps. -/
theorem aranges_right_iff (small : SmallFields (frames arangesUnitSize sec.bytes)) :
    (∃ counted stored, ArangesRight sec counted stored) ↔ LengthsFit sec :=
  ⟨fun ⟨_, _, right⟩ => fits_of_right right, right_of_fits small⟩

/-- A section of one unit with an entry and a terminator. -/
def oneUnitSection : Region :=
  ⟨0x1000, [28, 0, 0, 0, 2, 0, 0, 0, 0, 0, 4, 2, 0, 1, 0, 0, 3, 0, 0x20, 0, 0, 0,
    0, 0, 0, 0, 0, 0, 0, 0, 0, 0], by decide⟩

/-- The section of one unit has that unit, and nothing behind it. -/
theorem oneUnitSection_units : frames arangesUnitSize oneUnitSection.bytes = [oneUnitSection.bytes] ∧
    behind arangesUnitSize oneUnitSection.bytes = [] := by
  have begins : Begins arangesUnitSize oneUnitSection.bytes := by decide
  have ends : ¬ Begins arangesUnitSize
      (oneUnitSection.bytes.drop (arangesUnitSize oneUnitSection.bytes)) := by decide
  rw [frames_begins begins, frames_ends ends, behind_begins begins, behind_ends ends]
  exact ⟨rfl, rfl⟩

/-- The passes agree about a section of one unit. -/
theorem one_unit_right : ∃ counted stored, ArangesRight oneUnitSection counted stored := by
  refine (aranges_right_iff ?_).mpr ?_
  · rw [oneUnitSection_units.1]
    intro unit member
    rw [List.mem_singleton.mp member]
    decide
  · rw [LengthsFit, oneUnitSection_units.2]
    exact fun header => absurd header (by decide)

/-- A section whose first unit has a length that leads back to the unit. -/
def wrappedSection : Region :=
  ⟨0x1000, [0xFC, 0xFF, 0xFF, 0xFF, 2, 0, 0, 0, 0, 0, 4, 2], by decide⟩

/-- A length that wraps around to its own unit keeps the first pass there for ever. -/
theorem wrapped_length_endless :
    (∀ steps, countSection wrappedSection steps = .error .endless) ∧
      ¬ ∃ counted stored, ArangesRight wrappedSection counted stored := by
  constructor
  · intro steps
    cases steps with
    | zero => rfl
    | succ steps =>
      have stays : ∀ left count, countAranges wrappedSection (steps + 1) left 0x1000 count =
          .error .endless := by
        intro left
        induction left with
        | zero => exact fun _ => rfl
        | succ left ih => exact fun count => ih _
      exact stays _ _
  · intro ⟨counted, stored, right⟩
    have ends : ¬ Begins arangesUnitSize wrappedSection.bytes := by decide
    have fits := fits_of_right right
    rw [LengthsFit, behind_ends ends] at fits
    exact absurd (fits (by decide)) (by decide)

/-- Under the condition the whole of the reading comes to the table of the entries. -/
theorem parseDebugAranges_right (small : SmallFields (frames arangesUnitSize sec.bytes))
    (fits : LengthsFit sec) (header : 12 ≤ sec.bytes.length) :
    ∃ enough, ∀ steps ≥ enough, parseDebugAranges (some sec) true steps =
      .ok ⟨0, ((frames arangesUnitSize sec.bytes).flatMap unitRanges).map ArangesEntry.range⟩ := by
  obtain ⟨counted, stored, right⟩ := right_of_fits small fits
  obtain ⟨first, counts⟩ := right.counts
  obtain ⟨second, stores⟩ := right.stores
  refine ⟨max first second, fun steps enough => ?_⟩
  rw [parseDebugAranges, if_neg (by omega), counts steps (by omega)]
  simp only [bind, Except.bind]
  by_cases none : counted.totalRangeCount = 0
  · rw [if_pos none]
    have empty : counted.accepted.entries = [] := by
      rw [← right.sameEntries]
      exact List.eq_nil_of_length_eq_zero (right.count.symm.trans none)
    rw [← right.entries, empty]
    rfl
  · rw [if_neg none, stores steps (by omega)]
    simp only [Bool.not_true, Bool.false_eq_true, if_false]
    rw [← right.entries, ← right.ranges]
    rfl

end Units

end TwoIne
