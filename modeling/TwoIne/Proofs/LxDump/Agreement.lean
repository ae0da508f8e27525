import Mathlib.Tactic.Ring
import TwoIne.Proofs.LxDump.EntryTables

/-!
What lx_dump prints of a table is what the loader reads in it exactly if an LX module has no exports
at all, and if every segment of an NE module is as long as the number of its sector says.
-/

namespace TwoIne

section Numbers

/-- A number of two bytes has one form. -/
theorem littleEndian_two (byte0 byte1 : UInt8) :
    littleEndian [byte0, byte1] = byte0.toNat + 256 * byte1.toNat := by
  simp [littleEndian, Nat.ofDigits_cons]

/-- Two bytes are told by their number. -/
theorem littleEndian_two_inj {byte0 byte1 other0 other1 : UInt8}
    (same : littleEndian [byte0, byte1] = littleEndian [other0, other1]) :
    byte0 = other0 ∧ byte1 = other1 := by
  rw [littleEndian_two, littleEndian_two] at same
  have low := byte0.toNat_lt
  have other_low := other0.toNat_lt
  exact ⟨UInt8.toNat_inj.mp (by omega), UInt8.toNat_inj.mp (by omega)⟩

/-- The number of an object comes back from its index. -/
theorem object_number (object0 object1 : UInt8) :
    (BitVec.ofNat 16 (littleEndian [object0, object1]) - 1 + 1).toNat =
      littleEndian [object0, object1] := by
  have low := object0.toNat_lt
  have high := object1.toNat_lt
  rw [BitVec.sub_add_cancel, BitVec.toNat_ofNat, littleEndian_two]
  exact Nat.mod_eq_of_lt (by omega)

end Numbers

section Exports

variable {wide : Bool} {objidx : BitVec 16} {ordinal : BitVec 32}

/-- The export of an entry. -/
theorem entryPoints_getElem (entries : List BundleEntry) (k : Nat) :
    (entryPoints wide objidx ordinal entries)[k]? =
      (entries[k]?).map fun entry =>
        ⟨ordinal + BitVec.ofNat 32 k, objidx, littleEndian (entry.offset wide)⟩ := by
  induction entries generalizing ordinal k with
  | nil => rfl
  | cons entry entries ih =>
    cases k with
    | zero => simp [entryPoints]
    | succ k =>
      have next : ordinal + 1 + BitVec.ofNat 32 k = ordinal + BitVec.ofNat 32 (k + 1) := by
        rw [BitVec.add_assoc, BitVec.add_comm 1, BitVec.ofNat_add]
        rfl
      rw [entryPoints, List.getElem?_cons_succ, List.getElem?_cons_succ, ih, next]

/-- The ordinal of the first export, behind the ordinals that are left out. -/
theorem exportsOf_first (bundles : List Bundle) {first : LxEntryPoint} {more : List LxEntryPoint}
    (here : exportsOf ordinal bundles = first :: more) :
    first.ordinal = ordinal + BitVec.ofNat 32 (skipped bundles) := by
  induction bundles generalizing ordinal with
  | nil => cases here
  | cons bundle bundles ih =>
    cases bundle with
    | unused high count present =>
      rw [ih here, skipped, BitVec.ofNat_add, BitVec.add_assoc, Bundle.count]
    | used wide high object0 object1 entries present few =>
      obtain ⟨entry, entries, rfl⟩ := List.exists_cons_of_ne_nil present
      cases here
      simp [skipped]

/-- Where the offset of a narrow entry stands. -/
theorem narrow_bytes (entries : List BundleEntry) (tail : List UInt8) {k : Nat} {entry : BundleEntry}
    (here : entries[k]? = some entry) :
    (entries.flatMap (BundleEntry.encode false) ++ tail)[3 * k + 1]? = some entry.byte0 ∧
      (entries.flatMap (BundleEntry.encode false) ++ tail)[3 * k + 2]? = some entry.byte1 := by
  induction entries generalizing k with
  | nil => cases here
  | cons first entries ih =>
    cases k with
    | zero =>
      cases here
      exact ⟨rfl, rfl⟩
    | succ k => exact ih (by simpa using here)

end Exports

section Agreeing

variable {bundles : List Bundle} {rest : List UInt8} {dumped : List DumpedEntry}

/-- Both readings of a table, which end at the same byte. -/
structure SameEntries (bundles : List Bundle) (rest : List UInt8) (dumped : List DumpedEntry) :
    Prop where
  ran : dumpEntries 0 (bundles.flatMap Bundle.encode ++ 0 :: rest) = .ok (dumped, 0 :: rest)
  same : dumped.map DumpedEntry.numbers = (exportsOf 1 bundles).map LxEntryPoint.numbers

/-- The entry of each export. -/
theorem SameEntries.entry (alike : SameEntries bundles rest dumped) {k : Nat} {point : LxEntryPoint}
    (here : (exportsOf 1 bundles)[k]? = some point) :
    ∃ entry, dumped[k]? = some entry ∧ entry.number = point.ordinal ∧
      entry.object = (point.objidx + 1).toNat ∧ entry.offset = point.offset := by
  have numbers := congrArg (·[k]?) alike.same
  simp only [List.getElem?_map, here, Option.map_some] at numbers
  obtain ⟨entry, found, equal⟩ := Option.map_eq_some_iff.mp numbers
  rw [DumpedEntry.numbers, LxEntryPoint.numbers, Prod.mk.injEq, Prod.mk.injEq] at equal
  exact ⟨entry, found, equal⟩

/-- A table that starts with ordinals left out is printed from the ordinal one on nevertheless. -/
theorem SameEntries.of_unused {high : Bool} {count : UInt8} {present : count ≠ 0}
    (alike : SameEntries (.unused high count present :: bundles) rest dumped) :
    2 ^ 32 ≤ skipped (.unused high count present :: bundles) := by
  -- lx_dump prints an entry, because the first byte is not zero.
  have printed : ∃ first more, dumped = first :: more ∧ first.number = 1 := by
    obtain ⟨_, held, _, _⟩ | ⟨_, _, _, _, _, _, _, _, same, _⟩ |
      ⟨_, _, _, _, _, _, _, _, same, _⟩ := dumpEntries_cases alike.ran
    · exact absurd (List.cons.inj held).1 present
    · exact ⟨_, _, same, by simp⟩
    · exact ⟨_, _, same, by simp⟩
  obtain ⟨first, more, rfl, number⟩ := printed
  have same := alike.same
  cases points : exportsOf 1 (.unused high count present :: bundles) with
  | nil =>
    rw [points] at same
    cases same
  | cons point later =>
    rw [points, List.map_cons, List.map_cons] at same
    have ordinals : first.number = point.ordinal :=
      congrArg Prod.fst (List.cons.inj same).1
    rw [number, exportsOf_first _ points] at ordinals
    -- The ordinals that are left out are a multiple of all that there are.
    have multiple := congrArg BitVec.toNat (BitVec.add_right_eq_self.mp ordinals.symm)
    rw [BitVec.toNat_ofNat] at multiple
    have positive : 0 < count.toNat :=
      Nat.pos_of_ne_zero fun zero => present (UInt8.toNat_inj.mp zero)
    have some_skipped : 0 < skipped (.unused high count present :: bundles) := by
      rw [skipped]
      omega
    exact Nat.le_of_dvd some_skipped (Nat.dvd_of_mod_eq_zero multiple)

section Used

variable {wide high : Bool} {object0 object1 : UInt8} {entries : List BundleEntry}
  {present : entries ≠ []} {few : entries.length < 256}

/-- The export of an entry of the first bundle. -/
theorem exportsOf_used {k : Nat} {entry : BundleEntry} (here : entries[k]? = some entry) :
    (exportsOf 1 (.used wide high object0 object1 entries present few :: bundles))[k]? =
      some ⟨1 + BitVec.ofNat 32 k, BitVec.ofNat 16 (littleEndian [object0, object1]) - 1,
        littleEndian (entry.offset wide)⟩ := by
  obtain ⟨below, _⟩ := List.getElem?_eq_some_iff.mp here
  rw [exportsOf, Bundle.exports, List.getElem?_append_left (by simpa using below),
    entryPoints_getElem, here, Option.map_some]

/-- The line about an entry of the first bundle. -/
theorem SameEntries.used
    (alike : SameEntries (.used wide high object0 object1 entries present few :: bundles) rest dumped)
    {k : Nat} {entry : BundleEntry} (here : entries[k]? = some entry) :
    ∃ line, dumped[k]? = some line ∧ line.object = littleEndian [object0, object1] ∧
      line.offset = littleEndian (entry.offset wide) := by
  obtain ⟨line, found, _, object, offset⟩ := alike.entry (exportsOf_used here)
  rw [object_number] at object
  exact ⟨line, found, object, offset⟩

/-- A bundle that lx_dump does not take for a movable entry is not printed as it is. -/
theorem SameEntries.full
    (alike : SameEntries (.used wide high object0 object1 entries present few :: bundles) rest dumped) :
    entries.length = 255 ∧ object0 = 0 ∧ object1 = 0 := by
  obtain ⟨number, nonzero⟩ := count_byte present few
  obtain ⟨entry, later, rfl⟩ := List.exists_cons_of_ne_nil present
  obtain ⟨line, found, object, _⟩ := alike.used (k := 0) rfl
  rw [littleEndian_two] at object
  obtain ⟨_, held, _, _⟩ | ⟨_, _, objnum, _, _, _, _, held, same, _⟩ |
    ⟨type, _, _, ptr, more, _, small, held, same, ran⟩ := dumpEntries_cases alike.ran
  · exact absurd (List.cons.inj held).1 nonzero
  · -- The number of the object is the second byte of the object's number.
    cases same
    cases found
    simp only [List.flatMap_cons, Bundle.encode, List.cons_append, List.cons.injEq] at held
    obtain ⟨full, _, _, second, _⟩ := held
    rw [full] at number
    have low : object0.toNat = 0 := by
      rw [← second] at object
      simp only at object
      omega
    have zero : object1.toNat = 0 := by
      rw [← second] at object
      simp only at object
      omega
    exact ⟨number.symm, UInt8.toNat_inj.mp low, UInt8.toNat_inj.mp zero⟩
  · -- The number of the object has no second byte, so lx_dump stops at it.
    exfalso
    cases same
    cases found
    simp only [List.flatMap_cons, Bundle.encode, List.cons_append, List.cons.injEq] at held
    obtain ⟨_, _, _, behind⟩ := held
    have below := type.toNat_lt
    have zero : object1 = 0 := by
      apply UInt8.toNat_inj.mp
      simp only at object
      rw [show (0 : UInt8).toNat = 0 from rfl]
      omega
    rw [← behind, zero, dumpEntries_end] at ran
    have lengths := congrArg List.length (Prod.mk.inj (Except.ok.inj ran)).2
    simp only [List.length_cons, List.length_append, BundleEntry.encode] at lengths
    omega

/-- The lines about the entries of such a bundle are about no object. -/
theorem SameEntries.nothing
    (alike : SameEntries (.used wide high object0 object1 entries present few :: bundles) rest dumped)
    {count : Nat} (within : count ≤ 255) :
    ∀ k < count, ∃ line, dumped[k]? = some line ∧ line.object = 0 := by
  obtain ⟨full, rfl, rfl⟩ := alike.full
  intro k below
  obtain ⟨line, found, object, _⟩ := alike.used
    (List.getElem?_eq_getElem (show k < entries.length by omega))
  exact ⟨line, found, object⟩

/-- What lx_dump reads of an entry of such a bundle. -/
theorem SameEntries.line
    (alike : SameEntries (.used wide high object0 object1 entries present few :: bundles) rest dumped)
    {k : Nat} {entry : BundleEntry} (here : entries[k]? = some entry) :
    let bytes := (Bundle.used wide high object0 object1 entries present few :: bundles).flatMap
      Bundle.encode ++ 0 :: rest
    bytes[6 * k]? = some 0xFF ∧ bytes[6 * k + 3]? = some 0 ∧
      ∃ lo hi, littleEndian [lo, hi] = littleEndian (entry.offset wide) ∧
        bytes[6 * k + 4]? = some lo ∧ bytes[6 * k + 5]? = some hi := by
  obtain ⟨below, _⟩ := List.getElem?_eq_some_iff.mp here
  have few := alike.full.1
  obtain ⟨type, zero, line, lo, hi, found, offset, first, second⟩ := dumped_movable k alike.ran
    fun i within => alike.nothing le_rfl i (by omega)
  obtain ⟨same, found_again, _, stored⟩ := alike.used here
  cases found.symm.trans found_again
  exact ⟨type, zero, lo, hi, offset.symm.trans stored, first, second⟩

/-- A bundle for 32 bits is not printed as it is. -/
theorem SameEntries.narrow
    (alike : SameEntries (.used wide high object0 object1 entries present few :: bundles) rest dumped) :
    wide = false := by
  by_contra not_narrow
  rw [Bool.not_eq_false] at not_narrow
  subst not_narrow
  obtain ⟨full, _, _⟩ := alike.full
  -- The third byte of the second offset is where lx_dump reads its third entry.
  match entries, full with
  | entry0 :: entry1 :: entry2 :: later, _ =>
    obtain ⟨_, _, lo, hi, same, _, _⟩ := alike.line (k := 1) rfl
    obtain ⟨third, _⟩ := alike.line (k := 2) rfl
    have byte2 : entry1.byte2 = 0xFF := Option.some.inj third
    have low := lo.toNat_lt
    have high := hi.toNat_lt
    have value : littleEndian (entry1.offset true) = entry1.byte0.toNat +
        256 * (entry1.byte1.toNat + 256 * (entry1.byte2.toNat + 256 * entry1.byte3.toNat)) := by
      simp [littleEndian, BundleEntry.offset, Nat.ofDigits_cons]
    have large : (0xFF : UInt8).toNat = 255 := rfl
    rw [littleEndian_two, value, byte2, large] at same
    omega

end Used

section Narrow

variable {high : Bool} {object0 object1 : UInt8} {entries : List BundleEntry}
  {present : entries ≠ []} {few : entries.length < 256}

/-- The table of a first bundle for 16 bits, with the rest of the table behind it. -/
theorem narrow_table (bundles : List Bundle) (rest : List UInt8) :
    (Bundle.used false high object0 object1 entries present few :: bundles).flatMap Bundle.encode ++
        0 :: rest =
      UInt8.ofNat entries.length :: typeByte 0x01 high :: object0 :: object1 ::
        (entries.flatMap (BundleEntry.encode false) ++ (bundles.flatMap Bundle.encode ++ 0 :: rest)) := by
  simp [Bundle.encode]

/-- The bytes of an offset stand again where lx_dump reads it. -/
theorem SameEntries.again
    (alike : SameEntries (.used false high object0 object1 entries present few :: bundles) rest dumped)
    {k : Nat} (below : k < 255) :
    let bytes := (Bundle.used false high object0 object1 entries present few :: bundles).flatMap
      Bundle.encode ++ 0 :: rest
    bytes[3 * k + 5]? = bytes[6 * k + 4]? ∧ bytes[3 * k + 6]? = bytes[6 * k + 5]? := by
  have full := alike.full.1
  have here := List.getElem?_eq_getElem (show k < entries.length by omega)
  obtain ⟨_, _, lo, hi, same, first, second⟩ := alike.line here
  obtain ⟨byte0, byte1⟩ := narrow_bytes entries (bundles.flatMap Bundle.encode ++ 0 :: rest) here
  obtain ⟨rfl, rfl⟩ := littleEndian_two_inj same
  intro bytes
  rw [first, second, ← byte0, ← byte1]
  exact ⟨congrArg (·[3 * k + 5]?) (narrow_table bundles rest),
    congrArg (·[3 * k + 6]?) (narrow_table bundles rest)⟩

/-- The bytes behind the first bundle. -/
theorem narrow_behind (full : entries.length = 255) (j : Nat) :
    ((Bundle.used false high object0 object1 entries present few :: bundles).flatMap Bundle.encode ++
        0 :: rest)[j + 769]? = (bundles.flatMap Bundle.encode ++ 0 :: rest)[j]? := by
  have size : (entries.flatMap (BundleEntry.encode false)).length = 765 := by
    rw [length_entries, full]
    rfl
  rw [narrow_table, show j + 769 = 765 + j + 1 + 1 + 1 + 1 by omega, List.getElem?_cons_succ,
    List.getElem?_cons_succ, List.getElem?_cons_succ, List.getElem?_cons_succ,
    List.getElem?_append_right (by omega), size, Nat.add_sub_cancel_left]

/-- Behind the first bundle is what would be the number of an object that lx_dump does not print. -/
theorem SameEntries.behind
    (alike : SameEntries (.used false high object0 object1 entries present few :: bundles) rest dumped) :
    (bundles.flatMap Bundle.encode ++ 0 :: rest)[2]? = some 0 ∧
      (bundles.flatMap Bundle.encode ++ 0 :: rest)[3]? = some 0xFF := by
  have full := alike.full.1
  have entry := fun k (below : k < 255) =>
    alike.line (List.getElem?_eq_getElem (show k < entries.length by omega))
  refine ⟨(narrow_behind full 2).symm.trans (entry 128 (by decide)).2.1, ?_⟩
  -- Where an offset stands again is the place of another offset, twice, and then that of a type.
  have offset128 := (alike.again (k := 128) (by decide)).1
  have offset64 := (alike.again (k := 64) (by decide)).2
  exact (narrow_behind full 3).symm.trans
    ((offset128.symm.trans offset64.symm).trans (entry 33 (by decide)).1)

/-- The table goes on behind the entries that lx_dump prints for the first bundle. -/
theorem SameEntries.longer
    (alike : SameEntries (.used false high object0 object1 entries present few :: bundles) rest dumped) :
    2 < (bundles.flatMap Bundle.encode).length := by
  have full := alike.full.1
  have lengths := dumped_length 255 alike.ran (alike.nothing le_rfl)
  have size := length_entries false entries
  rw [narrow_table] at lengths
  simp only [List.length_cons, List.length_append, size, full, offsetWidth] at lengths
  simp only [Bool.false_eq_true, if_false] at lengths
  omega

/-- A table that starts with a bundle with entries is not printed as it is. -/
theorem not_sameEntries_narrow :
    ¬ SameEntries (.used false high object0 object1 entries present few :: bundles) rest dumped := by
  intro alike
  obtain ⟨byte2, byte3⟩ := alike.behind
  have longer := alike.longer
  cases bundles with
  | nil => exact absurd longer (by decide)
  | cons bundle bundles =>
    cases bundle with
    | unused high count some_count =>
      -- The next byte is not that of another bundle, so there is none.
      cases bundles with
      | nil => simp [Bundle.encode] at longer
      | cons bundle bundles =>
        cases bundle with
        | unused _ count more => exact more (Option.some.inj byte2)
        | used _ _ _ _ entries more few =>
          exact (count_byte more few).2 (Option.some.inj byte2)
    | used wide mark low top entries2 more few2 =>
      have first : low = 0 := Option.some.inj byte2
      have second : top = 0xFF := Option.some.inj byte3
      obtain ⟨next, later, rfl⟩ := List.exists_cons_of_ne_nil more
      -- Its first export is of an object whose number lx_dump cannot print.
      have point : (exportsOf 1 (.used false high object0 object1 entries present few ::
            .used wide mark low top (next :: later) more few2 :: bundles))[entries.length]? =
            some ⟨1 + BitVec.ofNat 32 entries.length,
              BitVec.ofNat 16 (littleEndian [low, top]) - 1, littleEndian (next.offset wide)⟩ := by
        rw [exportsOf, Bundle.exports, List.getElem?_append_right (by simp), length_entryPoints,
          Nat.sub_self]
        rfl
      obtain ⟨line, found, _, object, _⟩ := alike.entry point
      have small := dumped_object_lt alike.ran line (List.mem_of_getElem? found)
      rw [object, object_number, first, second] at small
      exact absurd small (by decide)

end Narrow

end Agreeing

section Tables

/-- The image of an LX module with an entry table of bundles that the loader accepts. -/
structure LxTable where
  exe : List UInt8
  entry_table_offset : Nat
  bundles : List Bundle
  rest : List UInt8
  magic : exe.take 2 = [0x4C, 0x58]
  table : exe.drop entry_table_offset = bundles.flatMap Bundle.encode ++ 0 :: rest

/-- The entries that lx_dump prints are the exports that the loader records, up to the same byte. -/
def EntriesAgree (table : LxTable) : Prop :=
  ∃ dumped recorded stop,
    dumpLxEntryTable table.exe table.entry_table_offset = .ok (dumped, stop) ∧
    loadLxExports table.exe table.entry_table_offset = .ok (recorded, stop) ∧
    dumped.map DumpedEntry.numbers = recorded.map LxEntryPoint.numbers

/-- Each bundle takes bytes. -/
theorem length_bundles_le (bundles : List Bundle) :
    bundles.length ≤ (bundles.flatMap Bundle.encode).length := by
  induction bundles with
  | nil => exact le_rfl
  | cons bundle bundles ih =>
    have some_bytes : 0 < bundle.encode.length := by
      cases bundle <;> exact Nat.zero_lt_succ _
    simp only [List.flatMap_cons, List.length_append, List.length_cons]
    omega

/-- The loader records the exports of the table. -/
theorem LxTable.load (table : LxTable) :
    loadLxExports table.exe table.entry_table_offset =
      .ok (exportsOf 1 table.bundles, 0 :: table.rest) := by
  have lengths := congrArg List.length table.table
  have takes := length_bundles_le table.bundles
  rw [List.length_drop, List.length_append, List.length_cons] at lengths
  have enough : table.bundles.length < table.exe.length + 1 := by omega
  have counted := countOrdinals_encode 1 table.bundles table.rest _ enough
  have recorded := recordExports_encode 1 table.bundles table.rest _ enough
  simp only [loadLxExports, table.table, counted, recorded, bind, Except.bind]

/-- The image starts with other bytes than a table, so the table is behind its start. -/
theorem LxTable.offset_ne_zero (table : LxTable) : table.entry_table_offset ≠ 0 := by
  intro zero
  have start := congrArg (List.take 2) table.table
  rw [zero, List.drop_zero, table.magic] at start
  cases bundles : table.bundles with
  | nil => simp [bundles] at start
  | cons bundle bundles =>
    -- The second byte is no type of a bundle.
    cases bundle with
    | unused high count present =>
      rw [bundles] at start
      have type := (List.cons.inj (List.cons.inj start).2).1
      cases high <;> exact absurd type (by decide)
    | used wide high object0 object1 entries present few =>
      rw [bundles] at start
      have type := (List.cons.inj (List.cons.inj start).2).1
      cases wide <;> cases high <;> exact absurd type (by decide)

/-- Both readings of a table agree if they do so on its bundles. -/
theorem entriesAgree_iff (table : LxTable) :
    EntriesAgree table ↔ ∃ dumped, SameEntries table.bundles table.rest dumped := by
  have dump : dumpLxEntryTable table.exe table.entry_table_offset =
      dumpEntries 0 (table.bundles.flatMap Bundle.encode ++ 0 :: table.rest) := by
    rw [dumpLxEntryTable, if_neg table.offset_ne_zero, table.table]
  constructor
  · rintro ⟨dumped, recorded, stop, ran, loaded, same⟩
    cases table.load.symm.trans loaded
    exact ⟨dumped, dump.symm.trans ran, same⟩
  · rintro ⟨dumped, ran, same⟩
    exact ⟨dumped, _, _, dump.trans ran, table.load, same⟩

/-- An empty table is read alike. -/
theorem entriesAgree_empty (table : LxTable) (empty : table.bundles = []) : EntriesAgree table := by
  rw [entriesAgree_iff, empty]
  exact ⟨[], dumpEntries_end table.rest, rfl⟩

/--
No other table is read alike; one where the ordinals that are left out in front run through all their
values aside.
-/
theorem empty_of_entriesAgree (table : LxTable) (agree : EntriesAgree table) :
    table.bundles = [] ∨ 2 ^ 32 ≤ skipped table.bundles := by
  obtain ⟨dumped, alike⟩ := (entriesAgree_iff table).mp agree
  generalize table.bundles = bundles at alike
  cases bundles with
  | nil => exact .inl rfl
  | cons bundle bundles =>
    cases bundle with
    | unused high count present => exact .inr alike.of_unused
    | used wide high object0 object1 entries present few =>
      cases alike.narrow
      exact absurd alike not_sameEntries_narrow

/-- The image of an NE module with a segment table that the loader reads. -/
structure NeTable where
  exe : List UInt8
  ne : NeHeader
  segments : List NeSegmentTableEntry
  read : loadNeSegments exe ne = .ok segments

/-- The lines about a segment say what its fields are; `relocoffs` is the offset that is printed. -/
structure SegmentAgrees (ne : NeHeader) (line : DumpedSegment) (seg : NeSegmentTableEntry) : Prop where
  offset : line.relocoffs = seg.offset
  size : line.size = seg.size
  flags : line.flags = seg.segment_flags
  allocation : line.min_alloc = seg.minimum_allocation
  sample : ∀ place, line.sample = some place → place = segmentData ne seg

/-- The lines about the segments say what their fields are. -/
def SegmentsAgree (table : NeTable) (hexMode : Bool) : Prop :=
  ∃ dumped, dumpNeSegments hexMode table.exe table.ne = .ok dumped ∧
    List.Forall₂ (SegmentAgrees table.ne) dumped table.segments

/--
Each segment is as long as the number of its sector says, and in hex mode its data are where they
would be if all segments had one sector of 512 bytes behind the names.
-/
def SectorsAreSizes (table : NeTable) (hexMode : Bool) : Prop :=
  ∀ i seg, table.segments[i]? = some seg → seg.offset = seg.size ∧
    (hexMode = true → 0 < seg.offset → sampleOffset table.ne i = segmentData table.ne seg)

/-- The lines about segments, with the offset in the place of the size. -/
def linesOf (hexMode : Bool) (ne : NeHeader) : Nat → List NeSegmentTableEntry → List DumpedSegment
  | _, [] => []
  | i, seg :: rest =>
    ⟨seg.offset, seg.size, seg.segment_flags, seg.minimum_allocation,
      if hexMode ∧ 0 < seg.offset then some (sampleOffset ne i) else none⟩ ::
        linesOf hexMode ne (i + 1) rest

variable {hexMode : Bool} {ne : NeHeader}

/-- A reading that ends well starts with one that does. -/
theorem bind_eq_ok {α β : Type} {first : Except TableFault α} {next : α → Except TableFault β}
    {answer : β} (ran : first >>= next = .ok answer) :
    ∃ value, first = .ok value ∧ next value = .ok answer := by
  cases first with
  | error fault => cases ran
  | ok value => exact ⟨value, rfl, ran⟩

/-- lx_dump takes the fields of an entry in another order. -/
theorem dumpSegments_eq (left i : Nat) {ptr : List UInt8} {segments : List NeSegmentTableEntry}
    (read : readSegments left ptr = .ok segments) :
    dumpSegments hexMode ne left i ptr = .ok (linesOf hexMode ne i segments) := by
  induction left generalizing i ptr segments with
  | zero =>
    cases read
    rfl
  | succ left ih =>
    -- Both read four numbers and go on behind them.
    obtain ⟨⟨offset, ptr1⟩, read0, read⟩ := bind_eq_ok read
    obtain ⟨⟨size, ptr2⟩, read1, read⟩ := bind_eq_ok read
    obtain ⟨⟨flags, ptr3⟩, read2, read⟩ := bind_eq_ok read
    obtain ⟨⟨allocation, ptr4⟩, read3, read⟩ := bind_eq_ok read
    obtain ⟨rest, read4, read⟩ := bind_eq_ok read
    cases read
    simp only [dumpSegments, read0, read1, read2, read3, ih (i + 1) read4, bind, Except.bind]
    rfl

/-- The lines say what the fields are exactly if the fields are such. -/
theorem linesOf_agree_iff (hexMode : Bool) (ne : NeHeader) (i : Nat) (segments : List NeSegmentTableEntry) :
    List.Forall₂ (SegmentAgrees ne) (linesOf hexMode ne i segments) segments ↔
      ∀ j seg, segments[j]? = some seg → seg.offset = seg.size ∧
        (hexMode = true → 0 < seg.offset → sampleOffset ne (i + j) = segmentData ne seg) := by
  induction segments generalizing i with
  | nil => simp [linesOf]
  | cons first rest ih =>
    rw [linesOf, List.forall₂_cons, ih]
    constructor
    · rintro ⟨here, later⟩ j seg found
      cases j with
      | zero =>
        cases found
        refine ⟨here.size, fun hex present => here.sample _ ?_⟩
        exact if_pos ⟨hex, present⟩
      | succ j =>
        have place : i + (j + 1) = i + 1 + j := by omega
        rw [place]
        exact later j seg found
    · intro all
      obtain ⟨same, sample⟩ := all 0 first rfl
      refine ⟨⟨same.symm, same, rfl, rfl, ?_⟩, fun j seg found => ?_⟩
      · intro place printed
        simp only [Option.ite_none_right_eq_some, Option.some.injEq] at printed
        obtain ⟨⟨hex, present⟩, rfl⟩ := printed
        exact sample hex present
      · rw [Nat.add_right_comm, Nat.add_assoc]
        exact all (j + 1) seg found

/-- The lines about the segments of an NE module are right exactly if its segments are such. -/
theorem segmentsAgree_iff (table : NeTable) (hexMode : Bool) :
    SegmentsAgree table hexMode ↔ SectorsAreSizes table hexMode := by
  have printed : dumpNeSegments hexMode table.exe table.ne =
      .ok (linesOf hexMode table.ne 0 table.segments) := dumpSegments_eq _ 0 table.read
  have lines := linesOf_agree_iff hexMode table.ne 0 table.segments
  simp only [Nat.zero_add] at lines
  rw [SegmentsAgree, SectorsAreSizes, ← lines]
  constructor
  · rintro ⟨dumped, ran, agree⟩
    cases printed.symm.trans ran
    exact agree
  · exact fun agree => ⟨_, printed, agree⟩

end Tables

/--
What lx_dump prints of an entry table is what the loader records exactly if the table is empty (or the
ordinals left out in front run through all their values), and what it prints of a segment table is
what the loader reads exactly if each segment is as long as the number of its sector says.
-/
theorem dumps_agree_iff (lx : LxTable) (ne : NeTable) (hexMode : Bool) :
    (lx.bundles = [] → EntriesAgree lx) ∧
      (EntriesAgree lx → lx.bundles = [] ∨ 2 ^ 32 ≤ skipped lx.bundles) ∧
      (SegmentsAgree ne hexMode ↔ SectorsAreSizes ne hexMode) :=
  ⟨entriesAgree_empty lx, empty_of_entriesAgree lx, segmentsAgree_iff ne hexMode⟩

/-- An entry table with one export. -/
def oneExport : LxTable where
  exe := [0x4C, 0x58, 0x01, 0x01, 0x01, 0x00, 0x03, 0x10, 0x00, 0x00]
  entry_table_offset := 2
  bundles := [.used false false 0x01 0x00 [⟨0x03, 0x10, 0x00, 0x00, 0x00⟩] (by decide) (by decide)]
  rest := []
  magic := rfl
  table := rfl

/-- A segment table with one segment, of sixteen bytes in the second sector. -/
def oneNeSegment : NeTable where
  exe := List.replicate 64 0 ++ [0x02, 0x00, 0x10, 0x00, 0x00, 0x00, 0x20, 0x00]
  ne := {
    num_segment_table_entries := 1
    segment_table_offset := 64
    non_resident_name_table_offset := 0x100
    non_resident_name_table_size := 0
    sector_alignment_shift_count := 9 }
  segments := [⟨2, 16, 0, 32⟩]
  read := by decide

/-- Neither an export nor a segment is printed as it is. -/
theorem one_of_each_misprinted : ¬ EntriesAgree oneExport ∧ ¬ SegmentsAgree oneNeSegment false := by
  constructor
  · intro agree
    rcases empty_of_entriesAgree _ agree with empty | skips
    · cases empty
    · exact absurd skips (by decide)
  · rw [segmentsAgree_iff]
    intro sizes
    exact absurd (sizes 0 _ rfl).1 (by decide)

end TwoIne
