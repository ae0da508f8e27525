import Mathlib.Data.List.GetD
import TwoIne.LxDump.Tables

/-!
The loader reads the entry table of an LX module as the format has it, and lx_dump reads it in another
format: besides the empty table they agree about none.
-/

namespace TwoIne

section Format

/-- The bytes of one entry; the last two are there only in a bundle for 32 bits. -/
structure BundleEntry where
  flags : UInt8
  byte0 : UInt8
  byte1 : UInt8
  byte2 : UInt8
  byte3 : UInt8

/-- A bundle of a type that the loader accepts; the highest bit of the type is not looked at. -/
inductive Bundle where
  | unused (high : Bool) (count : UInt8) (some : count ≠ 0)
  | used (wide high : Bool) (object0 object1 : UInt8) (entries : List BundleEntry)
      (some : entries ≠ []) (few : entries.length < 256)

/-- The bytes of an offset. -/
def BundleEntry.offset (entry : BundleEntry) (wide : Bool) : List UInt8 :=
  if wide then [entry.byte0, entry.byte1, entry.byte2, entry.byte3] else [entry.byte0, entry.byte1]

/-- The bytes of an entry. -/
def BundleEntry.encode (wide : Bool) (entry : BundleEntry) : List UInt8 :=
  entry.flags :: entry.offset wide

/-- The byte of a type. -/
def typeByte (type : UInt8) (high : Bool) : UInt8 := if high then type ||| 0x80 else type

/-- The bytes of a bundle. -/
def Bundle.encode : Bundle → List UInt8
  | .unused high count _ => [count, typeByte 0x00 high]
  | .used wide high object0 object1 entries _ _ =>
    UInt8.ofNat entries.length :: typeByte (if wide then 0x03 else 0x01) high :: object0 ::
      object1 :: entries.flatMap (BundleEntry.encode wide)

/-- How many ordinals a bundle stands for. -/
def Bundle.count : Bundle → Nat
  | .unused _ count _ => count.toNat
  | .used _ _ _ _ entries _ _ => entries.length

/-- The exports of entries, from an ordinal on. -/
def entryPoints (wide : Bool) (objidx : BitVec 16) : BitVec 32 → List BundleEntry →
    List LxEntryPoint
  | _, [] => []
  | ordinal, entry :: rest =>
    ⟨ordinal, objidx, littleEndian (entry.offset wide)⟩ :: entryPoints wide objidx (ordinal + 1) rest

/-- The exports of a bundle, from an ordinal on. -/
def Bundle.exports (ordinal : BitVec 32) : Bundle → List LxEntryPoint
  | .unused _ _ _ => []
  | .used wide _ object0 object1 entries _ _ =>
    entryPoints wide (BitVec.ofNat 16 (littleEndian [object0, object1]) - 1) ordinal entries

/-- The exports of bundles, from an ordinal on. -/
def exportsOf (ordinal : BitVec 32) : List Bundle → List LxEntryPoint
  | [] => []
  | bundle :: rest =>
    bundle.exports ordinal ++ exportsOf (ordinal + BitVec.ofNat 32 bundle.count) rest

/-- How many ordinals are left out before the first bundle with entries. -/
def skipped : List Bundle → Nat
  | .unused _ count _ :: rest => count.toNat + skipped rest
  | _ => 0

end Format

section Reading

variable {wide : Bool} {objidx : BitVec 16} {ordinal : BitVec 32}

/-- A number is read from its bytes. -/
theorem readNumber_bytes (bytes ptr : List UInt8) :
    readNumber bytes.length (bytes ++ ptr) = .ok (littleEndian bytes, ptr) := by
  simp [readNumber]

/-- A number of two bytes is read from them. -/
theorem readNumber_two (byte0 byte1 : UInt8) (ptr : List UInt8) :
    readNumber 2 (byte0 :: byte1 :: ptr) = .ok (littleEndian [byte0, byte1], ptr) :=
  readNumber_bytes [byte0, byte1] ptr

/-- An offset has the bytes that its width says. -/
theorem BundleEntry.length_offset (entry : BundleEntry) :
    (entry.offset wide).length = offsetWidth wide := by
  cases wide <;> rfl

/-- The entries of a bundle are read from their bytes. -/
theorem readEntries_encode (wide : Bool) (objidx : BitVec 16) (ordinal : BitVec 32)
    (entries : List BundleEntry) (ptr : List UInt8) :
    readEntries wide objidx entries.length ordinal
        (entries.flatMap (BundleEntry.encode wide) ++ ptr) =
      .ok (entryPoints wide objidx ordinal entries, ptr) := by
  induction entries generalizing ordinal with
  | nil => rfl
  | cons entry entries ih =>
    -- The flags are skipped, and the offset is as wide as the bundle says.
    have first := readNumber_bytes (entry.offset wide)
      (entries.flatMap (BundleEntry.encode wide) ++ ptr)
    rw [entry.length_offset] at first
    simp only [List.length_cons, List.flatMap_cons, BundleEntry.encode, List.cons_append,
      List.append_assoc, readEntries, bind, Except.bind, first, ih]
    rfl

/-- Each entry is an export. -/
@[simp] theorem length_entryPoints (entries : List BundleEntry) :
    (entryPoints wide objidx ordinal entries).length = entries.length := by
  induction entries generalizing ordinal with
  | nil => rfl
  | cons entry entries ih => simp [entryPoints, ih]

/-- The bytes of the entries are as many as their widths say. -/
theorem length_entries (wide : Bool) (entries : List BundleEntry) :
    (entries.flatMap (BundleEntry.encode wide)).length = (1 + offsetWidth wide) * entries.length := by
  induction entries with
  | nil => rfl
  | cons entry entries ih =>
    simp only [List.flatMap_cons, List.length_append, BundleEntry.encode, List.length_cons,
      entry.length_offset, ih]
    ring

/-- The highest bit of the type of a bundle without entries is not looked at. -/
theorem unusedType (high : Bool) : typeByte 0x00 high &&& 0x7F = 0x00 := by
  cases high <;> decide

/-- Nor is that of a bundle with entries, which has one of two types. -/
theorem usedType (wide high : Bool) :
    let bundletype := typeByte (if wide then 0x03 else 0x01) high &&& 0x7F
    bundletype ≠ 0x00 ∧ (bundletype = 0x01 ∨ bundletype = 0x03) ∧
      decide (bundletype = 0x03) = wide ∧
      (if bundletype = 0x01 then 3 else 5) = 1 + offsetWidth wide := by
  cases wide <;> cases high <;> decide

/-- The number of entries is the byte in front. -/
theorem count_byte {α : Type} {entries : List α} (present : entries ≠ [])
    (few : entries.length < 256) :
    (UInt8.ofNat entries.length).toNat = entries.length ∧ UInt8.ofNat entries.length ≠ 0 := by
  have number : (UInt8.ofNat entries.length).toNat = entries.length := by
    rw [UInt8.toNat_ofNat']
    exact Nat.mod_eq_of_lt few
  refine ⟨number, fun zero => present ?_⟩
  rw [zero] at number
  exact List.length_eq_zero_iff.mp number.symm

/-- The loader records the exports of the bundles, and stops behind them. -/
theorem recordExports_encode (ordinal : BitVec 32) (bundles : List Bundle) (rest : List UInt8)
    (rounds : Nat) (enough : bundles.length < rounds) :
    recordExports rounds ordinal (bundles.flatMap Bundle.encode ++ 0 :: rest) =
      .ok (exportsOf ordinal bundles, 0 :: rest) := by
  induction bundles generalizing rounds ordinal with
  | nil =>
    obtain ⟨rounds, rfl⟩ := Nat.exists_eq_add_of_lt enough
    simp [recordExports, exportsOf, pure, Except.pure]
  | cons bundle bundles ih =>
    obtain ⟨rounds, rfl⟩ : ∃ more, rounds = more + 1 := ⟨rounds - 1, by omega⟩
    have later := fun ordinal => ih ordinal rounds (by simpa using enough)
    cases bundle with
    | unused high count present =>
      simp only [List.flatMap_cons, Bundle.encode, List.cons_append, List.nil_append,
        recordExports, if_neg present, unusedType high, if_true, later]
      rfl
    | used wide high object0 object1 entries present few =>
      obtain ⟨number, nonzero⟩ := count_byte present few
      have read := fun objidx => readEntries_encode wide objidx ordinal entries
        (bundles.flatMap Bundle.encode ++ 0 :: rest)
      simp only [List.flatMap_cons, Bundle.encode, List.cons_append, List.append_assoc,
        recordExports, if_neg nonzero, if_neg (usedType wide high).1,
        if_pos (usedType wide high).2.1, (usedType wide high).2.2.1, bind, Except.bind, number,
        readNumber_two, read, later]
      rfl

/-- The first pass counts the exports that the second records, so the array has room for them. -/
theorem countOrdinals_encode (ordinal : BitVec 32) (bundles : List Bundle) (rest : List UInt8)
    (rounds : Nat) (enough : bundles.length < rounds) :
    countOrdinals rounds (bundles.flatMap Bundle.encode ++ 0 :: rest) =
      .ok (exportsOf ordinal bundles).length := by
  induction bundles generalizing rounds ordinal with
  | nil =>
    obtain ⟨rounds, rfl⟩ := Nat.exists_eq_add_of_lt enough
    simp [countOrdinals, exportsOf, pure, Except.pure]
  | cons bundle bundles ih =>
    obtain ⟨rounds, rfl⟩ : ∃ more, rounds = more + 1 := ⟨rounds - 1, by omega⟩
    have later := fun ordinal => ih ordinal rounds (by simpa using enough)
    cases bundle with
    | unused high count present =>
      simp only [List.flatMap_cons, Bundle.encode, List.cons_append, List.nil_append,
        countOrdinals, if_neg present, unusedType high, if_true]
      exact later _
    | used wide high object0 object1 entries present few =>
      obtain ⟨number, nonzero⟩ := count_byte present few
      -- The first pass skips as many bytes as the second reads.
      have size : 2 + (1 + offsetWidth wide) * entries.length =
          (object0 :: object1 :: entries.flatMap (BundleEntry.encode wide)).length := by
        simp only [List.length_cons, length_entries]
        omega
      have skip : (object0 :: object1 :: (entries.flatMap (BundleEntry.encode wide) ++
          (bundles.flatMap Bundle.encode ++ 0 :: rest))).drop
            (2 + (1 + offsetWidth wide) * entries.length) =
          bundles.flatMap Bundle.encode ++ 0 :: rest := by
        rw [size, ← List.cons_append, ← List.cons_append, List.drop_left]
      have counted := later (ordinal + BitVec.ofNat 32 entries.length)
      simp only [List.flatMap_cons, Bundle.encode, List.cons_append, List.append_assoc,
        countOrdinals, if_neg nonzero, if_neg (usedType wide high).1,
        (usedType wide high).2.2.2, number, skip, bind, Except.bind, counted]
      simp [exportsOf, Bundle.exports, Bundle.count, length_entryPoints, pure, Except.pure]

end Reading

section Dumping

/-- What lx_dump prints of an entry: the ordinal, the number of the object and the offset. -/
def DumpedEntry.numbers (entry : DumpedEntry) : BitVec 32 × Nat × Nat :=
  (entry.number, entry.object, entry.offset)

/-- What the loader records of an export; objects count from one. -/
def LxEntryPoint.numbers (entry : LxEntryPoint) : BitVec 32 × Nat × Nat :=
  (entry.ordinal, (entry.objidx + 1).toNat, entry.offset)

variable {count : BitVec 32} {bytes stop : List UInt8} {dumped : List DumpedEntry}

/-- The table ends at a zero. -/
theorem dumpEntries_end (ptr : List UInt8) : dumpEntries count (0 :: ptr) = .ok ([], 0 :: ptr) := by
  unfold dumpEntries
  rw [if_pos rfl]
  rfl

/-- A step of lx_dump: the table ends, or the entry is movable and of six bytes, or of three. -/
theorem dumpEntries_cases (ran : dumpEntries count bytes = .ok (dumped, stop)) :
    (∃ ptr, bytes = 0 :: ptr ∧ dumped = [] ∧ stop = bytes) ∨
    (∃ skip0 skip1 objnum lo hi ptr more,
      bytes = 0xFF :: skip0 :: skip1 :: objnum :: lo :: hi :: ptr ∧
      dumped = ⟨count + 1, true, objnum.toNat, littleEndian [lo, hi]⟩ :: more ∧
      dumpEntries (count + 1) ptr = .ok (more, stop)) ∨
    ∃ type lo hi ptr more, type ≠ 0 ∧ type ≠ 0xFF ∧ bytes = type :: lo :: hi :: ptr ∧
      dumped = ⟨count + 1, false, type.toNat, littleEndian [lo, hi]⟩ :: more ∧
      dumpEntries (count + 1) ptr = .ok (more, stop) := by
  cases bytes with
  | nil => cases ran
  | cons type ptr =>
    unfold dumpEntries at ran
    by_cases finished : type = 0
    · rw [if_pos finished] at ran
      cases ran
      exact .inl ⟨ptr, by rw [finished], rfl, rfl⟩
    · rw [if_neg finished] at ran
      by_cases movable : type = 0xFF
      · rw [if_pos movable] at ran
        split at ran
        · next skip0 skip1 objnum lo hi ptr =>
          cases later : dumpEntries (count + 1) ptr with
          | error fault =>
            simp only [later, bind, Except.bind] at ran
            cases ran
          | ok answer =>
            simp only [later, bind, Except.bind] at ran
            cases ran
            exact .inr (.inl ⟨skip0, skip1, objnum, lo, hi, ptr, answer.1, by rw [movable], rfl,
              later⟩)
        · cases ran
      · rw [if_neg movable] at ran
        split at ran
        · next lo hi ptr =>
          cases later : dumpEntries (count + 1) ptr with
          | error fault =>
            simp only [later, bind, Except.bind] at ran
            cases ran
          | ok answer =>
            simp only [later, bind, Except.bind] at ran
            cases ran
            exact .inr (.inr ⟨type, lo, hi, ptr, answer.1, finished, movable, rfl, rfl,
              later⟩)
        · cases ran

/-- The numbers of objects that lx_dump prints are those of a byte. -/
theorem dumped_object_lt (ran : dumpEntries count bytes = .ok (dumped, stop)) :
    ∀ entry ∈ dumped, entry.object < 256 := by
  induction dumped generalizing count bytes with
  | nil => simp
  | cons first more ih =>
    obtain ⟨_, _, empty, _⟩ | ⟨_, _, objnum, _, _, _, _, _, same, later⟩ |
      ⟨type, _, _, _, _, _, _, _, same, later⟩ := dumpEntries_cases ran
    · cases empty
    · cases same
      intro entry member
      rcases List.mem_cons.mp member with rfl | further
      · exact objnum.toNat_lt
      · exact ih later entry further
    · cases same
      intro entry member
      rcases List.mem_cons.mp member with rfl | further
      · exact type.toNat_lt
      · exact ih later entry further

/-- An entry about no object is a movable one. -/
theorem dumpEntries_movable {first : DumpedEntry} {more : List DumpedEntry}
    (ran : dumpEntries count bytes = .ok (first :: more, stop)) (nothing : first.object = 0) :
    ∃ skip0 skip1 lo hi ptr, bytes = 0xFF :: skip0 :: skip1 :: 0 :: lo :: hi :: ptr ∧
      first.offset = littleEndian [lo, hi] ∧ dumpEntries (count + 1) ptr = .ok (more, stop) := by
  obtain ⟨_, _, empty, _⟩ | ⟨skip0, skip1, objnum, lo, hi, ptr, _, held, same, later⟩ |
    ⟨type, _, _, _, _, present, _, _, same, _⟩ := dumpEntries_cases ran
  · cases empty
  · cases same
    have zero : objnum = 0 := UInt8.toNat_inj.mp nothing
    exact ⟨skip0, skip1, lo, hi, ptr, zero ▸ held, rfl, later⟩
  · cases same
    exact absurd (UInt8.toNat_inj.mp nothing) present

/-- Entries about no object stand six bytes behind each other. -/
theorem dumped_movable (k : Nat) (ran : dumpEntries count bytes = .ok (dumped, stop))
    (nothing : ∀ i ≤ k, ∃ entry, dumped[i]? = some entry ∧ entry.object = 0) :
    bytes[6 * k]? = some 0xFF ∧ bytes[6 * k + 3]? = some 0 ∧
      ∃ entry lo hi, dumped[k]? = some entry ∧ entry.offset = littleEndian [lo, hi] ∧
        bytes[6 * k + 4]? = some lo ∧ bytes[6 * k + 5]? = some hi := by
  induction k generalizing count bytes dumped with
  | zero =>
    obtain ⟨first, here, zero⟩ := nothing 0 le_rfl
    obtain ⟨more, rfl⟩ : ∃ more, dumped = first :: more := by
      cases dumped with
      | nil => cases here
      | cons _ more => exact ⟨more, by cases here; rfl⟩
    obtain ⟨skip0, skip1, lo, hi, ptr, rfl, offset, _⟩ := dumpEntries_movable ran zero
    exact ⟨rfl, rfl, first, lo, hi, rfl, offset, rfl, rfl⟩
  | succ k ih =>
    obtain ⟨first, here, zero⟩ := nothing 0 (Nat.zero_le _)
    obtain ⟨more, rfl⟩ : ∃ more, dumped = first :: more := by
      cases dumped with
      | nil => cases here
      | cons _ more => exact ⟨more, by cases here; rfl⟩
    obtain ⟨skip0, skip1, lo, hi, ptr, rfl, _, later⟩ := dumpEntries_movable ran zero
    exact ih later fun i below => nothing (i + 1) (by omega)

/-- So the table is at least as long as they are. -/
theorem dumped_length (k : Nat) (ran : dumpEntries count bytes = .ok (dumped, stop))
    (nothing : ∀ i < k, ∃ entry, dumped[i]? = some entry ∧ entry.object = 0) :
    stop.length + 6 * k ≤ bytes.length := by
  induction dumped generalizing count bytes k with
  | nil =>
    -- Without entries none of them is about no object.
    cases k with
    | zero =>
      obtain ⟨_, _, _, rfl⟩ | ⟨_, _, _, _, _, _, _, _, same, _⟩ |
        ⟨_, _, _, _, _, _, _, _, same, _⟩ := dumpEntries_cases ran
      · omega
      · cases same
      · cases same
    | succ k =>
      obtain ⟨_, here, _⟩ := nothing 0 (Nat.zero_lt_succ k)
      cases here
  | cons first more ih =>
    cases k with
    | zero =>
      obtain ⟨_, _, empty, _⟩ | ⟨_, _, _, _, _, ptr, _, rfl, same, later⟩ |
        ⟨_, _, _, ptr, _, _, _, rfl, same, later⟩ := dumpEntries_cases ran
      · cases empty
      · cases same
        have shorter := ih 0 later fun i below => absurd below (Nat.not_lt_zero i)
        simp only [List.length_cons]
        omega
      · cases same
        have shorter := ih 0 later fun i below => absurd below (Nat.not_lt_zero i)
        simp only [List.length_cons]
        omega
    | succ k =>
      obtain ⟨_, here, zero⟩ := nothing 0 (Nat.zero_lt_succ k)
      cases here
      obtain ⟨_, _, _, _, ptr, rfl, _, later⟩ := dumpEntries_movable ran zero
      have shorter := ih k later fun i below => nothing (i + 1) (by omega)
      simp only [List.length_cons]
      omega

end Dumping

end TwoIne
