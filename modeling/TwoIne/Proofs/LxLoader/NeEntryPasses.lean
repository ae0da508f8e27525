import TwoIne.Proofs.LxLoader.EntryPasses

/-!
The passes over the entry table of an NE module: there the first one counts the entries that are not
there, too, and its count may wrap.
-/

namespace TwoIne

open Ordinals

section Format

/-- The bytes of an entry that names its segment; two of them are not looked at. -/
structure MovableEntry where
  flags : UInt8
  skip0 : UInt8
  skip1 : UInt8
  segment : UInt8
  lo : UInt8
  hi : UInt8

/-- The bytes of an entry in the segment of its bundle. -/
structure FixedEntry where
  flags : UInt8
  lo : UInt8
  hi : UInt8

/-- A bundle of the entry table of an NE module. -/
inductive NeBundle where
  | unused (count : UInt8) (some : count ≠ 0)
  | movable (entries : List MovableEntry) (some : entries ≠ []) (few : entries.length < 256)
  | fixed (segment : UInt8) (used : segment ≠ 0) (fixed : segment ≠ 0xFF)
      (entries : List FixedEntry) (some : entries ≠ []) (few : entries.length < 256)

/-- The bytes of an entry. -/
def MovableEntry.encode (entry : MovableEntry) : List UInt8 :=
  [entry.flags, entry.skip0, entry.skip1, entry.segment, entry.lo, entry.hi]

/-- The bytes of an entry in the segment of its bundle. -/
def FixedEntry.encode (entry : FixedEntry) : List UInt8 := [entry.flags, entry.lo, entry.hi]

/-- The bytes of a bundle. -/
def NeBundle.encode : NeBundle → List UInt8
  | .unused count _ => [count, 0x00]
  | .movable entries _ _ =>
    UInt8.ofNat entries.length :: 0xFF :: entries.flatMap MovableEntry.encode
  | .fixed segment _ _ entries _ _ =>
    UInt8.ofNat entries.length :: segment :: entries.flatMap FixedEntry.encode

/-- What a bundle takes of the ordinals. -/
def NeBundle.group : NeBundle → Group
  | .unused count _ => ⟨count.toNat, false⟩
  | .movable entries _ _ => ⟨entries.length, true⟩
  | .fixed _ _ _ entries _ _ => ⟨entries.length, true⟩

end Format

section Reading

variable {exports : List LxEntryPoint} {ptr stop : List UInt8} {ordinal : BitVec 32}

/-- Entries that name their segments are exports with one ordinal after the other. -/
theorem readMovable_encode (start : Nat) (entries : List MovableEntry) (ptr : List UInt8) :
    ∃ exports, readMovable entries.length (BitVec.ofNat 32 start)
        (entries.flatMap MovableEntry.encode ++ ptr) = .ok (exports, ptr) ∧
      exports.map LxEntryPoint.ordinal =
        (List.range' start entries.length).map (BitVec.ofNat 32) := by
  induction entries generalizing start with
  | nil => exact ⟨[], rfl, rfl⟩
  | cons entry entries ih =>
    have next : BitVec.ofNat 32 start + 1 = BitVec.ofNat 32 (start + 1) :=
      (BitVec.ofNat_add start 1).symm
    obtain ⟨exports, read, ordinals⟩ := ih (start + 1)
    refine ⟨⟨BitVec.ofNat 32 start, BitVec.ofNat 16 (entry.segment - 1).toNat,
      littleEndian [entry.lo, entry.hi]⟩ :: exports, ?_, ?_⟩
    · simp only [List.length_cons, List.flatMap_cons, MovableEntry.encode, List.cons_append,
        List.nil_append, readMovable, next, read, bind, Except.bind]
      rfl
    · rw [List.map_cons, ordinals, List.length_cons, List.range'_succ, List.map_cons]

/-- Entries in one segment are exports with one ordinal after the other. -/
theorem readFixed_encode (segment : UInt8) (start : Nat) (entries : List FixedEntry)
    (ptr : List UInt8) :
    ∃ exports, readFixed segment entries.length (BitVec.ofNat 32 start)
        (entries.flatMap FixedEntry.encode ++ ptr) = .ok (exports, ptr) ∧
      exports.map LxEntryPoint.ordinal =
        (List.range' start entries.length).map (BitVec.ofNat 32) := by
  induction entries generalizing start with
  | nil => exact ⟨[], rfl, rfl⟩
  | cons entry entries ih =>
    have next : BitVec.ofNat 32 start + 1 = BitVec.ofNat 32 (start + 1) :=
      (BitVec.ofNat_add start 1).symm
    obtain ⟨exports, read, ordinals⟩ := ih (start + 1)
    refine ⟨⟨BitVec.ofNat 32 start, BitVec.ofNat 16 (segment - 1).toNat,
      littleEndian [entry.lo, entry.hi]⟩ :: exports, ?_, ?_⟩
    · simp only [List.length_cons, List.flatMap_cons, FixedEntry.encode, List.cons_append,
        List.nil_append, readFixed, next, read, bind, Except.bind]
      rfl
    · rw [List.map_cons, ordinals, List.length_cons, List.range'_succ, List.map_cons]

/-- The second pass writes an export for every entry, with its position as its ordinal. -/
theorem recordNeExports_encode (start : Nat) (bundles : List NeBundle) (rest : List UInt8)
    (rounds : Nat) (enough : bundles.length < rounds) :
    ∃ exports, recordNeExports rounds (BitVec.ofNat 32 start)
        (bundles.flatMap NeBundle.encode ++ 0 :: rest) = .ok (exports, 0 :: rest) ∧
      exports.map LxEntryPoint.ordinal =
        (positions start (bundles.map NeBundle.group)).map (BitVec.ofNat 32) := by
  induction bundles generalizing rounds start with
  | nil =>
    obtain ⟨rounds, rfl⟩ := Nat.exists_eq_add_of_lt enough
    refine ⟨[], ?_, rfl⟩
    simp [recordNeExports, pure, Except.pure]
  | cons bundle bundles ih =>
    obtain ⟨rounds, rfl⟩ : ∃ more, rounds = more + 1 := ⟨rounds - 1, by omega⟩
    obtain ⟨exports, recorded, ordinals⟩ := ih (start + bundle.group.count) rounds
      (by simpa using enough)
    rw [BitVec.ofNat_add] at recorded
    cases bundle with
    | unused count present =>
      refine ⟨exports, ?_, ordinals⟩
      simp only [List.flatMap_cons, NeBundle.encode, List.cons_append, List.nil_append,
        recordNeExports, if_neg present, if_true]
      exact recorded
    | movable entries present few =>
      obtain ⟨number, nonzero⟩ := count_byte present few
      obtain ⟨first, read, here⟩ := readMovable_encode start entries
        (bundles.flatMap NeBundle.encode ++ 0 :: rest)
      have other : ¬ (0xFF : UInt8) = 0x00 := by decide
      refine ⟨first ++ exports, ?_, ?_⟩
      · simp only [NeBundle.group] at recorded
        simp only [List.flatMap_cons, NeBundle.encode, List.cons_append, List.append_assoc,
          recordNeExports, if_neg nonzero, if_neg other, if_true, number, bind, Except.bind, read,
          recorded]
        rfl
      · rw [List.map_append, here, ordinals, List.map_cons, positions, List.map_append]
        rfl
    | fixed segment used fixed entries present few =>
      obtain ⟨number, nonzero⟩ := count_byte present few
      obtain ⟨first, read, here⟩ := readFixed_encode segment start entries
        (bundles.flatMap NeBundle.encode ++ 0 :: rest)
      refine ⟨first ++ exports, ?_, ?_⟩
      · simp only [NeBundle.group] at recorded
        simp only [List.flatMap_cons, NeBundle.encode, List.cons_append, List.append_assoc,
          recordNeExports, if_neg nonzero, if_neg used, if_neg fixed, number, bind, Except.bind,
          read, recorded]
        rfl
      · rw [List.map_append, here, ordinals, List.map_cons, positions, List.map_append]
        rfl

/-- The bytes of entries that name their segments. -/
theorem length_movable (entries : List MovableEntry) :
    (entries.flatMap MovableEntry.encode).length = 6 * entries.length := by
  induction entries with
  | nil => rfl
  | cons entry entries ih =>
    rw [List.flatMap_cons, List.length_append, ih, List.length_cons]
    show 6 + _ = _
    omega

/-- The bytes of entries in one segment. -/
theorem length_fixed (entries : List FixedEntry) :
    (entries.flatMap FixedEntry.encode).length = 3 * entries.length := by
  induction entries with
  | nil => rfl
  | cons entry entries ih =>
    rw [List.flatMap_cons, List.length_append, ih, List.length_cons]
    show 3 + _ = _
    omega

/-- The first pass stops where the second one does, and counts all numbers that are taken. -/
theorem countNeEntries_encode (total : BitVec 32) (bundles : List NeBundle) (rest : List UInt8)
    (rounds : Nat) (enough : bundles.length < rounds) :
    countNeEntries rounds total (bundles.flatMap NeBundle.encode ++ 0 :: rest) =
      .ok (total + BitVec.ofNat 32 (numbers (bundles.map NeBundle.group)), 0 :: rest) := by
  induction bundles generalizing rounds total with
  | nil =>
    obtain ⟨rounds, rfl⟩ := Nat.exists_eq_add_of_lt enough
    simp [countNeEntries, numbers, pure, Except.pure]
  | cons bundle bundles ih =>
    obtain ⟨rounds, rfl⟩ : ∃ more, rounds = more + 1 := ⟨rounds - 1, by omega⟩
    have later := fun total => ih total rounds (by simpa using enough)
    have more : numbers ((bundle :: bundles).map NeBundle.group) =
        bundle.group.count + numbers (bundles.map NeBundle.group) := rfl
    rw [more, BitVec.ofNat_add, ← BitVec.add_assoc, ← later]
    cases bundle with
    | unused count present =>
      have nothing : ¬ ((0x00 : UInt8) ≠ 0x00) := fun other => other rfl
      simp only [List.flatMap_cons, NeBundle.encode, List.cons_append, List.nil_append,
        countNeEntries, if_neg present, if_neg nothing, List.drop_zero]
      rfl
    | movable entries present few =>
      obtain ⟨number, nonzero⟩ := count_byte present few
      have other : (0xFF : UInt8) ≠ 0x00 := by decide
      have skip : (entries.flatMap MovableEntry.encode ++
          (bundles.flatMap NeBundle.encode ++ 0 :: rest)).drop (6 * entries.length) =
          bundles.flatMap NeBundle.encode ++ 0 :: rest := by
        rw [← length_movable, List.drop_left]
      simp only [List.flatMap_cons, NeBundle.encode, List.cons_append, List.append_assoc,
        countNeEntries, if_neg nonzero, if_pos other, if_true, number, skip]
      rfl
    | fixed segment used fixed entries present few =>
      obtain ⟨number, nonzero⟩ := count_byte present few
      have skip : (entries.flatMap FixedEntry.encode ++
          (bundles.flatMap NeBundle.encode ++ 0 :: rest)).drop (3 * entries.length) =
          bundles.flatMap NeBundle.encode ++ 0 :: rest := by
        rw [← length_fixed, List.drop_left]
      simp only [List.flatMap_cons, NeBundle.encode, List.cons_append, List.append_assoc,
        countNeEntries, if_neg nonzero, if_pos used, if_neg fixed, number, skip]
      rfl

/-- The bytes of bundles are more than their entries, and more than the bundles. -/
theorem neBundles_short (bundles : List NeBundle) :
    items (bundles.map NeBundle.group) ≤ (bundles.flatMap NeBundle.encode).length ∧
      bundles.length ≤ (bundles.flatMap NeBundle.encode).length := by
  induction bundles with
  | nil => exact ⟨Nat.le_refl 0, Nat.le_refl 0⟩
  | cons bundle bundles ih =>
    have more : items ((bundle :: bundles).map NeBundle.group) =
        (if bundle.group.used then bundle.group.count else 0) +
          items (bundles.map NeBundle.group) := rfl
    have taken : (if bundle.group.used then bundle.group.count else 0) + 1 ≤
        bundle.encode.length := by
      cases bundle with
      | unused count present => exact Nat.le_succ 1
      | movable entries present few =>
        have bytes := length_movable entries
        simp only [NeBundle.group, NeBundle.encode, List.length_cons, if_true]
        omega
      | fixed segment used fixed entries present few =>
        have bytes := length_fixed entries
        simp only [NeBundle.group, NeBundle.encode, List.length_cons, if_true]
        omega
    rw [more, List.flatMap_cons, List.length_append, List.length_cons]
    omega

/-- So many bytes are the bytes of entries that name their segments. -/
theorem movable_bytes (i : Nat) (bytes : List UInt8) (length : bytes.length = 6 * i) :
    ∃ entries : List MovableEntry, entries.length = i ∧
      bytes = entries.flatMap MovableEntry.encode := by
  induction i generalizing bytes with
  | zero => exact ⟨[], rfl, List.eq_nil_of_length_eq_zero length⟩
  | succ i ih =>
    match bytes, length with
    | flags :: skip0 :: skip1 :: segment :: lo :: hi :: bytes, length =>
      simp only [List.length_cons] at length
      obtain ⟨entries, count, rfl⟩ := ih bytes (by omega)
      exact ⟨⟨flags, skip0, skip1, segment, lo, hi⟩ :: entries, congrArg (· + 1) count, rfl⟩

/-- So many bytes are the bytes of entries in one segment. -/
theorem fixed_bytes (i : Nat) (bytes : List UInt8) (length : bytes.length = 3 * i) :
    ∃ entries : List FixedEntry, entries.length = i ∧
      bytes = entries.flatMap FixedEntry.encode := by
  induction i generalizing bytes with
  | zero => exact ⟨[], rfl, List.eq_nil_of_length_eq_zero length⟩
  | succ i ih =>
    match bytes, length with
    | flags :: lo :: hi :: bytes, length =>
      simp only [List.length_cons] at length
      obtain ⟨entries, count, rfl⟩ := ih bytes (by omega)
      exact ⟨⟨flags, lo, hi⟩ :: entries, congrArg (· + 1) count, rfl⟩

/-- A table that the first pass takes is one of bundles up to a zero. -/
theorem countNeEntries_inverts {rounds : Nat} {total : BitVec 32}
    {counted : BitVec 32 × List UInt8} (ran : countNeEntries rounds total ptr = .ok counted) :
    ∃ (bundles : List NeBundle) (rest : List UInt8),
      ptr = bundles.flatMap NeBundle.encode ++ 0 :: rest := by
  induction rounds generalizing total ptr with
  | zero => cases ran
  | succ rounds ih =>
    match ptr with
    | [] => cases ran
    | numentries :: ptr =>
      unfold countNeEntries at ran
      by_cases finished : numentries = 0
      · exact ⟨[], ptr, by rw [finished]; rfl⟩
      rw [if_neg finished] at ran
      match ptr with
      | [] => cases ran
      | bundletype :: ptr =>
        dsimp only at ran
        obtain ⟨bundles, rest, behind⟩ := ih ran
        by_cases unused : bundletype = 0x00
        · refine ⟨.unused numentries finished :: bundles, rest, ?_⟩
          rw [if_neg (not_not_intro unused), List.drop_zero] at behind
          rw [List.flatMap_cons, NeBundle.encode, behind, unused]
          rfl
        · rw [if_pos unused] at behind
          -- Something is behind the entries, so they are all there.
          have length := congrArg List.length behind
          rw [List.length_drop, List.length_append, List.length_cons] at length
          by_cases movable : bundletype = 0xFF
          · rw [if_pos movable] at behind length
            obtain ⟨entries, count, held⟩ := movable_bytes numentries.toNat
              (ptr.take (6 * numentries.toNat)) (by rw [List.length_take]; omega)
            obtain ⟨some, few, number⟩ := number_count finished count
            refine ⟨.movable entries some few :: bundles, rest, ?_⟩
            rw [List.flatMap_cons, NeBundle.encode, number, ← held, movable, List.append_assoc,
              ← behind, List.cons_append, List.cons_append, List.take_append_drop]
          · rw [if_neg movable] at behind length
            obtain ⟨entries, count, held⟩ := fixed_bytes numentries.toNat
              (ptr.take (3 * numentries.toNat)) (by rw [List.length_take]; omega)
            obtain ⟨some, few, number⟩ := number_count finished count
            refine ⟨.fixed bundletype unused movable entries some few :: bundles, rest, ?_⟩
            rw [List.flatMap_cons, NeBundle.encode, number, ← held, List.append_assoc,
              ← behind, List.cons_append, List.cons_append, List.take_append_drop]

end Reading

section Agreement

variable {exe : List UInt8} {entry_table_offset entry_table_size : Nat} {passes : EntryPasses}
  {bundles : List NeBundle} {rest : List UInt8}

/-- The count of the first pass has room for all entries. -/
def CountFits (groups : List Group) : Prop := items groups ≤ numbers groups % 2 ^ 32

/-- The passes over the table of an NE module agree if the count has room and the ordinals fit. -/
theorem loadNeEntries_agree_iff (short : exe.length < 2 ^ 32)
    (held : exe.drop entry_table_offset = bundles.flatMap NeBundle.encode ++ 0 :: rest)
    (accepted : loadNeEntries exe entry_table_offset = .ok passes) :
    PassesAgree (bundles.map NeBundle.group) passes ↔
      CountFits (bundles.map NeBundle.group) ∧ OrdinalsFit (bundles.map NeBundle.group) := by
  have inside := neBundles_short bundles
  have whole := congrArg List.length held
  rw [List.length_drop, List.length_append] at whole
  have counted := countNeEntries_encode 0 bundles rest (exe.length + 1) (by omega)
  have nothing : (0 : BitVec 32) + BitVec.ofNat 32 (numbers (bundles.map NeBundle.group)) =
      BitVec.ofNat 32 (numbers (bundles.map NeBundle.group)) := BitVec.zero_add _
  rw [nothing] at counted
  obtain ⟨exports, recorded, ordinals⟩ :=
    recordNeExports_encode 1 bundles rest (exe.length + 1) (by omega)
  have one : (BitVec.ofNat 32 1) = 1 := rfl
  rw [one] at recorded
  have total : (BitVec.ofNat 32 (numbers (bundles.map NeBundle.group))).toNat =
      numbers (bundles.map NeBundle.group) % 2 ^ 32 := BitVec.toNat_ofNat _ _
  unfold loadNeEntries at accepted
  rw [held] at accepted
  simp only [counted, recorded, bind, Except.bind] at accepted
  by_cases none_counted : BitVec.ofNat 32 (numbers (bundles.map NeBundle.group)) = 0
  · -- Without a second pass there are no exports.
    rw [if_pos none_counted] at accepted
    cases accepted
    unfold CountFits
    rw [← total, none_counted]
    constructor
    · intro agree
      have empty : items (bundles.map NeBundle.group) = 0 := agree.complete.symm
      refine ⟨Nat.le_of_eq empty, fun position member => ?_⟩
      have none_there := List.eq_nil_of_length_eq_zero
        ((length_positions 1 (bundles.map NeBundle.group)).trans empty)
      rw [none_there] at member
      cases member
    · rintro ⟨room, fit⟩
      have empty : items (bundles.map NeBundle.group) = 0 := Nat.le_zero.mp room
      have none_there := List.eq_nil_of_length_eq_zero
        ((length_positions 1 (bundles.map NeBundle.group)).trans empty)
      refine ⟨fun filled ran => absurd ran.symm (Option.some_ne_none _), Nat.le_refl 0, empty.symm,
        none_there.symm, List.Pairwise.nil⟩
  · rw [if_neg none_counted] at accepted
    cases accepted
    refine (passesAgree_iff ?_ ordinals rfl (by omega)).trans ?_
    · intro filled ran
      exact (Option.some.inj ran).symm
    · unfold CountFits
      rw [← total]

/-- A table that is accepted is one of bundles up to a zero. -/
theorem loadNeEntries_inverts (accepted : loadNeEntries exe entry_table_offset = .ok passes) :
    ∃ (bundles : List NeBundle) (rest : List UInt8),
      exe.drop entry_table_offset = bundles.flatMap NeBundle.encode ++ 0 :: rest := by
  unfold loadNeEntries at accepted
  cases counted : countNeEntries (exe.length + 1) 0 (exe.drop entry_table_offset) with
  | error fault =>
    simp only [counted, bind, Except.bind] at accepted
    cases accepted
  | ok first => exact countNeEntries_inverts counted

/--
Every table that is accepted is one of bundles, and the passes over it agree if the positions of
its entries fit their type and, in an NE module, the count of all entries has room for those that
are there.
-/
theorem entry_passes_agree_iff (short : exe.length < 2 ^ 32)
    (entry_table_offset entry_table_size : Nat) :
    (∀ passes, loadLxEntries exe entry_table_offset = .ok passes →
      ∃ (bundles : List Bundle) (rest : List UInt8),
        exe.drop entry_table_offset = bundles.flatMap Bundle.encode ++ 0 :: rest ∧
          (PassesAgree (bundles.map Bundle.group) passes ↔
            OrdinalsFit (bundles.map Bundle.group))) ∧
    ∀ passes, loadNeExports exe entry_table_offset entry_table_size = .ok (some passes) →
      ∃ (bundles : List NeBundle) (rest : List UInt8),
        exe.drop entry_table_offset = bundles.flatMap NeBundle.encode ++ 0 :: rest ∧
          (PassesAgree (bundles.map NeBundle.group) passes ↔
            CountFits (bundles.map NeBundle.group) ∧
              OrdinalsFit (bundles.map NeBundle.group)) := by
  constructor
  · intro passes accepted
    obtain ⟨bundles, rest, held⟩ := loadLxEntries_inverts accepted
    exact ⟨bundles, rest, held, loadLxEntries_agree_iff short held accepted⟩
  · intro passes accepted
    unfold loadNeExports at accepted
    split at accepted
    · cases accepted
    · cases ran : loadNeEntries exe entry_table_offset with
      | error fault =>
        rw [ran] at accepted
        cases accepted
      | ok found =>
        rw [ran] at accepted
        cases accepted
        obtain ⟨bundles, rest, held⟩ := loadNeEntries_inverts ran
        exact ⟨bundles, rest, held, loadNeEntries_agree_iff short held ran⟩

/-- A table with one bundle of one entry, and the end behind it. -/
theorem single_entry_agree :
    (∀ passes, loadLxEntries [1, 1, 1, 0, 0, 5, 0, 0] 0 = .ok passes →
      ∃ (bundles : List Bundle) (rest : List UInt8),
        [1, 1, 1, 0, 0, 5, 0, 0].drop 0 = bundles.flatMap Bundle.encode ++ 0 :: rest ∧
          (PassesAgree (bundles.map Bundle.group) passes ↔
            OrdinalsFit (bundles.map Bundle.group))) ∧
    ∀ passes, loadNeExports [1, 1, 1, 0, 0, 5, 0, 0] 0 8 = .ok (some passes) →
      ∃ (bundles : List NeBundle) (rest : List UInt8),
        [1, 1, 1, 0, 0, 5, 0, 0].drop 0 = bundles.flatMap NeBundle.encode ++ 0 :: rest ∧
          (PassesAgree (bundles.map NeBundle.group) passes ↔
            CountFits (bundles.map NeBundle.group) ∧
              OrdinalsFit (bundles.map NeBundle.group)) :=
  entry_passes_agree_iff (by decide) 0 8

end Agreement

/-- The entry behind 16843009 bundles of 255 that are not there has the ordinal zero. -/
theorem padded_ordinal_wraps :
    ∃ passes, loadLxEntries (paddedTable 16843009) 0 = .ok passes ∧
      ¬ PassesAgree ((paddedBundles 16843009).map Bundle.group) passes := by
  obtain ⟨passes, accepted, agree⟩ := paddedTable_agree_iff (k := 16843009) (by decide)
  exact ⟨passes, accepted, fun holds => absurd (agree.mp holds) (by decide)⟩

end TwoIne
