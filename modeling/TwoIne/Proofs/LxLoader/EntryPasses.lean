import TwoIne.Lib.Ordinals
import TwoIne.LxLoader.EntryPasses
import TwoIne.Proofs.LxDump.EntryTables

/-!
The two passes over an entry table agree as long as the ordinals fit their type: they stop at one
place, there is room for what is written, and each ordinal is the position of its entry.
-/

namespace TwoIne

open Ordinals

section Lx

variable {wide : Bool} {objidx : BitVec 16} {ordinal : BitVec 32} {exports : List LxEntryPoint}
  {ptr stop : List UInt8}

/-- What a bundle takes of the ordinals. -/
def Bundle.group : Bundle → Group
  | .unused _ count _ => ⟨count.toNat, false⟩
  | .used _ _ _ _ entries _ _ => ⟨entries.length, true⟩

/-- A bundle takes as many ordinals as it stands for. -/
theorem Bundle.group_count (bundle : Bundle) : bundle.group.count = bundle.count := by
  cases bundle <;> rfl

/-- The exports of entries have one ordinal after the other. -/
theorem entryPoints_ordinals (start : Nat) (entries : List BundleEntry) :
    (entryPoints wide objidx (BitVec.ofNat 32 start) entries).map LxEntryPoint.ordinal =
      (List.range' start entries.length).map (BitVec.ofNat 32) := by
  induction entries generalizing start with
  | nil => rfl
  | cons entry entries ih =>
    have next : BitVec.ofNat 32 start + 1 = BitVec.ofNat 32 (start + 1) :=
      (BitVec.ofNat_add start 1).symm
    rw [entryPoints, List.map_cons, List.length_cons, List.range'_succ, List.map_cons, next, ih]

/-- The exports of bundles have the positions of their entries as ordinals. -/
theorem exportsOf_ordinals (start : Nat) (bundles : List Bundle) :
    (exportsOf (BitVec.ofNat 32 start) bundles).map LxEntryPoint.ordinal =
      (positions start (bundles.map Bundle.group)).map (BitVec.ofNat 32) := by
  induction bundles generalizing start with
  | nil => rfl
  | cons bundle bundles ih =>
    rw [exportsOf, List.map_append, ← BitVec.ofNat_add, ih, List.map_cons, positions,
      List.map_append, bundle.group_count]
    congr 1
    cases bundle with
    | unused high count some => rfl
    | used wide high object0 object1 entries some few => exact entryPoints_ordinals start entries

/-- The first pass stops where the second one does, and leaves room for what that one writes. -/
theorem countLxEntries_encode (total : BitVec 32) (bundles : List Bundle) (rest : List UInt8)
    (rounds : Nat) (enough : bundles.length < rounds) :
    countLxEntries rounds total (bundles.flatMap Bundle.encode ++ 0 :: rest) =
      .ok (total + BitVec.ofNat 32 (items (bundles.map Bundle.group)), 0 :: rest) := by
  induction bundles generalizing rounds total with
  | nil =>
    obtain ⟨rounds, rfl⟩ := Nat.exists_eq_add_of_lt enough
    simp [countLxEntries, items, pure, Except.pure]
  | cons bundle bundles ih =>
    obtain ⟨rounds, rfl⟩ : ∃ more, rounds = more + 1 := ⟨rounds - 1, by omega⟩
    have later := fun total => ih total rounds (by simpa using enough)
    cases bundle with
    | unused high count present =>
      have same : items ((Bundle.unused high count present :: bundles).map Bundle.group) =
          items (bundles.map Bundle.group) := Nat.zero_add _
      simp only [List.flatMap_cons, Bundle.encode, List.cons_append, List.nil_append,
        countLxEntries, if_neg present, unusedType high, if_true, later, same]
    | used wide high object0 object1 entries present few =>
      obtain ⟨number, nonzero⟩ := count_byte present few
      -- The first pass skips as many bytes as the second reads.
      have size : 2 + (1 + offsetWidth wide) * entries.length =
          (object0 :: object1 :: entries.flatMap (BundleEntry.encode wide)).length := by
        simp only [List.length_cons, length_entries]
        omega
      have skip : (object0 :: object1 :: (entries.flatMap (BundleEntry.encode wide) ++
          (bundles.flatMap Bundle.encode ++ 0 :: rest))).drop
            (2 + (1 + offsetWidth wide) * entries.length) =
          bundles.flatMap Bundle.encode ++ 0 :: rest := by
        rw [size, ← List.cons_append, ← List.cons_append, List.drop_left]
      have more : items ((Bundle.used wide high object0 object1 entries present few ::
          bundles).map Bundle.group) = entries.length + items (bundles.map Bundle.group) := rfl
      simp only [List.flatMap_cons, Bundle.encode, List.cons_append, List.append_assoc,
        countLxEntries, if_neg nonzero, if_neg (usedType wide high).1,
        (usedType wide high).2.2.2, number, skip, later, more]
      rw [BitVec.ofNat_add, BitVec.add_assoc]

/-- The first pass counts what it counts without the place where it stops. -/
theorem countLxEntries_total (rounds : Nat) (total : BitVec 32) (ptr : List UInt8) :
    (countLxEntries rounds total ptr).map Prod.fst =
      (countOrdinals rounds ptr).map fun count => total + BitVec.ofNat 32 count := by
  induction rounds generalizing total ptr with
  | zero => rfl
  | succ rounds ih =>
    match ptr with
    | [] => rfl
    | [numentries] =>
      unfold countLxEntries countOrdinals
      by_cases finished : numentries = 0
      · rw [if_pos finished, if_pos finished]
        exact congrArg Except.ok (BitVec.add_zero total).symm
      · rw [if_neg finished, if_neg finished]
        rfl
    | numentries :: type :: ptr =>
      unfold countLxEntries countOrdinals
      by_cases finished : numentries = 0
      · rw [if_pos finished, if_pos finished]
        exact congrArg Except.ok (BitVec.add_zero total).symm
      · rw [if_neg finished, if_neg finished]
        dsimp only
        by_cases unused : type &&& 0x7F = 0x00
        · rw [if_pos unused, if_pos unused]
          exact ih total ptr
        · rw [if_neg unused, if_neg unused, ih]
          -- What is counted so far is added in front, or behind.
          cases countOrdinals rounds (ptr.drop _) with
          | error fault => rfl
          | ok count =>
            refine congrArg Except.ok ?_
            dsimp only
            rw [BitVec.ofNat_add, BitVec.add_assoc]

/-- Both models of the loader set up the same exports. -/
theorem loadLxExports_passes (exe : List UInt8) (entry_table_offset : Nat) :
    loadLxExports exe entry_table_offset = (loadLxEntries exe entry_table_offset).map fun passes =>
      (passes.exports, passes.filled.getD []) := by
  have same := countLxEntries_total (exe.length + 1) 0 (exe.drop entry_table_offset)
  unfold loadLxExports loadLxEntries
  cases counted : countLxEntries (exe.length + 1) 0 (exe.drop entry_table_offset) with
  | error fault =>
    cases count : countOrdinals (exe.length + 1) (exe.drop entry_table_offset) with
    | error other =>
      rw [counted, count] at same
      cases same
      simp only [count, counted, bind, Except.bind]
      rfl
    | ok count' =>
      rw [counted, count] at same
      cases same
  | ok first =>
    cases count : countOrdinals (exe.length + 1) (exe.drop entry_table_offset) with
    | error fault =>
      rw [counted, count] at same
      cases same
    | ok count' =>
      simp only [count, counted, bind, Except.bind]
      cases recordExports (exe.length + 1) 1 (exe.drop entry_table_offset) with
      | error fault => rfl
      | ok second => rfl

/-- A type is its low bits, with the highest one. -/
theorem typeByte_split (type : UInt8) :
    typeByte (type &&& 0x7F) (decide (type &&& 0x80 ≠ 0)) = type := by
  have all : ∀ bits : BitVec 8, typeByte (UInt8.ofBitVec bits &&& 0x7F)
      (decide (UInt8.ofBitVec bits &&& 0x80 ≠ 0)) = UInt8.ofBitVec bits := by decide
  exact all type.toBitVec

/-- Bytes that are read as an offset are the bytes of an entry. -/
theorem readNumber_entry {value : Nat} (flags : UInt8)
    (read : readNumber (offsetWidth wide) ptr = .ok (value, stop)) :
    ∃ entry : BundleEntry, flags :: ptr = entry.encode wide ++ stop := by
  unfold readNumber at read
  split at read
  · rename_i enough
    cases read
    cases wide with
    | false =>
      match ptr, enough with
      | byte0 :: byte1 :: ptr, _ => exact ⟨⟨flags, byte0, byte1, 0, 0⟩, rfl⟩
    | true =>
      match ptr, enough with
      | byte0 :: byte1 :: byte2 :: byte3 :: ptr, _ =>
        exact ⟨⟨flags, byte0, byte1, byte2, byte3⟩, rfl⟩
  · cases read

/-- Bytes that are read as entries are the bytes of entries. -/
theorem readEntries_inverts {i : Nat}
    (read : readEntries wide objidx i ordinal ptr = .ok (exports, stop)) :
    ∃ entries : List BundleEntry, entries.length = i ∧
      ptr = entries.flatMap (BundleEntry.encode wide) ++ stop := by
  induction i generalizing ordinal ptr exports with
  | zero =>
    cases read
    exact ⟨[], rfl, rfl⟩
  | succ i ih =>
    cases ptr with
    | nil => cases read
    | cons flags ptr =>
      unfold readEntries at read
      cases number : readNumber (offsetWidth wide) ptr with
      | error fault =>
        simp only [number, bind, Except.bind] at read
        cases read
      | ok first =>
        cases more : readEntries wide objidx i (ordinal + 1) first.2 with
        | error fault =>
          simp only [number, more, bind, Except.bind] at read
          cases read
        | ok later =>
          simp only [number, more, bind, Except.bind] at read
          cases read
          obtain ⟨entry, held⟩ := readNumber_entry flags number
          obtain ⟨entries, length, rest⟩ := ih more
          refine ⟨entry :: entries, by rw [List.length_cons, length], ?_⟩
          rw [held, List.flatMap_cons, List.append_assoc, ← rest]

/-- A number of two bytes takes two bytes. -/
theorem readNumber_pair {first : Nat × List UInt8} (read : readNumber 2 ptr = .ok first) :
    ∃ byte0 byte1, ptr = byte0 :: byte1 :: first.2 := by
  unfold readNumber at read
  split at read
  · rename_i enough
    cases read
    match ptr, enough with
    | byte0 :: byte1 :: ptr, _ => exact ⟨byte0, byte1, rfl⟩
  · cases read

/-- A count that is not zero counts entries that are there, and fits its byte. -/
theorem number_count {α : Type} {numentries : UInt8} {entries : List α} (some_there : numentries ≠ 0)
    (length : entries.length = numentries.toNat) :
    entries ≠ [] ∧ entries.length < 256 ∧ UInt8.ofNat entries.length = numentries := by
  refine ⟨fun none_there => some_there ?_, length ▸ numentries.toNat_lt, ?_⟩
  · rw [none_there] at length
    exact UInt8.toNat_inj.mp length.symm
  · rw [length, UInt8.ofNat_toNat]

/-- One of the two types with entries is told by whether the offsets are wide. -/
theorem used_type {bundletype : UInt8} (known : bundletype = 0x01 ∨ bundletype = 0x03) :
    (if decide (bundletype = 0x03) = true then 0x03 else 0x01) = bundletype := by
  rcases known with rfl | rfl
  · rfl
  · rfl

/-- A table that the second pass takes is one of bundles up to a zero. -/
theorem recordExports_inverts {rounds : Nat}
    (ran : recordExports rounds ordinal ptr = .ok (exports, stop)) :
    ∃ (bundles : List Bundle) (rest : List UInt8),
      ptr = bundles.flatMap Bundle.encode ++ 0 :: rest := by
  induction rounds generalizing ordinal ptr exports with
  | zero => cases ran
  | succ rounds ih =>
    cases ptr with
    | nil => cases ran
    | cons numentries ptr =>
      unfold recordExports at ran
      by_cases finished : numentries = 0
      · exact ⟨[], ptr, by rw [finished]; rfl⟩
      rw [if_neg finished] at ran
      cases ptr with
      | nil => cases ran
      | cons type ptr =>
        dsimp only at ran
        have split_type := typeByte_split type
        by_cases unused : type &&& 0x7F = 0x00
        · rw [if_pos unused] at ran
          obtain ⟨bundles, rest, held⟩ := ih ran
          rw [unused] at split_type
          refine ⟨.unused (type &&& 0x80 ≠ 0) numentries finished :: bundles, rest, ?_⟩
          rw [List.flatMap_cons, Bundle.encode, split_type, held]
          rfl
        · rw [if_neg unused] at ran
          by_cases known : type &&& 0x7F = 0x01 ∨ type &&& 0x7F = 0x03
          · rw [if_pos known] at ran
            cases object : readNumber 2 ptr with
            | error fault =>
              simp only [object, bind, Except.bind] at ran
              cases ran
            | ok first =>
              cases read : readEntries (decide (type &&& 0x7F = 0x03))
                  (BitVec.ofNat 16 first.1 - 1) numentries.toNat ordinal first.2 with
              | error fault =>
                simp only [object, read, bind, Except.bind] at ran
                cases ran
              | ok second =>
                cases later : recordExports rounds
                    (ordinal + BitVec.ofNat 32 numentries.toNat) second.2 with
                | error fault =>
                  simp only [object, read, later, bind, Except.bind] at ran
                  cases ran
                | ok third =>
                  simp only [object, read, later, bind, Except.bind] at ran
                  cases ran
                  obtain ⟨object0, object1, rfl⟩ := readNumber_pair object
                  obtain ⟨entries, length, held⟩ := readEntries_inverts read
                  obtain ⟨bundles, rest, behind⟩ := ih later
                  have number := number_count finished length
                  refine ⟨.used (type &&& 0x7F = 0x03) (type &&& 0x80 ≠ 0) object0 object1 entries
                    number.1 number.2.1 :: bundles, rest, ?_⟩
                  rw [List.flatMap_cons, Bundle.encode, number.2.2, used_type known, split_type,
                    held, behind]
                  simp only [List.cons_append, List.append_assoc]
          · rw [if_neg known] at ran
            split at ran
            · cases ran
            · cases ran

end Lx

section Agreement

variable {groups : List Group} {passes : EntryPasses} {exe : List UInt8} {entry_table_offset : Nat}

/--
Both passes stop at one place, there is room for what the second one writes, every entry that is
not empty is an export, and its ordinal is its position among all entries.
-/
structure PassesAgree (groups : List Group) (passes : EntryPasses) : Prop where
  consumed : ∀ filled, passes.filled = some filled → filled = passes.counted
  room : passes.exports.length ≤ passes.total_ordinals.toNat
  complete : passes.num_exports.toNat = items groups
  ordinals : (passes.exports.map fun entry => entry.ordinal.toNat) = positions 1 groups
  increasing : (passes.exports.map fun entry => entry.ordinal.toNat).Pairwise (· < ·)

/-- All positions of entries fit the type of ordinals. -/
def OrdinalsFit (groups : List Group) : Prop := ∀ position ∈ positions 1 groups, position < 2 ^ 32

/-- Passes that write every entry agree if there is room and the ordinals fit. -/
theorem passesAgree_iff (consumed : ∀ filled, passes.filled = some filled → filled = passes.counted)
    (cut : passes.exports.map LxEntryPoint.ordinal =
      (positions 1 groups).map (BitVec.ofNat 32))
    (number : passes.num_exports = BitVec.ofNat 32 passes.exports.length)
    (few : items groups < 2 ^ 32) :
    PassesAgree groups passes ↔
      items groups ≤ passes.total_ordinals.toNat ∧ OrdinalsFit groups := by
  have length : passes.exports.length = items groups := by
    have same := congrArg List.length cut
    rw [List.length_map, List.length_map, length_positions] at same
    exact same
  have values : (passes.exports.map fun entry => entry.ordinal.toNat) =
      (positions 1 groups).map fun position => (BitVec.ofNat 32 position).toNat := by
    have same := congrArg (List.map BitVec.toNat) cut
    rw [List.map_map, List.map_map] at same
    exact same
  constructor
  · intro agree
    refine ⟨length ▸ agree.room, (positions_cut_iff 32 1 groups).mp ?_⟩
    exact values.symm.trans agree.ordinals
  · rintro ⟨room, fit⟩
    have ordinals := values.trans ((positions_cut_iff 32 1 groups).mpr fit)
    refine ⟨consumed, length ▸ room, ?_, ordinals, ?_⟩
    · rw [number, length, BitVec.toNat_ofNat, Nat.mod_eq_of_lt few]
    · rw [ordinals]
      exact positions_increasing 1 groups

/-- The bytes of bundles are more than their entries, and more than the bundles. -/
theorem bundles_short (bundles : List Bundle) :
    items (bundles.map Bundle.group) ≤ (bundles.flatMap Bundle.encode).length ∧
      bundles.length ≤ (bundles.flatMap Bundle.encode).length := by
  induction bundles with
  | nil => exact ⟨Nat.le_refl 0, Nat.le_refl 0⟩
  | cons bundle bundles ih =>
    rw [List.flatMap_cons, List.length_append, List.length_cons]
    cases bundle with
    | unused high count some =>
      have same : items ((Bundle.unused high count some :: bundles).map Bundle.group) =
          items (bundles.map Bundle.group) := Nat.zero_add _
      rw [same]
      simp only [Bundle.encode, List.length_cons, List.length_nil]
      omega
    | used wide high object0 object1 entries some few =>
      have bytes := length_entries wide entries
      have each : entries.length ≤ (1 + offsetWidth wide) * entries.length :=
        Nat.le_mul_of_pos_left _ (by omega)
      have more : items ((Bundle.used wide high object0 object1 entries some few ::
          bundles).map Bundle.group) = entries.length + items (bundles.map Bundle.group) := rfl
      rw [more]
      simp only [Bundle.encode, List.length_cons]
      omega

/-- The passes over the table of an LX module that is there. -/
theorem loadLxEntries_eq {bundles : List Bundle} {rest : List UInt8}
    (held : exe.drop entry_table_offset = bundles.flatMap Bundle.encode ++ 0 :: rest) :
    loadLxEntries exe entry_table_offset =
      .ok ⟨BitVec.ofNat 32 (items (bundles.map Bundle.group)), 0 :: rest, exportsOf 1 bundles,
        BitVec.ofNat 32 (exportsOf 1 bundles).length, some (0 :: rest)⟩ := by
  have enough : bundles.length < exe.length + 1 := by
    have short := (bundles_short bundles).2
    have whole := congrArg List.length held
    rw [List.length_drop, List.length_append] at whole
    omega
  have counted := countLxEntries_encode 0 bundles rest (exe.length + 1) enough
  have recorded := recordExports_encode 1 bundles rest (exe.length + 1) enough
  have nothing : (0 : BitVec 32) + BitVec.ofNat 32 (items (bundles.map Bundle.group)) =
      BitVec.ofNat 32 (items (bundles.map Bundle.group)) := BitVec.zero_add _
  rw [nothing] at counted
  unfold loadLxEntries
  rw [held]
  simp only [counted, recorded, bind, Except.bind]
  rfl

/-- The passes over the table of an LX module agree if the ordinals fit. -/
theorem loadLxEntries_agree_iff (short : exe.length < 2 ^ 32) {bundles : List Bundle}
    {rest : List UInt8}
    (held : exe.drop entry_table_offset = bundles.flatMap Bundle.encode ++ 0 :: rest)
    (accepted : loadLxEntries exe entry_table_offset = .ok passes) :
    PassesAgree (bundles.map Bundle.group) passes ↔ OrdinalsFit (bundles.map Bundle.group) := by
  have inside := (bundles_short bundles).1
  have whole := congrArg List.length held
  rw [List.length_drop, List.length_append] at whole
  have few : items (bundles.map Bundle.group) < 2 ^ 32 := by omega
  rw [loadLxEntries_eq held] at accepted
  cases accepted
  refine (passesAgree_iff ?_ (exportsOf_ordinals 1 bundles) rfl few).trans ?_
  · intro filled ran
    exact (Option.some.inj ran).symm
  · -- The first pass has counted the entries that are there, and no others.
    have room : (BitVec.ofNat 32 (items (bundles.map Bundle.group))).toNat =
        items (bundles.map Bundle.group) := by
      rw [BitVec.toNat_ofNat, Nat.mod_eq_of_lt few]
    dsimp only
    rw [room]
    exact and_iff_right (Nat.le_refl _)

/-- A table that is accepted is one of bundles up to a zero. -/
theorem loadLxEntries_inverts (accepted : loadLxEntries exe entry_table_offset = .ok passes) :
    ∃ (bundles : List Bundle) (rest : List UInt8),
      exe.drop entry_table_offset = bundles.flatMap Bundle.encode ++ 0 :: rest := by
  unfold loadLxEntries at accepted
  cases counted : countLxEntries (exe.length + 1) 0 (exe.drop entry_table_offset) with
  | error fault =>
    simp only [counted, bind, Except.bind] at accepted
    cases accepted
  | ok first =>
    cases recorded : recordExports (exe.length + 1) 1 (exe.drop entry_table_offset) with
    | error fault =>
      simp only [counted, recorded, bind, Except.bind] at accepted
      cases accepted
    | ok second => exact recordExports_inverts recorded

end Agreement

section Wrapping

/-- So many bundles of 255 entries that are not there, with a single entry behind them. -/
def paddedBundles (k : Nat) : List Bundle :=
  List.replicate k (.unused false 255 (by decide)) ++
    [.used false false 1 0 [⟨0, 0, 0, 0, 0⟩] (by decide) (by decide)]

/-- The position of the entry behind them. -/
theorem positions_padded (k start : Nat) :
    positions start ((paddedBundles k).map Bundle.group) = [start + 255 * k] := by
  induction k generalizing start with
  | zero => rfl
  | succ k ih =>
    have first : positions start ((paddedBundles (k + 1)).map Bundle.group) =
        positions (start + 255) ((paddedBundles k).map Bundle.group) := rfl
    rw [first, ih, Nat.mul_succ, Nat.add_assoc, Nat.add_comm 255]

/-- The bytes of the bundles. -/
theorem length_padded (k : Nat) : ((paddedBundles k).flatMap Bundle.encode).length = 2 * k + 7 := by
  induction k with
  | zero => rfl
  | succ k ih =>
    have first : ((paddedBundles (k + 1)).flatMap Bundle.encode).length =
        ((paddedBundles k).flatMap Bundle.encode).length + 2 := rfl
    omega

/-- The table with these bundles. -/
def paddedTable (k : Nat) : List UInt8 := (paddedBundles k).flatMap Bundle.encode ++ [0]

/-- The passes over it agree if the position of its entry fits. -/
theorem paddedTable_agree_iff {k : Nat} (short : 2 * k + 8 < 2 ^ 32) :
    ∃ passes, loadLxEntries (paddedTable k) 0 = .ok passes ∧
      (PassesAgree ((paddedBundles k).map Bundle.group) passes ↔ 1 + 255 * k < 2 ^ 32) := by
  have held : (paddedTable k).drop 0 = (paddedBundles k).flatMap Bundle.encode ++ 0 :: [] := rfl
  have length : (paddedTable k).length < 2 ^ 32 := by
    unfold paddedTable
    rw [List.length_append, length_padded]
    exact short
  have accepted := loadLxEntries_eq held
  refine ⟨_, accepted, (loadLxEntries_agree_iff length held accepted).trans ?_⟩
  unfold OrdinalsFit
  rw [positions_padded]
  exact List.forall_mem_singleton

end Wrapping

end TwoIne
