import TwoIne.LxLoader.Fixups

/-!
A page is fixed up record by record; a list of sources is as good as a record for each of them, and
a field on the boundary of two pages can be fixed up from both.
-/

namespace TwoIne

open Buffers Memories Regions

/-- A number is read as it was stored. -/
theorem fixupNumber_stored (width n : Nat) (fits : n < 256 ^ width) (rest : List UInt8) :
    fixupNumber width (littleBytes width n ++ rest) = .ok (n, rest) := by
  have length : (littleBytes width n).length = width := littleBytes_length width n
  rw [fixupNumber, if_pos (by rw [List.length_append]; omega), List.take_left' length,
    List.drop_left' length, littleEndian_littleBytes, Nat.mod_eq_of_lt fits]

/-- The target of a record is read as it was stored. -/
theorem readFixupTarget_stored (env : FixupEnv) (entry : FixupEntry) (rest : List UInt8) :
    readFixupTarget env entry.srctype entry.fixupflags
        (littleBytes (idWidth entry.fixupflags) entry.id ++
          (littleBytes (valueWidth entry.srctype entry.fixupflags) entry.value ++ rest)) =
      (entry.target env).map fun value => (value, rest) := by
  have value_fits := entry.value_fits
  match kind : (entry.fixupflags &&& 0x3).toNat with
  | 0 =>
    simp only [readFixupTarget, FixupEntry.target, kind, fixupNumber_stored _ _ entry.id_fits, bind,
      Except.bind]
    by_cases selector : sourceKind entry.srctype ≠ 2
    · have width : valueWidth entry.srctype entry.fixupflags = wideWidth entry.fixupflags := by
        rw [valueWidth, kind]
        exact if_pos selector
      rw [width] at value_fits ⊢
      simp only [if_pos selector, fixupNumber_stored _ _ value_fits]
      cases internalValue env entry.srctype entry.id (BitVec.ofNat 32 entry.value) <;> rfl
    · -- A selector has no offset, and zero is what stands for it.
      have width : valueWidth entry.srctype entry.fixupflags = 0 := by
        rw [valueWidth, kind]
        exact if_neg selector
      have zero : entry.value = 0 := by
        rw [width] at value_fits
        omega
      simp only [if_neg selector, width, zero, littleBytes, List.nil_append]
      cases internalValue env entry.srctype entry.id (BitVec.ofNat 32 0) <;> rfl
  | 1 =>
    simp only [readFixupTarget, FixupEntry.target, kind, fixupNumber_stored _ _ entry.id_fits, bind,
      Except.bind]
    by_cases short : entry.fixupflags &&& 0x80 ≠ 0
    · have width : valueWidth entry.srctype entry.fixupflags = 1 := by
        rw [valueWidth, kind]
        exact if_pos short
      rw [width] at value_fits ⊢
      simp only [if_pos short, fixupNumber_stored _ _ value_fits]
      cases importValue env entry.srctype entry.id _ <;> rfl
    · have width : valueWidth entry.srctype entry.fixupflags = wideWidth entry.fixupflags := by
        rw [valueWidth, kind]
        exact if_neg short
      rw [width] at value_fits ⊢
      simp only [if_neg short, fixupNumber_stored _ _ value_fits]
      cases importValue env entry.srctype entry.id _ <;> rfl
  | 2 =>
    have width : valueWidth entry.srctype entry.fixupflags = wideWidth entry.fixupflags := by
      simp only [valueWidth, kind]
    rw [width] at value_fits ⊢
    simp only [readFixupTarget, FixupEntry.target, kind, fixupNumber_stored _ _ entry.id_fits,
      fixupNumber_stored _ _ value_fits, bind, Except.bind]
    cases nameValue env entry.srctype entry.id entry.value <;> rfl
  | _ + 3 =>
    simp only [readFixupTarget, FixupEntry.target, kind]
    rfl

/-- The fields whose offsets are listed are written one after the other. -/
theorem applySources_stored (page : BitVec 32) (srctype : UInt8) (value : FixupValue)
    (rest : List UInt8) (sources : List (BitVec 16)) : ∀ memory : Memory,
    applySources page srctype value sources.length (offsetBytes sources ++ rest) memory =
      (sources.foldlM (fun memory offset => applySource page srctype value offset memory)
        memory).map fun memory => (memory, rest) := by
  induction sources with
  | nil =>
    intro memory
    rfl
  | cons offset sources ih =>
    intro memory
    have offset_read := fixupNumber_stored 2 offset.toNat offset.isLt
      (offsetBytes sources ++ rest)
    have split : offsetBytes (offset :: sources) ++ rest =
        littleBytes 2 offset.toNat ++ (offsetBytes sources ++ rest) := by
      rw [offsetBytes, List.flatMap_cons, List.append_assoc]
      rfl
    rw [split, List.length_cons, applySources]
    simp only [offset_read, bind, Except.bind, BitVec.ofNat_toNat, BitVec.setWidth_eq,
      List.foldlM_cons]
    cases applySource page srctype value offset memory with
    | error stop => rfl
    | ok memory => exact ih memory

/-- The additive of a record is read as it was stored, and is zero if there is none. -/
theorem additive_stored (entry : FixupEntry) (rest : List UInt8) :
    readAdditive entry.fixupflags
        (littleBytes (additiveSize entry.fixupflags) entry.additive ++ rest) =
      .ok (entry.additive, rest) := by
  have additive_fits := entry.additive_fits
  rw [additiveSize] at additive_fits ⊢
  rw [readAdditive]
  by_cases present : entry.fixupflags &&& 0x4 ≠ 0
  · simp only [if_pos present] at additive_fits ⊢
    exact fixupNumber_stored _ _ additive_fits rest
  · simp only [if_neg present] at additive_fits ⊢
    have zero : entry.additive = 0 := by omega
    rw [zero]
    rfl

/-- The last of several sources is the same as the only one. -/
theorem last_source (written : Except FixupStop Memory) (rest : List UInt8) :
    (written >>= fun memory => pure (memory, rest)) =
      (written >>= fun memory => pure memory).map fun memory => (memory, rest) := by
  cases written <;> rfl

/-- A record is read to its end, and does what it is for, or stops the program. -/
theorem fixupRecord_stored (env : FixupEnv) (page : BitVec 32) (entry : FixupEntry)
    (rest : List UInt8) (memory : Memory) :
    fixupRecord env page (entry.encode ++ rest) memory =
      (entry.apply env page memory).map fun memory => (memory, rest) := by
  have sources_count := entry.sources_count
  simp only [FixupEntry.apply, FixupEntry.resolve]
  by_cases list : hasSourceList entry.srctype = true
  · -- The count comes first, and the offsets come last.
    rw [if_pos list] at sources_count
    have split : entry.encode ++ rest = entry.srctype :: entry.fixupflags ::
        (littleBytes 1 entry.sources.length ++ (littleBytes (idWidth entry.fixupflags) entry.id ++
        (littleBytes (valueWidth entry.srctype entry.fixupflags) entry.value ++
        (littleBytes (additiveSize entry.fixupflags) entry.additive ++
        (offsetBytes entry.sources ++ rest))))) := by
      simp only [FixupEntry.encode, if_pos list, List.cons_append, List.append_assoc]
    have count_read := fixupNumber_stored 1 entry.sources.length sources_count
      (littleBytes (idWidth entry.fixupflags) entry.id ++
        (littleBytes (valueWidth entry.srctype entry.fixupflags) entry.value ++
        (littleBytes (additiveSize entry.fixupflags) entry.additive ++
        (offsetBytes entry.sources ++ rest))))
    rw [split, fixupRecord]
    simp only [if_pos list, count_read, bind, Except.bind, readFixupTarget_stored]
    cases entry.target env with
    | error stop => rfl
    | ok value =>
      simp only [Except.map, additive_stored]
      exact applySources_stored page entry.srctype _ rest entry.sources memory
  · -- The only offset comes first.
    rw [if_neg list] at sources_count
    obtain ⟨offset, single⟩ := List.length_eq_one_iff.mp sources_count
    have split : entry.encode ++ rest = entry.srctype :: entry.fixupflags ::
        (littleBytes 2 offset.toNat ++ (littleBytes (idWidth entry.fixupflags) entry.id ++
        (littleBytes (valueWidth entry.srctype entry.fixupflags) entry.value ++
        (littleBytes (additiveSize entry.fixupflags) entry.additive ++ rest)))) := by
      simp [FixupEntry.encode, if_neg list, single, offsetBytes]
    have offset_read := fixupNumber_stored 2 offset.toNat offset.isLt
      (littleBytes (idWidth entry.fixupflags) entry.id ++
        (littleBytes (valueWidth entry.srctype entry.fixupflags) entry.value ++
        (littleBytes (additiveSize entry.fixupflags) entry.additive ++ rest)))
    rw [split, fixupRecord]
    simp only [if_neg list, offset_read, bind, Except.bind, readFixupTarget_stored]
    cases entry.target env with
    | error stop => rfl
    | ok value =>
      simp only [Except.map, additive_stored, BitVec.ofNat_toNat, BitVec.setWidth_eq, single]
      exact last_source _ rest

/-- A record has at least the bytes of its type and its flags. -/
theorem encode_pos (entry : FixupEntry) : 0 < entry.encode.length := by
  rw [FixupEntry.encode, List.length_cons]
  omega

/-- The records of a page are applied one after the other, and nothing behind them is. -/
theorem fixupRecords_stored (env : FixupEnv) (page : BitVec 32) (rest : List UInt8)
    (entries : List FixupEntry) : ∀ (fuel : Nat) (memory : Memory), entries.length < fuel →
      fixupRecords env page fuel (entries.flatMap FixupEntry.encode).length
          (entries.flatMap FixupEntry.encode ++ rest) memory =
        entries.foldlM (fun memory entry => entry.apply env page memory) memory := by
  induction entries with
  | nil =>
    intro fuel memory enough
    obtain ⟨fuel, rfl⟩ := Nat.exists_eq_succ_of_ne_zero (by omega : fuel ≠ 0)
    rfl
  | cons entry entries ih =>
    intro fuel memory enough
    rw [List.length_cons] at enough
    obtain ⟨fuel, rfl⟩ := Nat.exists_eq_succ_of_ne_zero (by omega : fuel ≠ 0)
    have some_left := encode_pos entry
    have used : (entry.encode ++ (entries.flatMap FixupEntry.encode ++ rest)).length -
        (entries.flatMap FixupEntry.encode ++ rest).length = entry.encode.length := by
      rw [List.length_append, Nat.add_sub_cancel]
    have left : ((entry.encode ++ entries.flatMap FixupEntry.encode).length : Int) -
        (entry.encode.length : Nat) = (entries.flatMap FixupEntry.encode).length := by
      rw [List.length_append]
      omega
    rw [List.flatMap_cons, fixupRecords, if_pos (by rw [List.length_append]; omega),
      List.append_assoc, fixupRecord_stored, List.foldlM_cons]
    cases entry.apply env page memory with
    | error stop => rfl
    | ok memory =>
      simp only [Except.map, bind, Except.bind, used, left]
      exact ih fuel memory (by omega)

/-- The tables say that these are the records of a page. -/
def FixupTables.Store (tables : FixupTables) (index : Nat) (entries : List FixupEntry) : Prop :=
  ∃ front rest, tables.fixup_records = front ++ (entries.flatMap FixupEntry.encode ++ rest) ∧
    tables.fixup_page_table[index]? = some front.length ∧
    tables.fixup_page_table[index + 1]? =
      some (front.length + (entries.flatMap FixupEntry.encode).length) ∧
    front.length + (entries.flatMap FixupEntry.encode).length < 0x100000000

/-- The records that the tables say are applied to a page. -/
theorem fixupPage_stored {env : FixupEnv} {page : BitVec 32} {tables : FixupTables} {index : Nat}
    {entries : List FixupEntry} (stored : tables.Store index entries) {fuel : Nat}
    (enough : entries.length < fuel) (memory : Memory) :
    fixupPage env tables index page fuel memory =
      entries.foldlM (fun memory entry => entry.apply env page memory) memory := by
  obtain ⟨front, rest, records, first, next, small⟩ := stored
  have length : uint32Sub (front.length + (entries.flatMap FixupEntry.encode).length)
      front.length = (entries.flatMap FixupEntry.encode).length := by
    rw [uint32Sub]
    omega
  simp only [fixupPage, first, next, length, records, List.drop_left]
  exact fixupRecords_stored env page rest entries fuel memory enough

section Lists

variable (srctype : UInt8)

/-- Without its list a record is of the same kind. -/
theorem sourceKind_single : sourceKind (srctype &&& 0xDF) = sourceKind srctype := by
  rw [sourceKind, UInt8.and_assoc]
  rfl

/-- Without its list a record is for an alias exactly if it was. -/
theorem alias_single : fixup_to_alias (srctype &&& 0xDF) = fixup_to_alias srctype := by
  rw [fixup_to_alias, UInt8.and_assoc]
  rfl

/-- Without its list a record has none. -/
theorem list_single : hasSourceList (srctype &&& 0xDF) = false := by
  rw [hasSourceList, UInt8.and_assoc, show (0xDF &&& 0x20 : UInt8) = 0 from rfl, UInt8.and_zero]
  rfl

/-- Without its list a record has the same numbers in as many bytes. -/
theorem valueWidth_single (fixupflags : UInt8) :
    valueWidth (srctype &&& 0xDF) fixupflags = valueWidth srctype fixupflags := by
  simp only [valueWidth, sourceKind_single]

/-- Without its list a record has the same selector for an alias. -/
theorem aliasValue_single (selector : Nat) (offset : BitVec 32) (finalval2 : BitVec 16) :
    aliasValue (srctype &&& 0xDF) selector offset finalval2 =
      aliasValue srctype selector offset finalval2 := by
  simp only [aliasValue, sourceKind_single]

variable (env : FixupEnv)

/-- Without its list a record refers to the same place of an object. -/
theorem internalValue_single (objectid : Nat) (targetoffset : BitVec 32) :
    internalValue env (srctype &&& 0xDF) objectid targetoffset =
      internalValue env srctype objectid targetoffset := by
  simp only [internalValue, initialSelector, sourceKind_single, alias_single, aliasValue_single]

/-- Without its list a record has the same value for an export. -/
theorem exportValue_single (lxexp : Option LxExport) (finalval : BitVec 32) :
    exportValue env (srctype &&& 0xDF) lxexp finalval =
      exportValue env srctype lxexp finalval := by
  simp only [exportValue, initialSelector, sourceKind_single, alias_single, aliasValue_single]

/-- Without its list a record has the same value for an import. -/
theorem importValue_single (moduleid : Nat) (lookup : ExportTable → ProcAddr) :
    importValue env (srctype &&& 0xDF) moduleid lookup =
      importValue env srctype moduleid lookup := by
  simp only [importValue, exportValue_single]

/-- Without its list a record has the same value for an import by name. -/
theorem nameValue_single (moduleid name_offset : Nat) :
    nameValue env (srctype &&& 0xDF) moduleid name_offset =
      nameValue env srctype moduleid name_offset := by
  simp only [nameValue, exportValue_single, importValue_single]

end Lists

/-- A record for one source of a record with a list. -/
def FixupEntry.single (entry : FixupEntry) (offset : BitVec 16) : FixupEntry where
  srctype := entry.srctype &&& 0xDF
  fixupflags := entry.fixupflags
  sources := [offset]
  id := entry.id
  value := entry.value
  additive := entry.additive
  sources_count := by rw [list_single, if_neg Bool.false_ne_true, List.length_singleton]
  id_fits := entry.id_fits
  value_fits := by rw [valueWidth_single]; exact entry.value_fits
  additive_fits := entry.additive_fits

/-- A record for one source has the value of the record with the list. -/
theorem resolve_single (env : FixupEnv) (entry : FixupEntry) (offset : BitVec 16) :
    (entry.single offset).resolve env = entry.resolve env := by
  have target : (entry.single offset).target env = entry.target env := by
    simp only [FixupEntry.target, FixupEntry.single, internalValue_single, importValue_single,
      nameValue_single]
  rw [FixupEntry.resolve, target]
  rfl

/-- A record for one source writes that source as the record with the list does. -/
theorem apply_single {env : FixupEnv} {page : BitVec 32} {entry : FixupEntry}
    {value : FixupValue} (resolved : entry.resolve env = .ok value) (offset : BitVec 16)
    (memory : Memory) :
    (entry.single offset).apply env page memory =
      applySource page entry.srctype value offset memory := by
  have same : ∀ memory, applySource page (entry.srctype &&& 0xDF) value offset memory =
      applySource page entry.srctype value offset memory := by
    intro memory
    simp only [applySource, sourceKind_single]
  rw [FixupEntry.apply, resolve_single, resolved]
  simp only [bind, Except.bind, FixupEntry.single, List.foldlM_cons, List.foldlM_nil, same]
  cases applySource page entry.srctype value offset memory <;> rfl

/-- A list of sources does the same as a record for each of them. -/
theorem apply_list {env : FixupEnv} {page : BitVec 32} {entry : FixupEntry} {value : FixupValue}
    (resolved : entry.resolve env = .ok value) (memory : Memory) :
    entry.apply env page memory =
      (entry.sources.map entry.single).foldlM
        (fun memory single => single.apply env page memory) memory := by
  rw [FixupEntry.apply, resolved, List.foldlM_map]
  simp only [apply_single resolved]
  rfl

section Boundaries

variable {page : BitVec 32} {offset : BitVec 16}

/-- An offset into a page is a negative one into the next page. -/
theorem lowered_offset (within : offset.toNat < 0x1000) :
    page + 0x1000#32 + (offset - 0x1000#16).signExtend 32 = page + offset.signExtend 32 := by
  have positive : offset.msb = false := by
    rw [BitVec.msb_eq_false_iff_two_mul_lt]
    omega
  have lowered : (offset - 0x1000#16).toNat = offset.toNat + 0xF000 := by
    bv_omega
  have negative : (offset - 0x1000#16).msb = true := by
    rw [BitVec.msb_eq_true_iff_two_mul_ge]
    omega
  -- The one is extended with zeros, and the other with ones.
  have here : (offset.signExtend 32).toNat = offset.toNat := by
    rw [BitVec.toNat_signExtend, positive, if_neg Bool.false_ne_true, BitVec.toNat_setWidth]
    omega
  have there : ((offset - 0x1000#16).signExtend 32).toNat = offset.toNat + 0xFFFFF000 := by
    rw [BitVec.toNat_signExtend, negative, if_pos rfl, BitVec.toNat_setWidth, lowered]
    omega
  have size : (0x1000#32).toNat = 0x1000 := rfl
  apply BitVec.eq_of_toNat_eq
  rw [BitVec.toNat_add, BitVec.toNat_add, BitVec.toNat_add, here, there, size]
  omega

/-- A field is written from the next page as it is from its own. -/
theorem applySource_lowered (within : offset.toNat < 0x1000) (srctype : UInt8)
    (value : FixupValue) (memory : Memory) :
    applySource (page + 0x1000#32) srctype value (offset - 0x1000#16) memory =
      applySource page srctype value offset memory := by
  simp only [applySource, doFixup, lowered_offset within]

/-- Writing a field again changes nothing. -/
theorem doFixup_again {value : FixupValue} {size : Nat} {memory after : Memory}
    (written : doFixup page offset value size memory = .ok after) :
    doFixup page offset value size after = .ok after := by
  have place_lt : (page + offset.signExtend 32).toNat < addresses :=
    (page + offset.signExtend 32).isLt
  unfold doFixup at written ⊢
  simp only at written ⊢
  split at written
  · cases written
    rw [writeMemory_again]
  · cases written
    rw [writeMemory_again]
  · cases written
    rw [writeMemory_again]
  · -- The selector is written behind the offset.
    cases written
    have joined : ∀ memory : Memory, writeMemory
        (writeMemory memory (page + offset.signExtend 32).toNat
          ((littleBytes 4 value.finalval.toNat).map fun byte => ⟨byte, true⟩))
        (((page + offset.signExtend 32).toNat + 4) % addresses)
        ((littleBytes 2 value.finalval2.toNat).map fun byte => ⟨byte, true⟩) =
        writeMemory memory (page + offset.signExtend 32).toNat
          ((littleBytes 4 value.finalval.toNat).map (fun byte => ⟨byte, true⟩) ++
            (littleBytes 2 value.finalval2.toNat).map fun byte => ⟨byte, true⟩) := by
      intro memory
      have whole := writeMemory_append memory place_lt
        ((littleBytes 4 value.finalval.toNat).map fun byte => ⟨byte, true⟩)
        ((littleBytes 2 value.finalval2.toNat).map fun byte => ⟨byte, true⟩) (by simp; decide)
      rw [List.length_map, littleBytes_length] at whole
      exact whole
    rw [joined, joined, writeMemory_again]
  · cases written

/-- Applying a source again changes nothing. -/
theorem applySource_again {srctype : UInt8} {value : FixupValue} {memory after : Memory}
    (written : applySource page srctype value offset memory = .ok after) :
    applySource page srctype value offset after = .ok after := by
  unfold applySource at written ⊢
  split at written
  · rename_i relative
    split at written
    · rename_i near
      rw [if_pos relative, if_pos near]
      exact doFixup_again written
    · cases written
  · rename_i absolute
    rw [if_neg absolute]
    exact doFixup_again written

end Boundaries

section Resolving

variable {env : FixupEnv} {srctype : UInt8}

/-- A value is found, and one that is relative to itself has no selector. -/
def Valued (srctype : UInt8) (found : Except FixupStop FixupValue) : Prop :=
  ∃ value, found = .ok value ∧ (sourceKind srctype = 0x8 → value.finalval2 = 0)

/-- A source that is relative to itself has no selector at first. -/
theorem initialSelector_relative (relative : sourceKind srctype = 0x8) :
    initialSelector env srctype = 0 := by
  rw [initialSelector, if_neg (by omega)]

/-- A value for an alias is found for the kinds that can have one. -/
theorem aliasValue_valued (far : sourceKind srctype = 0x2 ∨ sourceKind srctype = 0x3 ∨
    sourceKind srctype = 0x6) (selector : Nat) (offset : BitVec 32) (finalval2 : BitVec 16) :
    Valued srctype (aliasValue srctype selector offset finalval2) := by
  have absolute : sourceKind srctype ≠ 0x8 := by omega
  unfold aliasValue
  rcases far with two | three | six
  · rw [two]
    exact ⟨_, rfl, fun relative => absurd relative absolute⟩
  · rw [three]
    exact ⟨_, rfl, fun relative => absurd relative absolute⟩
  · rw [six]
    exact ⟨_, rfl, fun relative => absurd relative absolute⟩

/-- Only the kinds that can have a value for an alias ask for one. -/
def AliasFar (srctype : UInt8) : Prop :=
  fixup_to_alias srctype = true →
    sourceKind srctype = 0x2 ∨ sourceKind srctype = 0x3 ∨ sourceKind srctype = 0x6

/-- The value of a reference to an object that exists is found. -/
theorem internalValue_valued (far : AliasFar srctype) {objectid : Nat} (positive : objectid ≠ 0)
    (exists_object : objectid ≤ env.mmaps.length) (targetoffset : BitVec 32) :
    Valued srctype (internalValue env srctype objectid targetoffset) := by
  have below : objectid - 1 < env.mmaps.length := by omega
  simp only [internalValue, if_neg positive, List.getElem?_eq_getElem below]
  by_cases aliased : fixup_to_alias srctype = true
  · rw [if_pos aliased]
    split
    · exact ⟨_, rfl, initialSelector_relative⟩
    · exact aliasValue_valued (far aliased) _ _ _
  · rw [if_neg aliased]
    exact ⟨_, rfl, initialSelector_relative⟩

/-- The value of a reference to an export is found. -/
theorem exportValue_valued (far : AliasFar srctype) (lxexp : Option LxExport)
    (finalval : BitVec 32) :
    Valued srctype (exportValue env srctype lxexp finalval) := by
  unfold exportValue
  by_cases aliased : fixup_to_alias srctype = true
  · rw [if_pos aliased]
    cases lxexp.bind LxExport.object with
    | none => exact ⟨_, rfl, initialSelector_relative⟩
    | some object =>
      simp only
      split
      · exact ⟨_, rfl, initialSelector_relative⟩
      · exact aliasValue_valued (far aliased) _ _ _
  · rw [if_neg aliased]
    exact ⟨_, rfl, initialSelector_relative⟩

/-- The value of an import is found if its export is. -/
theorem importValue_valued (far : AliasFar srctype) {moduleid : Nat}
    {lookup : ExportTable → ProcAddr} {module : ExportTable} {lxexp : LxExport} {addr : Nat}
    (positive : moduleid ≠ 0) (listed : moduleid ≤ env.num_import_mod_entries)
    (loaded : env.dependencies[moduleid - 1]? = some module)
    (found : lookup module = .found lxexp addr) :
    Valued srctype (importValue env srctype moduleid lookup) := by
  have in_table : ¬ (moduleid = 0 ∨ env.num_import_mod_entries < moduleid) := by omega
  simp only [importValue, if_neg in_table, loaded, found]
  exact exportValue_valued far _ _

/-- The value of a record is found if its target can be resolved. -/
theorem resolve_valued {entry : FixupEntry} (supported : entry.Supported)
    (resolvable : entry.Resolvable env) : Valued entry.srctype (entry.resolve env) := by
  have target : Valued entry.srctype (entry.target env) := by
    unfold FixupEntry.Resolvable at resolvable
    unfold FixupEntry.target
    generalize (entry.fixupflags &&& 0x3).toNat = kind at resolvable ⊢
    match kind with
    | 0 => exact internalValue_valued supported.2 resolvable.1 resolvable.2 _
    | 1 =>
      obtain ⟨positive, listed, module, lxexp, addr, loaded, found⟩ := resolvable
      exact importValue_valued supported.2 positive listed loaded found
    | 2 =>
      obtain ⟨positive, listed, module, name, lxexp, addr, loaded, named, found⟩ := resolvable
      have in_table : ¬ (entry.id = 0 ∨ env.num_import_mod_entries < entry.id) := by omega
      simp only [nameValue, if_neg in_table, named]
      exact importValue_valued supported.2 positive listed loaded found
    | _ + 3 => exact resolvable.elim
  obtain ⟨value, found, relative⟩ := target
  refine ⟨{ value with finalval := value.finalval + BitVec.ofNat 32 entry.additive }, ?_, relative⟩
  rw [FixupEntry.resolve, found]
  rfl

/-- The sizes that a field can have. -/
theorem finalsize_cases (kind : Nat) (sized : finalsize kind ≠ 0) :
    finalsize kind = 1 ∨ finalsize kind = 2 ∨ finalsize kind = 4 ∨ finalsize kind = 6 := by
  unfold finalsize at sized ⊢
  split <;> simp_all

/-- A field of a kind that has a size is written. -/
theorem applySource_written {value : FixupValue} (sized : finalsize (sourceKind srctype) ≠ 0)
    (relative : sourceKind srctype = 0x8 → value.finalval2 = 0) (page : BitVec 32)
    (offset : BitVec 16) (memory : Memory) :
    ∃ after, applySource page srctype value offset memory = .ok after := by
  have written : ∀ value : FixupValue,
      ∃ after, doFixup page offset value (finalsize (sourceKind srctype)) memory = .ok after := by
    intro value
    rcases finalsize_cases (sourceKind srctype) sized with size | size | size | size
    all_goals
      rw [size]
      exact ⟨_, rfl⟩
  unfold applySource
  by_cases itself : sourceKind srctype = 0x8
  · rw [if_pos itself, if_pos (relative itself)]
    exact written _
  · rw [if_neg itself]
    exact written _

/-- A record is applied if it is supported and its target can be resolved. -/
theorem apply_written {entry : FixupEntry} (supported : entry.Supported)
    (resolvable : entry.Resolvable env) (page : BitVec 32) (memory : Memory) :
    ∃ after, entry.apply env page memory = .ok after := by
  obtain ⟨value, resolved, relative⟩ := resolve_valued supported resolvable
  have all : ∀ (sources : List (BitVec 16)) (memory : Memory), ∃ after, sources.foldlM
      (fun memory offset => applySource page entry.srctype value offset memory) memory =
        (.ok after : Except FixupStop Memory) := by
    intro sources
    induction sources with
    | nil => exact fun memory => ⟨memory, rfl⟩
    | cons offset sources ih =>
      intro memory
      obtain ⟨middle, written⟩ := applySource_written supported.1 relative page offset memory
      obtain ⟨after, rest⟩ := ih middle
      exact ⟨after, by rw [List.foldlM_cons, written]; exact rest⟩
  rw [FixupEntry.apply, resolved]
  exact all entry.sources memory

/-- Records that are supported and resolvable are all applied. -/
theorem entries_written (page : BitVec 32) (entries : List FixupEntry) :
    (∀ entry ∈ entries, entry.Supported ∧ entry.Resolvable env) → ∀ memory : Memory,
      ∃ after, entries.foldlM (fun memory entry => entry.apply env page memory) memory =
        (.ok after : Except FixupStop Memory) := by
  induction entries with
  | nil => exact fun _ memory => ⟨memory, rfl⟩
  | cons entry entries ih =>
    intro all memory
    obtain ⟨supported, resolvable⟩ := all entry List.mem_cons_self
    obtain ⟨middle, written⟩ := apply_written supported resolvable page memory
    have others := fun other member => all other (List.mem_cons_of_mem entry member)
    obtain ⟨after, rest⟩ := ih others middle
    exact ⟨after, by rw [List.foldlM_cons, written]; exact rest⟩

/-- A record with one source does what applying that source does. -/
theorem apply_one {entry : FixupEntry} {value : FixupValue} {offset : BitVec 16}
    (resolved : entry.resolve env = .ok value) (sources : entry.sources = [offset])
    (page : BitVec 32) (memory : Memory) :
    entry.apply env page memory = applySource page entry.srctype value offset memory := by
  rw [FixupEntry.apply, resolved, sources]
  change (applySource page entry.srctype value offset memory >>= fun memory => pure memory) = _
  cases applySource page entry.srctype value offset memory <;> rfl

/-- A field on a boundary is the same from both pages, once or twice and in either order. -/
theorem boundary_written {entry : FixupEntry} {offset : BitVec 16} (supported : entry.Supported)
    (resolvable : entry.Resolvable env) (sources : entry.sources = [offset])
    (within : offset.toNat < 0x1000) (page : BitVec 32) (memory : Memory) :
    ∃ after, entry.apply env page memory = .ok after ∧
      entry.lowered.apply env (page + 0x1000#32) memory = .ok after ∧
      entry.lowered.apply env (page + 0x1000#32) after = .ok after ∧
      entry.apply env page after = .ok after := by
  obtain ⟨value, resolved, _⟩ := resolve_valued supported resolvable
  obtain ⟨after, written⟩ := apply_written supported resolvable page memory
  have lowered_resolved : entry.lowered.resolve env = .ok value := resolved
  have lowered_sources : entry.lowered.sources = [offset - 0x1000#16] := by
    change entry.sources.map (fun offset => offset - 0x1000#16) = _
    rw [sources]
    rfl
  -- Both records write the same bytes at the same address.
  have lowered_same : ∀ memory, entry.lowered.apply env (page + 0x1000#32) memory =
      applySource page entry.srctype value offset memory := by
    intro memory
    rw [apply_one lowered_resolved lowered_sources]
    exact applySource_lowered within entry.srctype value memory
  rw [apply_one resolved sources] at written
  have again := applySource_again written
  refine ⟨after, ?_, ?_, ?_, ?_⟩
  · rw [apply_one resolved sources, written]
  · rw [lowered_same, written]
  · rw [lowered_same, again]
  · rw [apply_one resolved sources, again]

end Resolving

/-- A module with one object, which imports nothing. -/
def objectEnv : FixupEnv where
  mmaps := [{ addr := 0x20000 }]
  num_import_mod_entries := 0
  dependencies := []
  import_procs := []
  pointers := fun _ => 0
  original_cs := 0

/-- A reference that is relative to itself, from so many places that are listed. -/
def listedFixup : FixupEntry where
  srctype := 0x28
  fixupflags := 0x10
  sources := [0x10, 0xFFE]
  id := 1
  value := 0x1234
  additive := 0
  sources_count := by decide
  id_fits := by decide
  value_fits := by decide
  additive_fits := by decide

/-- A reference that is relative to itself, from the boundary of a page, with an additive. -/
def boundaryFixup : FixupEntry where
  srctype := 0x08
  fixupflags := 0x14
  sources := [0xFFE]
  id := 1
  value := 0x1234
  additive := 8
  sources_count := by decide
  id_fits := by decide
  value_fits := by decide
  additive_fits := by decide

/-- The list of sources is supported, and the object is there. -/
theorem listedFixup_fine : listedFixup.Supported ∧ listedFixup.Resolvable objectEnv := by
  have resolvable : listedFixup.id ≠ 0 ∧ listedFixup.id ≤ objectEnv.mmaps.length := by decide
  unfold FixupEntry.Supported
  exact ⟨by decide, resolvable⟩

/-- The field on the boundary is supported, and the object is there. -/
theorem boundaryFixup_fine : boundaryFixup.Supported ∧ boundaryFixup.Resolvable objectEnv := by
  have resolvable : boundaryFixup.id ≠ 0 ∧ boundaryFixup.id ≤ objectEnv.mmaps.length := by decide
  unfold FixupEntry.Supported
  exact ⟨by decide, resolvable⟩

/-- A reference to the first entry of the module's own table. -/
def entryFixup : FixupEntry where
  srctype := 0x07
  fixupflags := 0x03
  sources := [0]
  id := 1
  value := 0
  additive := 0
  sources_count := by decide
  id_fits := by decide
  value_fits := by decide
  additive_fits := by decide

end TwoIne
