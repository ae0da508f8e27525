import Mathlib.Data.List.Find
import TwoIne.Lib.Outcomes
import TwoIne.LxLoader.NameTables
import TwoIne.Proofs.LxLoader.EntryPasses
import TwoIne.Proofs.LxLoader.Exports
import TwoIne.Proofs.LxLoader.Fixups

/-!
The exports of an LX module are found at run time by the ordinals of its entry table, and by the
names that its name tables give to these ordinals last.
-/

namespace TwoIne

open Ordinals Outcomes

/-- An entry of a name table. -/
structure NameEntry where
  name : List UInt8
  ordinal : Nat
  named : name ≠ []
  short : name.length < 256
  fits : ordinal < 0x10000
  deriving Repr

/-- The bytes that store an entry of a name table. -/
def NameEntry.encode (entry : NameEntry) : List UInt8 :=
  UInt8.ofNat entry.name.length :: (entry.name ++ littleBytes 2 entry.ordinal)

/-- The name that entries give to an ordinal last, if it is the ordinal of an export at all. -/
def lastName (entries : List NameEntry) (ordinal : Nat) : Option CStrings.CString :=
  if ordinal = 0 then none
  else (entries.findRev? fun entry => entry.ordinal = ordinal).map fun entry => exportName entry.name

/-- An export with the name that entries give to it. -/
def LxExport.renamed (entries : List NameEntry) (lxexp : LxExport) : LxExport :=
  { lxexp with name := (lastName entries lxexp.ordinal).or lxexp.name }

section Tables

variable {entries : List NameEntry} {exports : List LxExport} {rest : List UInt8}

/-- Naming an export leaves the ordinals as they are. -/
@[simp] theorem renamed_ordinal (entries : List NameEntry) (lxexp : LxExport) :
    (lxexp.renamed entries).ordinal = lxexp.ordinal := rfl

/-- Without entries an export keeps its name. -/
@[simp] theorem renamed_nil (lxexp : LxExport) : lxexp.renamed [] = lxexp := by
  unfold LxExport.renamed lastName
  split <;> rfl

/-- The first entry gives a name that the others may give again. -/
theorem renamed_cons (entry : NameEntry) (entries : List NameEntry) (lxexp : LxExport) :
    lxexp.renamed (entry :: entries) = (lxexp.renamed [entry]).renamed entries := by
  unfold LxExport.renamed lastName
  by_cases zero : lxexp.ordinal = 0
  · simp [zero]
  · simp only [if_neg zero, List.findRev?]
    cases entries.findRev? fun entry => entry.ordinal = lxexp.ordinal with
    | some other => simp
    | none => simp

/-- Two lists of entries give names one after the other. -/
theorem renamed_append (front back : List NameEntry) (lxexp : LxExport) :
    lxexp.renamed (front ++ back) = (lxexp.renamed front).renamed back := by
  induction front generalizing lxexp with
  | nil => rw [List.nil_append, renamed_nil]
  | cons entry front ih => rw [List.cons_append, renamed_cons, ih, ← renamed_cons]

/-- An entry does not name an export with another ordinal. -/
theorem renamed_other {entry : NameEntry} {lxexp : LxExport}
    (different : lxexp.ordinal ≠ entry.ordinal) : lxexp.renamed [entry] = lxexp := by
  have none_given : lastName [entry] lxexp.ordinal = none := by
    unfold lastName
    split
    · rfl
    · simp [List.findRev?, Ne.symm different]
  unfold LxExport.renamed
  rw [none_given, Option.none_or]

/-- An entry of the module itself names no export. -/
theorem renamed_zero {entry : NameEntry} (zero : entry.ordinal = 0) (lxexp : LxExport) :
    lxexp.renamed [entry] = lxexp := by
  by_cases same : lxexp.ordinal = 0
  · have none_given : lastName [entry] lxexp.ordinal = none := if_pos same
    unfold LxExport.renamed
    rw [none_given, Option.none_or]
  · exact renamed_other (zero ▸ same)

/-- An entry names the only export with its ordinal. -/
theorem nameExport_map {entry : NameEntry} (some_ordinal : entry.ordinal ≠ 0)
    (distinct : (exports.map LxExport.ordinal).Nodup) :
    nameExport entry.ordinal (exportName entry.name) exports =
      exports.map (LxExport.renamed [entry]) := by
  induction exports with
  | nil => rfl
  | cons lxexp exports ih =>
    rw [List.map_cons, List.nodup_cons] at distinct
    rw [nameExport, List.map_cons]
    by_cases same : lxexp.ordinal = entry.ordinal
    · rw [if_pos same]
      congr 1
      · unfold LxExport.renamed lastName
        simp [same, some_ordinal, List.findRev?]
      · -- No export behind it has the ordinal.
        refine (List.map_id exports).symm.trans (List.map_congr_left fun other member => ?_)
        refine (renamed_other fun again => distinct.1 ?_).symm
        rw [same, ← again]
        exact List.mem_map_of_mem member
    · rw [if_neg same, renamed_other same, ih distinct.2]

/-- The bytes of entries are more than the entries. -/
theorem names_short (entries : List NameEntry) :
    entries.length ≤ (entries.flatMap NameEntry.encode).length := by
  induction entries with
  | nil => exact Nat.le_refl 0
  | cons entry entries ih =>
    rw [List.flatMap_cons, List.length_append, List.length_cons, NameEntry.encode, List.length_cons]
    omega

/-- A table of names gives each export the name it has for its ordinal last. -/
theorem loadLxNameTable_encode {rounds : Nat} (enough : entries.length < rounds)
    (distinct : (exports.map LxExport.ordinal).Nodup) (rest : List UInt8) :
    loadLxNameTable rounds (entries.flatMap NameEntry.encode ++ 0 :: rest) exports =
      .ok (exports.map (LxExport.renamed entries)) := by
  induction entries generalizing rounds exports with
  | nil =>
    obtain ⟨rounds, rfl⟩ := Nat.exists_eq_add_of_lt enough
    have same : exports.map (LxExport.renamed []) = exports :=
      (List.map_congr_left fun lxexp _ => renamed_nil lxexp).trans (List.map_id exports)
    rw [same]
    simp [loadLxNameTable, pure, Except.pure]
  | cons entry entries ih =>
    obtain ⟨rounds, rfl⟩ : ∃ more, rounds = more + 1 := ⟨rounds - 1, by omega⟩
    have shorter : entries.length < rounds := by simpa using enough
    have length : (UInt8.ofNat entry.name.length).toNat = entry.name.length := by
      rw [UInt8.toNat_ofNat', Nat.mod_eq_of_lt entry.short]
    have present : UInt8.ofNat entry.name.length ≠ 0 := by
      intro zero
      rw [zero] at length
      exact entry.named (List.length_eq_zero_iff.mp length.symm)
    have fits : entry.ordinal < 256 ^ 2 := entry.fits
    have read : readNumber 2 (littleBytes 2 entry.ordinal ++
        (entries.flatMap NameEntry.encode ++ 0 :: rest)) =
          .ok (entry.ordinal, entries.flatMap NameEntry.encode ++ 0 :: rest) :=
      (readNumber_bytes (littleBytes 2 entry.ordinal) _).trans (by
        rw [littleEndian_littleBytes, Nat.mod_eq_of_lt fits])
    have inside : ¬ (entry.name ++ (littleBytes 2 entry.ordinal ++
        (entries.flatMap NameEntry.encode ++ 0 :: rest))).length < entry.name.length := by
      rw [List.length_append]
      omega
    have named_first : exports.map (LxExport.renamed (entry :: entries)) =
        (exports.map (LxExport.renamed [entry])).map (LxExport.renamed entries) := by
      rw [List.map_map]
      exact List.map_congr_left fun lxexp _ => renamed_cons entry entries lxexp
    rw [named_first, List.flatMap_cons, NameEntry.encode, List.cons_append, List.cons_append,
      List.append_assoc, List.append_assoc, loadLxNameTable, if_neg present, length, if_neg inside, List.drop_left,
      List.take_left]
    simp only [read, bind, Except.bind]
    by_cases zero : entry.ordinal = 0
    · -- The name of the module is read, and left.
      have same : exports.map (LxExport.renamed [entry]) = exports :=
        (List.map_congr_left fun lxexp _ => renamed_zero zero lxexp).trans (List.map_id exports)
      rw [if_pos zero, same]
      exact ih shorter distinct
    · have ordinals : (exports.map (LxExport.renamed [entry])).map LxExport.ordinal =
          exports.map LxExport.ordinal := by
        rw [List.map_map]
        rfl
      rw [if_neg zero, nameExport_map zero distinct]
      exact ih shorter (ordinals ▸ distinct)

end Tables

section Slots

/-- What an ordinal stands for: an object and an offset in it, or nothing. -/
abbrev Slot := Option (BitVec 16 × Nat)

/-- The slots of a bundle. -/
def Bundle.slots : Bundle → List Slot
  | .unused _ count _ => List.replicate count.toNat none
  | .used wide _ object0 object1 entries _ _ =>
    entries.map fun entry => some
      (BitVec.ofNat 16 (littleEndian [object0, object1]) - 1, littleEndian (entry.offset wide))

/-- The slots of an entry table, of which the first one has the ordinal one. -/
def slotsOf (bundles : List Bundle) : List Slot := bundles.flatMap Bundle.slots

/-- The slot of an ordinal. -/
def slotAt (slots : List Slot) (ordinal : Nat) : Slot :=
  if ordinal = 0 then none else slots[ordinal - 1]?.join

/-- The first slot whose ordinal has a name. -/
def slotNamed (slots : List Slot) (names : List NameEntry) (name : CStrings.CString) : Slot :=
  ((slots.zipIdx 1).find? fun (slot, ordinal) =>
    slot.isSome ∧ lastName names ordinal = some name).bind Prod.fst

/-- The address that a slot stands for. -/
def slotAddr (mmaps : List LxMmaps) (slot : Slot) : Option Nat :=
  slot.bind fun (objidx, offset) =>
    (mmaps[objidx.toNat]?).map fun object => (object.addr + offset) % 2 ^ 32

/-- The export of a slot. -/
def slotExport (mmaps : List LxMmaps) (names : List NameEntry) : Slot × Nat → Option LxExport
  | (slot, ordinal) => slot.bind fun (objidx, offset) =>
    (mmaps[objidx.toNat]?).map fun object =>
      ⟨ordinal, lastName names ordinal, (object.addr + offset) % 2 ^ 32, some object⟩

/-- The entry of a slot. -/
def slotEntry : Slot × Nat → Option LxEntryPoint
  | (slot, ordinal) => slot.map fun (objidx, offset) => ⟨BitVec.ofNat 32 ordinal, objidx, offset⟩

/-- A bundle has a slot for each ordinal that it takes. -/
theorem Bundle.length_slots (bundle : Bundle) : bundle.slots.length = bundle.count := by
  cases bundle with
  | unused high count present => exact List.length_replicate
  | used wide high object0 object1 entries present few => exact List.length_map _

/-- The entries of a bundle are those of its slots. -/
theorem entryPoints_slots (wide : Bool) (objidx : BitVec 16) (start : Nat)
    (entries : List BundleEntry) :
    entryPoints wide objidx (BitVec.ofNat 32 start) entries =
      ((entries.map fun entry => some (objidx, littleEndian (entry.offset wide))).zipIdx
        start).filterMap slotEntry := by
  induction entries generalizing start with
  | nil => rfl
  | cons entry entries ih =>
    have next : BitVec.ofNat 32 start + 1 = BitVec.ofNat 32 (start + 1) :=
      (BitVec.ofNat_add start 1).symm
    rw [entryPoints, next, ih, List.map_cons, List.zipIdx_cons, List.filterMap_cons]
    rfl

/-- The entries that are recorded are those of the slots. -/
theorem exportsOf_slots (start : Nat) (bundles : List Bundle) :
    exportsOf (BitVec.ofNat 32 start) bundles =
      ((slotsOf bundles).zipIdx start).filterMap slotEntry := by
  induction bundles generalizing start with
  | nil => rfl
  | cons bundle bundles ih =>
    have split_slots : slotsOf (bundle :: bundles) = bundle.slots ++ slotsOf bundles :=
      List.flatMap_cons
    rw [exportsOf, ← BitVec.ofNat_add, ih, split_slots, List.zipIdx_append, List.filterMap_append,
      bundle.length_slots]
    congr 1
    cases bundle with
    | unused high count present =>
      -- Nothing is recorded for slots that are not there.
      refine (List.filterMap_eq_nil_iff.mpr ?_).symm
      rintro ⟨slot, ordinal⟩ member
      obtain rfl : slot = none :=
        List.eq_of_mem_replicate (List.fst_mem_of_mem_zipIdx member)
      rfl
    | used wide high object0 object1 entries present few =>
      exact entryPoints_slots wide _ start entries

variable {slots : List Slot} {mmaps : List LxMmaps} {names : List NameEntry} {slot : Slot}
  {ordinal : Nat}

/-- A slot is that of its ordinal. -/
theorem slotAt_of_mem (member : (slot, ordinal) ∈ slots.zipIdx 1) :
    slotAt slots ordinal = slot := by
  obtain ⟨positive, held⟩ := List.mk_mem_zipIdx_iff_le_and_getElem?_sub.mp member
  unfold slotAt
  rw [if_neg (by omega), held]
  rfl

/-- The slot of an ordinal is one of the slots. -/
theorem mem_of_slotAt {target : BitVec 16 × Nat} (found : slotAt slots ordinal = some target) :
    (some target, ordinal) ∈ slots.zipIdx 1 := by
  unfold slotAt at found
  split at found
  · cases found
  · refine List.mk_mem_zipIdx_iff_le_and_getElem?_sub.mpr ⟨by omega, ?_⟩
    exact Option.join_eq_some_iff.mp found

/-- All slots that are there lie in an object of the module. -/
def SlotsInside (slots : List Slot) (mmaps : List LxMmaps) : Prop :=
  ∀ objidx offset, some (objidx, offset) ∈ slots → objidx.toNat < mmaps.length

/-- The export of a slot has its ordinal, the name of that and the address of the slot. -/
theorem slotExport_some {lxexp : LxExport}
    (exported : slotExport mmaps names (slot, ordinal) = some lxexp) :
    lxexp.ordinal = ordinal ∧ lxexp.name = lastName names ordinal ∧
      slotAddr mmaps slot = some lxexp.addr := by
  cases slot with
  | none => cases exported
  | some target =>
    obtain ⟨object, found, rfl⟩ := Option.map_eq_some_iff.mp exported
    exact ⟨rfl, rfl, Option.map_eq_some_iff.mpr ⟨object, found, rfl⟩⟩

/-- A slot that is there and lies in an object is exported. -/
theorem slotExport_isSome (names : List NameEntry) (inside : SlotsInside slots mmaps)
    (member : (slot, ordinal) ∈ slots.zipIdx 1) :
    (slotExport mmaps names (slot, ordinal)).isSome = slot.isSome := by
  cases slot with
  | none => rfl
  | some target =>
    have known := inside target.1 target.2 (List.fst_mem_of_mem_zipIdx member)
    have held : (mmaps[target.1.toNat]?).isSome := by
      rw [List.getElem?_eq_getElem known]
      rfl
    show (Option.map _ (mmaps[target.1.toNat]?)).isSome = true
    rw [Option.isSome_map, held]

/-- The only slot that a search for an ordinal ends at is that of the ordinal. -/
theorem find_byOrdinal (names : List NameEntry) (inside : SlotsInside slots mmaps) (ordinal : Nat) :
    (((slots.zipIdx 1).filterMap (slotExport mmaps names)).find? (·.ordinal = ordinal)).map
      LxExport.addr = slotAddr mmaps (slotAt slots ordinal) := by
  cases found : ((slots.zipIdx 1).filterMap (slotExport mmaps names)).find?
      (·.ordinal = ordinal) with
  | some lxexp =>
    obtain ⟨⟨slot, position⟩, member, exported⟩ :=
      List.mem_filterMap.mp (List.mem_of_find?_eq_some found)
    obtain ⟨same, -, addr⟩ := slotExport_some exported
    have matching : lxexp.ordinal = ordinal := by simpa using List.find?_some found
    obtain rfl : position = ordinal := same.symm.trans matching
    rw [slotAt_of_mem member, addr]
    rfl
  | none =>
    -- A slot that is there would have been found.
    cases slot : slotAt slots ordinal with
    | none => rfl
    | some target =>
      have member := mem_of_slotAt slot
      have present := slotExport_isSome names inside member
      obtain ⟨lxexp, exported⟩ := Option.isSome_iff_exists.mp present
      have absent := List.find?_eq_none.mp found lxexp
        (List.mem_filterMap.mpr ⟨_, member, exported⟩)
      simp [(slotExport_some exported).1] at absent

/-- A search for a name ends at the first slot whose ordinal has it. -/
theorem find_byName (names : List NameEntry) (inside : SlotsInside slots mmaps) (name : CStrings.CString) :
    (((slots.zipIdx 1).filterMap (slotExport mmaps names)).find? (·.name = some name)).map
      LxExport.addr = slotAddr mmaps (slotNamed slots names name) := by
  have same : (slots.zipIdx 1).find? (fun place =>
        (slotExport mmaps names place).any (·.name = some name)) =
      (slots.zipIdx 1).find? fun (slot, ordinal) =>
        slot.isSome ∧ lastName names ordinal = some name := by
    refine List.find?_congr fun place member => ?_
    obtain ⟨slot, ordinal⟩ := place
    have present := slotExport_isSome names inside member
    cases exported : slotExport mmaps names (slot, ordinal) with
    | none =>
      rw [exported] at present
      simp [← present]
    | some lxexp =>
      rw [exported] at present
      simp [← present, (slotExport_some exported).2.1]
  rw [List.find?_filterMap, same]
  unfold slotNamed
  cases found : (slots.zipIdx 1).find? fun (slot, ordinal) =>
      slot.isSome ∧ lastName names ordinal = some name with
  | none => rfl
  | some place =>
    obtain ⟨slot, ordinal⟩ := place
    have present := slotExport_isSome names inside (List.mem_of_find?_eq_some found)
    have there : slot.isSome := by
      have matching := List.find?_some found
      simp only [decide_eq_true_eq] at matching
      exact matching.1
    obtain ⟨lxexp, exported⟩ := Option.isSome_iff_exists.mp (present.trans there)
    show (slotExport mmaps names (slot, ordinal)).map LxExport.addr = slotAddr mmaps slot
    rw [exported, (slotExport_some exported).2.2]
    rfl

end Slots

section Loading

variable {origexe exe : List UInt8} {lx : LxNameHeader} {mmaps : List LxMmaps}
  {bundles : List Bundle} {resident other names : List NameEntry}

/-- A file stores a table of names where the header says, if it says that there is one. -/
def NamesStored (there : Bool) (file : List UInt8) (offset : Nat) (names : List NameEntry) : Prop :=
  if there then ∃ rest, file.drop offset = names.flatMap NameEntry.encode ++ 0 :: rest
  else names = []

/-- The entries of a module and the names in both of its tables, as a file stores them. -/
structure ExportsStored (origexe exe : List UInt8) (lx : LxNameHeader) (bundles : List Bundle)
    (resident other : List NameEntry) : Prop where
  entries : ∃ rest,
    exe.drop lx.entry_table_offset = bundles.flatMap Bundle.encode ++ 0 :: rest
  resident_names : NamesStored lx.hasResident exe lx.resident_name_table_offset resident
  other_names : NamesStored lx.hasNonResident origexe lx.non_resident_name_table_offset other

/-- Each place gives one entry and the export of it, or neither. -/
theorem lxExport_places {places : List (Slot × Nat)}
    (each : ∀ place ∈ places,
      (slotEntry place).bind (lxExport mmaps) = slotExport mmaps [] place ∧
        (slotExport mmaps [] place).isSome = (slotEntry place).isSome) :
    (places.filterMap slotEntry).mapM (lxExport mmaps) =
      some (places.filterMap (slotExport mmaps [])) := by
  induction places with
  | nil => rfl
  | cons place places ih =>
    have later := ih fun place member => each place (List.mem_cons_of_mem _ member)
    obtain ⟨same, present⟩ := each place List.mem_cons_self
    cases entered : slotEntry place with
    | none =>
      rw [entered] at same
      rw [List.filterMap_cons_none entered, List.filterMap_cons_none same.symm, later]
    | some entry =>
      rw [entered] at same present
      obtain ⟨lxexp, exported⟩ := Option.isSome_iff_exists.mp present
      have mapped : lxExport mmaps entry = some lxexp := same.trans exported
      rw [List.filterMap_cons_some entered, List.filterMap_cons_some exported, List.mapM_cons,
        mapped, later]
      rfl

/-- The exports before they have names. -/
theorem lxExport_slots (inside : SlotsInside (slotsOf bundles) mmaps)
    (few : (slotsOf bundles).length < 2 ^ 32) :
    (exportsOf 1 bundles).mapM (lxExport mmaps) =
      some (((slotsOf bundles).zipIdx 1).filterMap (slotExport mmaps [])) := by
  have recorded : exportsOf 1 bundles = ((slotsOf bundles).zipIdx 1).filterMap slotEntry :=
    exportsOf_slots 1 bundles
  rw [recorded]
  refine lxExport_places fun place member => ?_
  obtain ⟨slot, ordinal⟩ := place
  have small : ordinal < 2 ^ 32 := by
    have last := List.snd_lt_add_of_mem_zipIdx member
    dsimp only at last
    omega
  refine ⟨?_, (slotExport_isSome [] inside member).trans ?_⟩
  · cases slot with
    | none => rfl
    | some target =>
      have whole : (BitVec.ofNat 32 ordinal).toNat = ordinal := by
        rw [BitVec.toNat_ofNat, Nat.mod_eq_of_lt small]
      have unnamed : lastName [] ordinal = none := by
        unfold lastName
        split <;> rfl
      simp only [slotEntry, slotExport, lxExport, Option.map_some, Option.bind_some, whole, unnamed]
  · cases slot <;> rfl

/-- Naming the export of a slot gives it the last name of its ordinal. -/
theorem renamed_slots (names : List NameEntry) (places : List (Slot × Nat)) :
    (places.filterMap (slotExport mmaps [])).map (LxExport.renamed names) =
      places.filterMap (slotExport mmaps names) := by
  rw [List.map_filterMap]
  refine List.filterMap_congr fun place _ => ?_
  obtain ⟨slot, ordinal⟩ := place
  cases slot with
  | none => rfl
  | some target =>
    have unnamed : lastName [] ordinal = none := by
      unfold lastName
      split <;> rfl
    simp [slotExport, LxExport.renamed, Function.comp_def, unnamed]

/-- The exports of slots have the ordinals of the slots, each one once. -/
theorem slotExports_distinct (mmaps : List LxMmaps) (names : List NameEntry) (slots : List Slot) :
    (((slots.zipIdx 1).filterMap (slotExport mmaps names)).map LxExport.ordinal).Nodup := by
  have increasing : (slots.zipIdx 1).Pairwise fun place later => place.2 < later.2 := by
    rw [← List.pairwise_map (f := Prod.snd) (R := (· < ·)), List.zipIdx_map_snd]
    exact List.pairwise_lt_range'
  rw [List.Nodup, List.pairwise_map, List.pairwise_filterMap]
  refine increasing.imp fun {place later} before lxexp exported behind also same => ?_
  have first := (slotExport_some exported).1
  have second := (slotExport_some also).1
  omega

/-- The names that a file stores are given to the exports. -/
theorem nameExports_stored {there : Bool} {file : List UInt8} {offset : Nat}
    {exports : List LxExport} (stored : NamesStored there file offset names)
    (distinct : (exports.map LxExport.ordinal).Nodup) :
    nameExports there file offset exports = .ok (exports.map (LxExport.renamed names)) := by
  unfold nameExports
  unfold NamesStored at stored
  split at stored
  · next has =>
    obtain ⟨rest, held⟩ := stored
    have enough : names.length < file.length + 1 := by
      have short := names_short names
      have whole := congrArg List.length held
      rw [List.length_drop, List.length_append] at whole
      omega
    rw [if_pos has, held]
    exact loadLxNameTable_encode enough distinct rest
  · next absent =>
    have same : exports.map (LxExport.renamed []) = exports :=
      (List.map_congr_left fun lxexp _ => renamed_nil lxexp).trans (List.map_id exports)
    rw [if_neg absent, stored, same]

/-- The export table of a module has the exports of its slots with their names. -/
theorem loadExportTable_stored (stored : ExportsStored origexe exe lx bundles resident other)
    (inside : SlotsInside (slotsOf bundles) mmaps) (few : (slotsOf bundles).length < 2 ^ 32) :
    loadExportTable origexe exe lx mmaps = .ok ⟨false,
      ((slotsOf bundles).zipIdx 1).filterMap (slotExport mmaps (resident ++ other))⟩ := by
  obtain ⟨rest, entries⟩ := stored.entries
  have unnamed := slotExports_distinct mmaps [] (slotsOf bundles)
  have first := nameExports_stored stored.resident_names unnamed
  rw [renamed_slots] at first
  have named := slotExports_distinct mmaps resident (slotsOf bundles)
  have second := nameExports_stored stored.other_names named
  -- The names of both tables are given one after the other.
  have both : (((slotsOf bundles).zipIdx 1).filterMap (slotExport mmaps resident)).map
        (LxExport.renamed other) =
      ((slotsOf bundles).zipIdx 1).filterMap (slotExport mmaps (resident ++ other)) := by
    rw [← renamed_slots (resident ++ other), ← renamed_slots resident, List.map_map]
    exact List.map_congr_left fun lxexp _ => (renamed_append resident other lxexp).symm
  rw [both] at second
  unfold loadExportTable
  simp only [loadLxEntries_eq entries, lxExport_slots inside few, first, second, bind, Except.bind]
  rfl

/-- What a search at run time answers, if it ends at a slot, and what it answers otherwise. -/
def answered (mmaps : List LxMmaps) (missing : ApiRet) (slot : Slot) : Except ApiRet Nat :=
  (slotAddr mmaps slot).elim (.error missing) .ok

/-- Every lookup of an export ends at the slot that its ordinal or its name stands for. -/
structure SlotsResolve (slots : List Slot) (names : List NameEntry) (mmaps : List LxMmaps)
    (table : ExportTable) : Prop where
  ordinals : ∀ ordinal name, 0 < ordinal → ordinal ≤ 65533 →
    DosQueryProcAddr table ordinal name =
      answered mmaps .errorInvalidOrdinal (slotAt slots ordinal)
  names : ∀ name,
    DosQueryProcAddr table 0 name = answered mmaps .errorInvalidName (slotNamed slots names name)
  own : ∀ pointers ordinal,
    (ownByOrdinal pointers table ordinal).addr? = slotAddr mmaps (slotAt slots ordinal)

/-- Two ordinals without an entry, and an entry of 16 bits behind them. -/
def gappedBundles : List Bundle :=
  [.unused false 2 (by decide),
    .used false false 1 0 [⟨0, 0x20, 0, 0, 0⟩] (by decide) (by decide)]

/-- The name of a module, and a name of its third ordinal. -/
def gappedNames : List NameEntry :=
  [⟨[0x4D], 0, by decide, by decide, by decide⟩, ⟨[0x41], 3, by decide, by decide, by decide⟩]

/-- The entries at the offset one, and the names behind them. -/
def gappedFile : List UInt8 :=
  0 :: (gappedBundles.flatMap Bundle.encode ++ 0 :: (gappedNames.flatMap NameEntry.encode ++ [0]))

/-- The only object of the module. -/
def gappedObject : LxMmaps := { addr := 0x10000, alias16 := 0xFFFF }

end Loading

end TwoIne
