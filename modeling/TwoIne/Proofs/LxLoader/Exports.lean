import TwoIne.LxLoader.Exports

/-!
Every way of looking an export up ends at one entry point exactly in the tables whose exports are
named, have ordinals that a program can ask for, and are nowhere read through a pointer.
-/

namespace TwoIne

/-- The address a lookup for a fix-up found. -/
def ProcAddr.addr? : ProcAddr → Option Nat
  | .found _ addr => some addr
  | .missing => none
  | .crashed => none

/-- Whether an export is a bridge to 16-bit code, whose address is that of a pointer. -/
def ExportTable.isBridge (module : ExportTable) (lxexp : LxExport) : Bool :=
  module.nativelib && lxexp.object.isSome

/-- Where an export is entered. -/
def ExportTable.entryPoint (module : ExportTable) (memory : Nat → Nat) (lxexp : LxExport) : Nat :=
  if module.isBridge lxexp then memory lxexp.addr else lxexp.addr

/-- An ordinal leads to one entry point on every path. -/
structure OrdinalAgrees (memory : Nat → Nat) (module : ExportTable) (ordinal entry : Nat) :
    Prop where
  imported : (importByOrdinal memory module ordinal).addr? = some entry
  own : module.nativelib = false → (ownByOrdinal memory module ordinal).addr? = some entry
  queried : ∀ name, DosQueryProcAddr module ordinal name = .ok entry

/-- A name leads to one entry point on every path. -/
structure NameAgrees (memory : Nat → Nat) (module : ExportTable) (name : CStrings.CString)
    (entry : Nat) : Prop where
  imported : (importByName memory module name).addr? = some entry
  queried : DosQueryProcAddr module 0 name = .ok entry

/-- Every lookup of an export ends where it is entered, and no search for a name crashes. -/
structure ExportsAgree (memory : Nat → Nat) (module : ExportTable) : Prop where
  ordinals : ∀ lxexp ∈ module.exports,
    OrdinalAgrees memory module lxexp.ordinal (module.entryPoint memory lxexp)
  names : ∀ lxexp ∈ module.exports, ∀ name, lxexp.name = some name →
    NameAgrees memory module name (module.entryPoint memory lxexp)
  searched : ∀ name, importByName memory module name ≠ .crashed

/-- Whether an export is the first of its ordinal, or the first of its name. -/
def ExportTable.isFirst (module : ExportTable) (lxexp : LxExport) : Prop :=
  module.exports.find? (·.ordinal = lxexp.ordinal) = some lxexp ∨
    module.exports.find? (·.name = lxexp.name) = some lxexp

/-- Whether some path takes the address of an export for that of a pointer. -/
def ExportTable.indirect (module : ExportTable) (lxexp : LxExport) : Bool :=
  module.isBridge lxexp || lxexp.hasAlias

/--
Tables whose exports are found: they are named, their ordinals can be asked for, those that share
an ordinal or a name are entered at one place, and where a pointer is read it points to itself.
-/
structure ExportsPlain (memory : Nat → Nat) (module : ExportTable) : Prop where
  named : ∀ lxexp ∈ module.exports, lxexp.name ≠ none
  ordinals : ∀ lxexp ∈ module.exports, 0 < lxexp.ordinal ∧ lxexp.ordinal ≤ 65533
  shared : ∀ lxexp ∈ module.exports, ∀ other ∈ module.exports,
    other.ordinal = lxexp.ordinal ∨ other.name = lxexp.name →
      module.entryPoint memory other = module.entryPoint memory lxexp
  direct : ∀ lxexp ∈ module.exports, module.isFirst lxexp → module.indirect lxexp →
    memory lxexp.addr = lxexp.addr

section Searching

variable (memory : Nat → Nat)

/-- What the loader takes for the entry point of an export that it found. -/
def LxExport.taken (native : Bool) (lxexp : LxExport) : Nat :=
  if native && lxexp.hasAlias then memory lxexp.addr else lxexp.addr

/-- The loader takes the first export with an ordinal. -/
theorem byOrdinal_addr (ordinal : Nat) (native : Bool) (exports : List LxExport) :
    (getModuleProcAddrByOrdinal memory ordinal native exports).addr? =
      (exports.find? (·.ordinal = ordinal)).map (LxExport.taken memory native) := by
  -- The loop stops where the search does.
  induction exports with
  | nil => rfl
  | cons lxexp rest ih =>
    rw [getModuleProcAddrByOrdinal]
    by_cases matching : lxexp.ordinal = ordinal
    · simp [matching, ProcAddr.addr?, LxExport.taken]
    · simp [matching, ih]

/-- In a table without null names the loader takes the first export with a name. -/
theorem byName_addr (name : CStrings.CString) {exports : List LxExport}
    (named : ∀ lxexp ∈ exports, lxexp.name ≠ none) :
    (getModuleProcAddrByName memory name exports).addr? =
      (exports.find? (·.name = some name)).map (LxExport.taken memory true) := by
  -- The loop stops where the search does, because it reads no null name on the way.
  induction exports with
  | nil => rfl
  | cons lxexp rest ih =>
    have tail : ∀ lxexp ∈ rest, lxexp.name ≠ none :=
      fun lxexp member => named lxexp (List.mem_cons_of_mem _ member)
    rw [getModuleProcAddrByName]
    cases stored : lxexp.name with
    | none => exact absurd stored (named lxexp List.mem_cons_self)
    | some exported =>
      by_cases matching : exported = name
      · simp [matching, stored, ProcAddr.addr?, LxExport.taken]
      · simp [matching, stored, ih tail]

/-- In a table without null names no search crashes. -/
theorem byName_survives (name : CStrings.CString) {exports : List LxExport}
    (named : ∀ lxexp ∈ exports, lxexp.name ≠ none) :
    getModuleProcAddrByName memory name exports ≠ .crashed := by
  induction exports with
  | nil => simp [getModuleProcAddrByName]
  | cons lxexp rest ih =>
    have tail : ∀ lxexp ∈ rest, lxexp.name ≠ none :=
      fun lxexp member => named lxexp (List.mem_cons_of_mem _ member)
    rw [getModuleProcAddrByName]
    cases stored : lxexp.name with
    | none => exact absurd stored (named lxexp List.mem_cons_self)
    | some exported =>
      by_cases matching : exported = name
      · simp [matching]
      · simpa [matching] using ih tail

/-- The search for a name that nothing has goes through the whole table. -/
theorem byName_fresh {name : CStrings.CString} {exports : List LxExport}
    (fresh : ∀ lxexp ∈ exports, lxexp.name ≠ some name)
    (survives : getModuleProcAddrByName memory name exports ≠ .crashed) :
    ∀ lxexp ∈ exports, lxexp.name ≠ none := by
  -- A null name anywhere would be reached.
  induction exports with
  | nil => simp
  | cons lxexp rest ih =>
    rw [getModuleProcAddrByName] at survives
    cases stored : lxexp.name with
    | none => simp [stored] at survives
    | some exported =>
      have other : exported ≠ name := by
        intro same
        exact fresh lxexp List.mem_cons_self (by rw [stored, same])
      have tail : ∀ lxexp ∈ rest, lxexp.name ≠ some name :=
        fun lxexp member => fresh lxexp (List.mem_cons_of_mem _ member)
      have rest_survives : getModuleProcAddrByName memory name rest ≠ .crashed := by
        simpa [stored, other] using survives
      intro found member
      rcases List.mem_cons.mp member with rfl | later
      · simp [stored]
      · exact ih tail rest_survives found later

end Searching

/-- The string of so many ones. -/
def onesString (length : Nat) : CStrings.CString :=
  ⟨List.replicate length 1, by simp [List.mem_replicate]⟩

/-- The names of a table are shorter than some length. -/
theorem exists_name_bound (exports : List LxExport) :
    ∃ bound, ∀ lxexp ∈ exports, ∀ name, lxexp.name = some name → name.bytes.length < bound := by
  induction exports with
  | nil => exact ⟨0, by simp⟩
  | cons lxexp rest ih =>
    -- The bound of the rest grows to the length of this name.
    obtain ⟨bound, within⟩ := ih
    refine ⟨bound + (lxexp.name.elim 0 fun name => name.bytes.length + 1), ?_⟩
    intro found member name stored
    rcases List.mem_cons.mp member with rfl | later
    · simp only [stored, Option.elim_some]
      omega
    · have := within found later name stored
      omega

/-- There is always a name that no export has. -/
theorem exists_fresh_name (exports : List LxExport) :
    ∃ name : CStrings.CString, ∀ lxexp ∈ exports, lxexp.name ≠ some name := by
  -- A name as long as the bound is longer than all of them.
  obtain ⟨bound, within⟩ := exists_name_bound exports
  refine ⟨onesString bound, ?_⟩
  intro lxexp member stored
  have short := within lxexp member (onesString bound) stored
  simp [onesString] at short

section Querying

variable {module : ExportTable}

/-- A query by ordinal answers with the address of the first export that has it. -/
theorem query_ordinal {ordinal : Nat} (positive : 0 < ordinal) (allowed : ordinal ≤ 65533)
    (name : CStrings.CString) {lxexp : LxExport}
    (first : module.exports.find? (·.ordinal = ordinal) = some lxexp) :
    DosQueryProcAddr module ordinal name = .ok lxexp.addr := by
  -- Neither is the ordinal too large, nor does it ask for a search by name.
  have small : ¬ 65533 < ordinal := by omega
  have nonzero : ordinal ≠ 0 := by omega
  simp only [DosQueryProcAddr, small, nonzero, if_false, if_true, ne_eq, not_false_eq_true, first]

/-- A query by name answers with the address of the first export that has it. -/
theorem query_name {name : CStrings.CString} {lxexp : LxExport}
    (first : module.exports.find? (·.name = some name) = some lxexp) :
    DosQueryProcAddr module 0 name = .ok lxexp.addr := by
  simp [DosQueryProcAddr, first]

/-- An ordinal that is answered can be asked for, or a name was. -/
theorem query_allowed {ordinal entry : Nat}
    (answered : ∀ name, DosQueryProcAddr module ordinal name = .ok entry) :
    0 < ordinal ∧ ordinal ≤ 65533 := by
  constructor
  · -- The ordinal zero asks for a name, and some name is not there.
    by_contra zero
    obtain ⟨name, fresh⟩ := exists_fresh_name module.exports
    have absent : module.exports.find? (·.name = some name) = none := by
      simpa using fresh
    have refused := answered name
    rw [show ordinal = 0 by omega] at refused
    simp [DosQueryProcAddr, absent] at refused
  · by_contra large
    have refused := answered (onesString 0)
    rw [DosQueryProcAddr, if_pos (by omega)] at refused
    cases refused

/-- The first export with the ordinal of one in the table. -/
theorem first_of_ordinal {lxexp : LxExport} (member : lxexp ∈ module.exports) :
    ∃ first ∈ module.exports, first.ordinal = lxexp.ordinal ∧
      module.exports.find? (·.ordinal = lxexp.ordinal) = some first := by
  have present : (module.exports.find? (·.ordinal = lxexp.ordinal)).isSome := by
    simpa using ⟨lxexp, member, rfl⟩
  obtain ⟨first, search⟩ := Option.isSome_iff_exists.mp present
  exact ⟨first, List.mem_of_find?_eq_some search, by simpa using List.find?_some search, search⟩

/-- The first export with the name of one in the table. -/
theorem first_of_name {lxexp : LxExport} (member : lxexp ∈ module.exports) :
    ∃ first ∈ module.exports, first.name = lxexp.name ∧
      module.exports.find? (·.name = lxexp.name) = some first := by
  have present : (module.exports.find? (·.name = lxexp.name)).isSome := by
    simpa using ⟨lxexp, member, rfl⟩
  obtain ⟨first, search⟩ := Option.isSome_iff_exists.mp present
  exact ⟨first, List.mem_of_find?_eq_some search, by simpa using List.find?_some search, search⟩

end Querying

section Agreeing

variable {memory : Nat → Nat} {module : ExportTable}

/-- Where pointers point to themselves, an export is entered at its address. -/
theorem entryPoint_direct {lxexp : LxExport}
    (direct : module.indirect lxexp → memory lxexp.addr = lxexp.addr) :
    module.entryPoint memory lxexp = lxexp.addr := by
  rw [ExportTable.entryPoint]
  split
  · next bridge => exact direct (by simp [ExportTable.indirect, bridge])
  · rfl

/-- Where pointers point to themselves, the loader takes the address of an export. -/
theorem taken_direct {lxexp : LxExport} (native : Bool)
    (direct : module.indirect lxexp → memory lxexp.addr = lxexp.addr) :
    lxexp.taken memory native = lxexp.addr := by
  rw [LxExport.taken]
  split
  · next read =>
    have aliased : lxexp.hasAlias = true := by simp_all
    exact direct (by simp [ExportTable.indirect, aliased])
  · rfl

/-- An export that is entered at its address and taken from there needs no pointer. -/
theorem direct_of_taken {lxexp : LxExport}
    (entered : module.entryPoint memory lxexp = lxexp.addr)
    (taken : lxexp.taken memory true = lxexp.addr) :
    module.indirect lxexp → memory lxexp.addr = lxexp.addr := by
  intro indirect
  rw [ExportTable.indirect, Bool.or_eq_true] at indirect
  rcases indirect with bridge | aliased
  · simpa [ExportTable.entryPoint, bridge] using entered
  · simpa [LxExport.taken, aliased] using taken

/-- In a plain table an ordinal leads to one entry point. -/
theorem ordinal_agrees (plain : ExportsPlain memory module) {lxexp : LxExport}
    (member : lxexp ∈ module.exports) :
    OrdinalAgrees memory module lxexp.ordinal (module.entryPoint memory lxexp) := by
  -- Every path finds the first export with the ordinal, which is entered at its address.
  obtain ⟨first, first_member, ordinal, search⟩ := first_of_ordinal member
  have direct := plain.direct first first_member (.inl (by rw [ordinal]; exact search))
  have entered : module.entryPoint memory lxexp = first.addr := by
    rw [← plain.shared lxexp member first first_member (.inl ordinal)]
    exact entryPoint_direct direct
  obtain ⟨positive, allowed⟩ := plain.ordinals lxexp member
  constructor
  · simp [importByOrdinal, byOrdinal_addr, search, taken_direct true direct, entered]
  · intro _
    simp [ownByOrdinal, byOrdinal_addr, search, taken_direct false direct, entered]
  · intro name
    rw [entered]
    exact query_ordinal positive allowed name search

/-- In a plain table a name leads to one entry point. -/
theorem name_agrees (plain : ExportsPlain memory module) {lxexp : LxExport}
    (member : lxexp ∈ module.exports) {name : CStrings.CString}
    (stored : lxexp.name = some name) :
    NameAgrees memory module name (module.entryPoint memory lxexp) := by
  -- Every path finds the first export with the name, which is entered at its address.
  obtain ⟨first, first_member, same_name, search⟩ := first_of_name member
  have direct := plain.direct first first_member (.inr (by rw [same_name]; exact search))
  have entered : module.entryPoint memory lxexp = first.addr := by
    rw [← plain.shared lxexp member first first_member (.inr same_name)]
    exact entryPoint_direct direct
  rw [stored] at search
  constructor
  · rw [importByName, byName_addr memory name plain.named, search, entered]
    simp [taken_direct true direct]
  · rw [entered]
    exact query_name search

/-- Where lookups agree, exports that share an ordinal or a name are entered at one place. -/
theorem shared_of_agree (agree : ExportsAgree memory module) {lxexp other : LxExport}
    (member : lxexp ∈ module.exports) (other_member : other ∈ module.exports)
    (named : lxexp.name ≠ none)
    (same : other.ordinal = lxexp.ordinal ∨ other.name = lxexp.name) :
    module.entryPoint memory other = module.entryPoint memory lxexp := by
  -- One lookup has one answer, which is the entry point of both.
  rcases same with same | same
  · have answer := (agree.ordinals other other_member).imported
    rw [same, (agree.ordinals lxexp member).imported] at answer
    exact (Option.some.inj answer).symm
  · obtain ⟨name, stored⟩ := Option.ne_none_iff_exists'.mp named
    have answer := (agree.names other other_member name (same.trans stored)).imported
    rw [(agree.names lxexp member name stored).imported] at answer
    exact (Option.some.inj answer).symm

/-- Where lookups agree, an export that is found needs no pointer. -/
theorem direct_of_agree (agree : ExportsAgree memory module)
    (named : ∀ lxexp ∈ module.exports, lxexp.name ≠ none) {lxexp : LxExport}
    (member : lxexp ∈ module.exports) (first : module.isFirst lxexp) :
    module.indirect lxexp → memory lxexp.addr = lxexp.addr := by
  -- The query answers with the address, and the fix-up with what the loader takes.
  rcases first with search | search
  · have agreed := agree.ordinals lxexp member
    obtain ⟨positive, allowed⟩ := query_allowed agreed.queried
    have queried := agreed.queried (onesString 0)
    rw [query_ordinal positive allowed (onesString 0) search] at queried
    have imported := agreed.imported
    rw [importByOrdinal, byOrdinal_addr, search] at imported
    have entered := Except.ok.inj queried
    exact direct_of_taken entered.symm ((Option.some.inj imported).trans entered.symm)
  · obtain ⟨name, stored⟩ := Option.ne_none_iff_exists'.mp (named lxexp member)
    have agreed := agree.names lxexp member name stored
    rw [stored] at search
    have queried := agreed.queried
    rw [query_name search] at queried
    have imported := agreed.imported
    rw [importByName, byName_addr memory name named, search] at imported
    have entered := Except.ok.inj queried
    exact direct_of_taken entered.symm ((Option.some.inj imported).trans entered.symm)

end Agreeing

/-- All paths agree in exactly the plain tables. -/
theorem exports_agree_iff (memory : Nat → Nat) (module : ExportTable) :
    ExportsAgree memory module ↔ ExportsPlain memory module := by
  constructor
  · intro agree
    -- A search for a name that is not there passes every export, so that all are named.
    obtain ⟨name, fresh⟩ := exists_fresh_name module.exports
    have named := byName_fresh memory fresh (agree.searched name)
    exact {
      named := named
      ordinals := fun lxexp member => query_allowed (agree.ordinals lxexp member).queried
      shared := fun lxexp member other other_member same =>
        shared_of_agree agree member other_member (named lxexp member) same
      direct := fun lxexp member first => direct_of_agree agree named member first }
  · intro plain
    exact {
      ordinals := fun lxexp member => ordinal_agrees plain member
      names := fun lxexp member name stored => name_agrees plain member stored
      searched := fun name => byName_survives memory name plain.named }

/-- The export of a loaded 16-bit module, whose object has a selector. -/
def segmentExport : LxExport :=
  { ordinal := 1, name := some (onesString 1), addr := 0x10020,
    object := some { addr := 0x10000, alias16 := 8 } }

/-- A fix-up takes the first bytes of a 16-bit function for its address. -/
theorem ne_export_misread :
    ¬ ∀ (memory : Nat → Nat) (module : ExportTable), ExportsAgree memory module := by
  intro agree
  have plain := (agree (fun _ => 0) { nativelib := false, exports := [segmentExport] })
  have imported := (plain.ordinals segmentExport List.mem_cons_self).imported
  revert imported
  decide

end TwoIne
