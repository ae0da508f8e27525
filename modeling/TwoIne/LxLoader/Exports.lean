import TwoIne.Lib.CStrings
import TwoIne.LxLoader.Ldt
import TwoIne.Os2Errors

/-! Looking up what a module exports, when an import is fixed up and at run time. -/

namespace TwoIne

/-- An entry of an export table: a null name is `none`, and so is a null object. -/
structure LxExport where
  ordinal : Nat
  name : Option CStrings.CString
  addr : Nat
  object : Option LxMmaps
  deriving DecidableEq, Repr

/-- What a module has for these lookups: whether it is a native library, and its table. -/
structure ExportTable where
  nativelib : Bool
  exports : List LxExport
  deriving DecidableEq, Repr

/-- What a lookup for a fix-up comes to; for a missing export a trampoline is made up. -/
inductive ProcAddr where
  | found (lxexp : LxExport) (addr : Nat)
  | missing
  /-- The lookup read a null name. -/
  | crashed
  deriving DecidableEq, Repr

/-- Whether the object of an export has a 16-bit selector. -/
def LxExport.hasAlias (lxexp : LxExport) : Bool :=
  lxexp.object.any (·.alias16 ≠ 0xFFFF)

/-- Looking up an ordinal; `memory` is what a pointer at an address contains. -/
def getModuleProcAddrByOrdinal (memory : Nat → Nat) (ordinal : Nat) (native : Bool) :
    List LxExport → ProcAddr
  | [] => .missing
  | lxexp :: rest =>
    if lxexp.ordinal = ordinal then
      .found lxexp (if native && lxexp.hasAlias then memory lxexp.addr else lxexp.addr)
    else getModuleProcAddrByOrdinal memory ordinal native rest

/-- Looking up a name, which is compared with that of every export on the way. -/
def getModuleProcAddrByName (memory : Nat → Nat) (name : CStrings.CString) :
    List LxExport → ProcAddr
  | [] => .missing
  | lxexp :: rest =>
    match lxexp.name with
    | none => .crashed
    | some exported =>
      if exported = name then
        .found lxexp (if lxexp.hasAlias then memory lxexp.addr else lxexp.addr)
      else getModuleProcAddrByName memory name rest

/-- Looking up an export at run time: by name for the ordinal zero, and otherwise by ordinal. -/
def DosQueryProcAddr (module : ExportTable) (ordinal : Nat) (pszName : CStrings.CString) :
    Except ApiRet Nat :=
  if 65533 < ordinal then .error .errorInvalidOrdinal
  else if ordinal ≠ 0 then
    match module.exports.find? (·.ordinal = ordinal) with
    | some lxexp => .ok lxexp.addr
    | none => .error .errorInvalidOrdinal
  else
    match module.exports.find? (·.name = some pszName) with
    | some lxexp => .ok lxexp.addr
    | none => .error .errorInvalidName

/-- The fix-up of an import by ordinal, from whatever kind of module. -/
def importByOrdinal (memory : Nat → Nat) (module : ExportTable) (ordinal : Nat) : ProcAddr :=
  getModuleProcAddrByOrdinal memory ordinal true module.exports

/-- The fix-up of a module's reference to one of its own entries. -/
def ownByOrdinal (memory : Nat → Nat) (module : ExportTable) (ordinal : Nat) : ProcAddr :=
  getModuleProcAddrByOrdinal memory ordinal false module.exports

/-- The fix-up of an import by name. -/
def importByName (memory : Nat → Nat) (module : ExportTable) (name : CStrings.CString) :
    ProcAddr :=
  getModuleProcAddrByName memory name module.exports

end TwoIne
