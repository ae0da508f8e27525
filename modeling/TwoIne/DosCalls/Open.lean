import TwoIne.DosCalls.Handles
import TwoIne.Lib.Posix

/-! Opening files: the checks, the flags of the host call, and the slot of the handle. -/

namespace TwoIne

open Posix

/-- What an open call reports to have done. -/
inductive OpenAction where
  | fileExisted
  | fileCreated
  | fileTruncated
  deriving DecidableEq, Repr

/-- The arguments of an open call, without the name of the file and the places for its answers. -/
structure OpenArgs where
  cbFile : Int := 0
  ulAttribute : Nat := 0
  fsOpenFlags : Nat := 0
  fsOpenMode : Nat := 0
  peaop2 : Bool := false
  deriving DecidableEq, Repr

/-- The attribute of a file that may not be written. -/
def fileReadonly : Nat := 0x01

/-- The attribute of a directory. -/
def fileDirectory : Nat := 0x10

/-- What to do with a file that exists. -/
def OpenArgs.ifExists (a : OpenArgs) : Nat := a.fsOpenFlags &&& 0x0F

/-- What to do with a file that is missing. -/
def OpenArgs.ifNew (a : OpenArgs) : Nat := a.fsOpenFlags &&& 0xF0

/-- The action that fails when the file exists. -/
def openActionFailIfExists : Nat := 0x00

/-- The action that opens a file that exists. -/
def openActionOpenIfExists : Nat := 0x01

/-- The action that replaces a file that exists. -/
def openActionReplaceIfExists : Nat := 0x02

/-- The action that creates a file that is missing. -/
def openActionCreateIfNew : Nat := 0x10

/-- The mode of handles that a child does not inherit. -/
def openFlagsNoinherit : Nat := 0x0080

/-- The mode of handles that write through. -/
def openFlagsWriteThrough : Nat := 0x4000

/-- The mode of a direct open. -/
def openFlagsDasd : Nat := 0x8000

/-- The access that the mode asks for, if it is one of the three. -/
def OpenArgs.access (a : OpenArgs) : Option Access :=
  match a.fsOpenMode &&& 3 with
  | 0 => some .rdonly
  | 1 => some .wronly
  | 2 => some .rdwr
  | _ => none

/-- The checks on the arguments of an open call, in their order. -/
def OpenArgs.refused (a : OpenArgs) (access : Access) : Option ApiRet :=
  let isReadOnly : Bool := access = .rdonly
  if isReadOnly ∧ a.cbFile ≠ 0 then some .errorInvalidParameter
  else if a.ulAttribute &&& fileDirectory ≠ 0 then some .errorInvalidParameter
  else if isReadOnly ∧ a.ifNew = openActionCreateIfNew then some .errorInvalidParameter
  else if isReadOnly ∧ a.ifExists = openActionReplaceIfExists then some .errorInvalidParameter
  else if a.fsOpenFlags &&& 0xfffffe00 ≠ 0 then some .errorInvalidParameter
  else if a.fsOpenFlags &&& openFlagsDasd ≠ 0 then some .errorOpenFailed
  else if a.fsOpenMode &&& 0xffff0000 ≠ 0 then some .errorInvalidParameter
  else if a.peaop2 then some .errorOpenFailed
  else none

/-- The access of a call whose arguments pass every check, or the error of the first that fails. -/
def OpenArgs.accepted (a : OpenArgs) : Except ApiRet Access :=
  match a.access with
  | none => .error .errorInvalidParameter
  | some access =>
    match a.refused access with
    | some code => .error code
    | none => .ok access

/-- Whether a file that exists is refused after it was opened for reading. -/
def OpenArgs.mustNotExist (a : OpenArgs) (access : Access) : Bool :=
  a.ifExists = openActionFailIfExists && access = .rdonly

/-- Whether a failed exclusive creation is final. -/
def OpenArgs.isExclusive (a : OpenArgs) (access : Access) : Bool :=
  a.ifExists = openActionFailIfExists && access ≠ .rdonly

/-- Whether a file that exists is replaced. -/
def OpenArgs.isReplacing (a : OpenArgs) : Bool := a.ifExists = openActionReplaceIfExists

/-- The flags of the first host call, which creates exclusively if it creates at all. -/
def OpenArgs.flags (a : OpenArgs) (access : Access) : OpenFlags :=
  let creates := a.ifNew = openActionCreateIfNew || a.isExclusive access
  { access := access
    creat := creates
    excl := creates
    trunc := a.isReplacing
    sync := a.fsOpenMode &&& openFlagsWriteThrough ≠ 0
    cloexec := a.fsOpenMode &&& openFlagsNoinherit ≠ 0 }

/-- The permission bits of a new file: its owner reads it, and writes it unless it is read-only. -/
def OpenArgs.mode (a : OpenArgs) : Nat :=
  0o400 ||| if a.ulAttribute &&& fileReadonly ≠ 0 then 0 else 0o200

/-- The attributes of every handle: standard input and output, level 1, a character device. -/
def dawAttributes : Nat := 1 <<< 0 ||| 1 <<< 1 ||| 1 <<< 7 ||| 1 <<< 15

/-- The type of a handle by the kind of its file. -/
def handleType : FileKind → Nat
  | .regular => 0
  | .device => 1
  | .other => 2

/-- What the table records of a descriptor; nothing is recorded of one that is not open. -/
def initHFileInfoFromUnixFd (fd : Int) (h : Host) : HFileInfo :=
  match (if fd ≠ -1 then fstat fd h else none) with
  | some file => ⟨fd, handleType file.kind, dawAttributes, 0⟩
  | none => .unused

/-- The return code for a failed host call. -/
def openError : Errno → ApiRet
  | .eacces => .errorAccessDenied
  | .edquot => .errorCannotMake
  | .eexist => .errorCannotMake
  | .eisdir => .errorAccessDenied
  | .emfile => .errorTooManyOpenFiles
  | .enfile => .errorTooManyOpenFiles
  | .enametoolong => .errorFilenameExcedRange
  | .enospc => .errorDiskFull
  | .enomem => .errorNotEnoughMemory
  | .enoent => .errorFileNotFound
  | .enotdir => .errorPathNotFound
  | .eperm => .errorAccessDenied
  | .erofs => .errorAccessDenied
  | .etxtbsy => .errorAccessDenied
  | _ => .errorOpenFailed

/-- What an open call leaves behind: the host, the table, the return code, and its two answers. -/
structure Opened where
  host : Host
  table : HandleTable
  ret : ApiRet
  pulAction : Option OpenAction := none
  pHf : Option Nat := none

/-- Writing a slot of the table. -/
def HandleTable.setSlot (t : HandleTable) (i : Nat) (info : HFileInfo) : HandleTable :=
  { t with hFiles := t.hFiles.set i info }

/-- The first slot of the table that is available. -/
def HandleTable.freeSlot (t : HandleTable) : Option Nat :=
  (t.hFiles.take t.maxHFiles).findIdx? fun info => info.fd = -1

/-- The reasons the conversion of a name to a path on the host fails for. -/
inductive PathError where
  | notDosDisk
  | notEnoughMemory
  deriving DecidableEq, Repr

/-- The return code for a name that has no path. -/
def PathError.code : PathError → ApiRet
  | .notDosDisk => .errorNotDosDisk
  | .notEnoughMemory => .errorNotEnoughMemory

/--
The host calls that open the path, and whether the file counts as one that existed.

A creation that fails because the file exists is tried again without being exclusive, unless the
file must not exist. A call that works at once counts as one on a file that existed, also when it
created the file.
-/
def openTwice (a : OpenArgs) (access : Access) (path : String) (next : Nat) (h : Host) :
    Bool × Except Errno (Host × Nat) :=
  let flags := a.flags access
  match openPath path flags a.mode next h with
  | .error e =>
    if (flags.creat ∨ flags.excl) ∧ e = .eexist ∧ ¬ a.isExclusive access then
      (true, openPath path { flags with excl := false } a.mode next h)
    else (false, .error e)
  | .ok opened => (true, .ok opened)

/-- The rest of an open call, with the slot reserved and the path at hand. -/
def openReserved (a : OpenArgs) (access : Access) (path : String) (next hf : Nat) (info : HFileInfo)
    (h : Host) (t : HandleTable) : Opened :=
  match openTwice a access path next h with
  | (_, .error e) =>
    { host := h, table := t.setSlot hf (initHFileInfoFromUnixFd (-1) h), ret := openError e }
  | (existed, .ok (h, fd)) =>
    if a.mustNotExist access then
      { host := closeFd fd h
        table := t.setSlot hf { info with fd := -1 }
        ret := .errorOpenFailed }
    else
      let h :=
        if (¬ existed ∨ a.isReplacing) ∧ 0 < a.cbFile then
          -- The size is set through the descriptor in the slot, which is still the mark of a
          -- reserved one.
          match ftruncate (-2) a.cbFile h with
          | .error _ => closeFd fd h
          | .ok h => h
        else h
      let action :=
        if a.isReplacing then OpenAction.fileTruncated
        else if existed then .fileExisted
        else .fileCreated
      { host := h
        table := t.setSlot hf { initHFileInfoFromUnixFd fd h with flags := a.fsOpenFlags }
        ret := .noError
        pulAction := some action
        pHf := some hf }

/--
Opening a file.

`unixpath` is what the conversion of the name comes to, and `next` the descriptor that the host uses
next.
-/
def doDosOpen (a : OpenArgs) (unixpath : Except PathError String) (next : Nat) (h : Host)
    (t : HandleTable) : Opened :=
  match a.accepted with
  | .error code => { host := h, table := t, ret := code }
  | .ok access =>
    match t.freeSlot with
    | none => { host := h, table := t, ret := .errorTooManyOpenFiles }
    | some hf =>
      match t.hFiles[hf]? with
      | none => { host := h, table := t, ret := .errorTooManyOpenFiles }
      | some info =>
        let reserved := t.setSlot hf { info with fd := -2 }
        match unixpath with
        | .error e =>
          { host := h, table := reserved.setSlot hf { info with fd := -1 }, ret := e.code }
        | .ok path => openReserved a access path next hf info h reserved

end TwoIne
