import TwoIne.DosCalls.Handles

/-! Writing the buffers of an open file, or of all open files, to the disk. -/

namespace TwoIne

/-- The reasons that writing the buffers of a descriptor fails for. -/
inductive FsyncError where
  | ebadf
  | eio
  | erofs
  | einval
  | other
  deriving DecidableEq, Repr

/-- What a failure is reported as. -/
def FsyncError.code : FsyncError → ApiRet
  | .ebadf => .errorInvalidHandle
  | .eio => .errorAccessDenied
  | .erofs => .errorAccessDenied
  | .einval => .errorInvalidHandle
  | .other => .errorInvalidHandle

/-- The answer of the host to a flush: the number of the flush, and the descriptor. -/
abbrev Fsync := Nat → Int → Option FsyncError

/-- Writing the buffers of a descriptor. -/
def resetOneBuffer (fsync : Fsync) (count : Nat) (fd : Int) : ApiRet :=
  match fsync count fd with
  | some error => error.code
  | none => .noError

/-- A flush: the index its descriptor was read at, the descriptor, and the answer. -/
structure Flush where
  handle : Nat
  fd : Int
  ret : ApiRet
  deriving DecidableEq, Repr

/-- The indexes that the table was read at, the flushes, and the error so far. -/
structure Reset where
  indexes : List Nat := []
  flushes : List Flush := []
  err : ApiRet := .noError
  deriving DecidableEq, Repr

/--
The descriptor at an index; what lies behind the block is whatever memory holds there.

The index is scaled in 32-bit arithmetic, so the highest one leads to the bytes in front of the block.
-/
def HandleTable.fdAt (t : HandleTable) (stray : Nat → Int) (index : Nat) : Int :=
  ((t.hFiles[index]?).map HFileInfo.fd).getD (stray index)

/-- Looking at one index, and flushing the descriptor there unless it is -1. -/
def resetSlot (fsync : Fsync) (stray : Nat → Int) (t : HandleTable) (index : Nat) (r : Reset) :
    Reset :=
  let r := { r with indexes := r.indexes ++ [index] }
  let fd := t.fdAt stray index
  if fd ≠ -1 then
    let thiserr := resetOneBuffer fsync r.flushes.length fd
    { r with
      flushes := r.flushes ++ [⟨index, fd, thiserr⟩]
      err := if r.err = .noError then thiserr else r.err }
  else r

/-- The loop over a number of slots, with the index that the table is read at. -/
def resetSlots (fsync : Fsync) (stray : Nat → Int) (t : HandleTable) (hFile : Nat) :
    Nat → Reset → Reset
  | 0, r => r
  | left + 1, r =>
    -- The loop counts the slots, but the table is read at the handle that was passed.
    resetSlots fsync stray t hFile left (resetSlot fsync stray t hFile r)

/-- The handle that stands for all of them. -/
def allHandles : Nat := 0xFFFFFFFF

/-- Writing the buffers of a handle, or of all handles. -/
def DosResetBuffer (fsync : Fsync) (stray : Nat → Int) (t : HandleTable) (hFile : Nat) : Reset :=
  if hFile = allHandles then resetSlots fsync stray t hFile t.maxHFiles {}
  else
    let fd := getHFileUnixDescriptor t hFile
    if fd = -1 then { err := .errorInvalidHandle }
    else
      let ret := resetOneBuffer fsync 0 fd
      { indexes := [hFile], flushes := [⟨hFile, fd, ret⟩], err := ret }

end TwoIne
