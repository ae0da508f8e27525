import TwoIne.DosCalls.Open

/-! Duplicating a file handle. -/

namespace TwoIne

open Posix

/-- The target that asks for any handle: minus one, in 32 bits. -/
def anyHandle : Nat := 0xFFFFFFFF

/-- What a call leaves behind: the host, the table, the handle that is written back, and the answer. -/
structure Duplicated where
  host : Host
  table : HandleTable
  pHfile : Nat
  ret : ApiRet

/--
Copying a slot to another one, with a duplicate of its descriptor; a descriptor that is not
duplicated is minus one. Reading or writing outside of the table is a fault.
-/
def copySlot (limit hFile i : Nat) (h : Host) (t : HandleTable) : Option (Host × HandleTable) :=
  match t.hFiles[hFile]? with
  | none => none
  | some info =>
    if i < t.hFiles.length then
      match dup info.fd limit h with
      | .ok (h, fd) => some (h, t.setSlot i { info with fd := fd })
      | .error _ => some (h, t.setSlot i { info with fd := -1 })
    else none

/-- Duplicating a handle, to any slot that is available or to a certain one. -/
def DosDupHandle (limit hFile pHfile : Nat) (h : Host) (t : HandleTable) : Option Duplicated :=
  if pHfile = anyHandle then
    match t.freeSlot with
    | none => some ⟨h, t, pHfile, .errorTooManyOpenFiles⟩
    | some i =>
      match t.hFiles[i]? with
      | none => none
      | some info =>
        -- The slot is reserved before anything is known about the handle.
        (copySlot limit hFile i h (t.setSlot i { info with fd := -2 })).map fun (h, t) =>
          ⟨h, t, i, .noError⟩
  else
    match t.hFiles[pHfile]? with
    | none => none
    | some info =>
      if info.fd ≠ -1 then some ⟨h, t, pHfile, .errorInvalidTargetHandle⟩
      else (copySlot limit hFile pHfile h t).map fun (h, t) => ⟨h, t, pHfile, .noError⟩

/-- A number of 16 bits with a sign, in 32 bits. -/
def signExtend16 (n : Nat) : Nat := if n < 0x8000 then n else n + 0xFFFF0000

/-- The call of 16-bit programs, whose target has a sign and whose answer is cut to 16 bits. -/
def Dos16DupHandle (limit hFile pHfile : Nat) (h : Host) (t : HandleTable) : Option Duplicated :=
  (DosDupHandle limit hFile (signExtend16 pHfile) h t).map fun out =>
    { out with pHfile := out.pHfile % 0x10000 }

end TwoIne
