import TwoIne.Lib.StringBuffers
import TwoIne.LxLoader.UnixPaths

/-! The translation of OS/2 paths to those of the host, in the buffer that it is written to. -/

namespace TwoIne

open Paths StringBuffers

/-- The letter that ends a string. -/
def nul : Char := Char.ofNat 0

/-- Memory that was asked for, with whatever was there before. -/
def freshBuffer (garbage : Nat → Char) (size : Nat) : Name := (List.range size).map garbage

/-- What a path of the host is put together from; a part may be missing. -/
structure UnixParts where
  mountpoint : Option Name
  cwd : Option Name
  os2path : Name
  deriving DecidableEq, Repr

/-- The parts for an OS/2 path; nothing if its drive is not mounted. -/
def unixParts (drives : Drives) (os2path : Name) : Option UnixParts :=
  if isNullDevice os2path then
    some {
      mountpoint := none
      cwd := none
      os2path := "/dev/null".toList }
  else
    let (driveidx, os2path) := splitDrive drives.currentDisk os2path
    match drives.disks driveidx with
    | none => none
    | some mountpoint =>
      some {
        mountpoint := some mountpoint
        cwd := if os2path.head? ≠ some '\\' then drives.currentDir driveidx else none
        os2path }

/-- The size of the buffer for some parts. -/
def UnixParts.len (parts : UnixParts) : Nat :=
  (parts.mountpoint.elim 0 List.length) + (parts.cwd.elim 0 List.length) + parts.os2path.length + 3

/-- The text that is written to the buffer. -/
def UnixParts.text (parts : UnixParts) : Name :=
  parts.mountpoint.getD [] ++ (if parts.cwd.isSome then ['/'] else []) ++ parts.cwd.getD [] ++
    (if parts.os2path = [] ∨ parts.os2path.head? = some '/' then [] else ['/']) ++ parts.os2path

/-- Putting a path of the host together in a buffer. -/
def composePath (garbage : Nat → Char) (parts : UnixParts) : Option Name := do
  let len := parts.len
  let retval ← snprintf nul (freshBuffer garbage len) len parts.text
  let retval ← replaceFrom nul '\\' '/' len retval 0
  let retval ← squeezeFrom nul '/' len retval 0
  readFrom nul retval 0

/--
The text that is looked for among the files of the host, for an OS/2 path; `room` says whether there
is memory for it.
-/
def unixPathBuffer (garbage : Nat → Char) (room : Bool) (drives : Drives) (os2path : Name) :
    Option (Except ApiRet Name) :=
  match unixParts drives os2path with
  | none => some (.error .errorNotDosDisk)
  | some parts =>
    if room = false then some (.error .errorNotEnoughMemory)
    else (composePath garbage parts).map .ok

/-- The path of the host for an OS/2 path, which is looked for in its buffer. -/
def lxMakeUnixPathBuffer (garbage : Nat → Char) (files : FileSystem) (room : Bool)
    (drives : Drives) (os2path : Name) : Option (Except ApiRet Name) :=
  match unixPathBuffer garbage room drives os2path with
  | none => none
  | some (.error err) => some (.error err)
  | some (.ok retval) => (locatePathCaseInsensitive files retval).map .ok

end TwoIne
