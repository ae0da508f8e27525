import Mathlib.Logic.Function.Basic
import TwoIne.Lib.Paths
import TwoIne.LxLoader.Modules
import TwoIne.Os2Errors

/-! The drives of a process, and the translation of OS/2 paths to those of the host. -/

namespace TwoIne

open Paths

/-- Where the drives are mounted and what their directories are, by index; drives count from one. -/
structure Drives where
  disks : Nat → Option Name
  currentDir : Nat → Option Name
  currentDisk : Nat
  diskmap : Nat

/-- The number of drive letters. -/
def driveLetters : Nat := 26

/-- The files of the host: whether a path leads to one, and what a directory that opens lists. -/
structure FileSystem where
  accessible : Name → Bool
  listing : Name → Option (List Name)

/-- The index of a drive letter of either case. -/
def driveIndex (letter : Char) : Option Nat :=
  if 'A' ≤ letter.toUpper ∧ letter.toUpper ≤ 'Z' then some (letter.toUpper.toNat - 'A'.toNat)
  else none

/-- The drive that a path is on, and what is left of the path behind a drive letter. -/
def splitDrive (currentDisk : Nat) (os2path : Name) : Nat × Name :=
  match os2path with
  | letter :: ':' :: rest =>
    match driveIndex letter with
    | some drive => (drive, rest)
    | none => (currentDisk - 1, os2path)
  | _ => (currentDisk - 1, os2path)

/-- The last element of a path. -/
def lastElement (buf : Name) : Name := (buf.reverse.takeWhile (· ≠ '/')).reverse

/-- What stands in front of the last element of a path, with the separator. -/
def frontOfElement (buf : Name) : Name := buf.take (buf.length - (lastElement buf).length)

/-- The directory that is opened to look for the last element of a path. -/
def elementDirectory (buf : Name) : Name :=
  if frontOfElement buf = [] then ['.']
  else if frontOfElement buf = ['/'] then ['/']
  else (frontOfElement buf).dropLast

/-- What is compared with the entries: for one of the root with the separator in front of it. -/
def soughtElement (buf : Name) : Name :=
  if frontOfElement buf = ['/'] then buf else lastElement buf

/-- What an entry that is found is written behind. -/
def keptFront (buf : Name) : Name :=
  if frontOfElement buf = ['/'] then [] else frontOfElement buf

/--
Looking for the last element of a path in any case; the answer is whether it was found, and the
path.  A directory that does not open is read nevertheless, which is a fault.
-/
def locateOneElement (files : FileSystem) (buf : Name) : Option (Bool × Name) :=
  if files.accessible buf then some (true, buf)
  else
    match files.listing (elementDirectory buf) with
    | none => none
    | some entries =>
      match entries.find? (strcasecmp · (soughtElement buf)) with
      | some entry => some (true, keptFront buf ++ entry)
      | none => some (false, buf)

/-- Looking for one element of a path after the other, until one is missing. -/
def locateElements (files : FileSystem) : Name → List Name → Option Name
  | buf, [] => (locateOneElement files buf).map Prod.snd
  | buf, next :: rest =>
    match locateOneElement files buf with
    | none => none
    | some (true, located) => locateElements files (located ++ '/' :: next) rest
    | some (false, _) => some (['/'].intercalate (buf :: next :: rest))

/-- The path with the case that the files have, as far as they are there. -/
def locatePathCaseInsensitive (files : FileSystem) (buf : Name) : Option Name :=
  if files.accessible buf then some buf
  else
    match buf with
    | [] => some []
    | first :: rest =>
      match rest.splitOn '/' with
      | [] => some buf
      | element :: more => locateElements files (first :: element) more

/-- Whether a path names the null device. -/
def isNullDevice (os2path : Name) : Bool :=
  strcasecmp os2path "NUL".toList || strcasecmp os2path "\\DEV\\NUL".toList

/-- Putting a path together behind a mount point and the directory of the drive. -/
def joinPath (mountpoint : Name) (cwd : Option Name) (os2path : Name) : Name :=
  mountpoint ++ cwd.elim [] ('/' :: ·) ++
    (if os2path = [] ∨ os2path.head? = some '/' then os2path else '/' :: os2path)

/-- Writing a path with the separators of the host, only one where several follow each other. -/
def unixSeparators (path : Name) : Name :=
  squeeze '/' (path.map fun letter => if letter = '\\' then '/' else letter)

/-- The path of the host before it is looked for; nothing if its drive is not mounted. -/
def unixText (drives : Drives) (os2path : Name) : Option Name :=
  if isNullDevice os2path then some (unixSeparators (joinPath [] none "/dev/null".toList))
  else
    let (driveidx, rest) := splitDrive drives.currentDisk os2path
    (drives.disks driveidx).map fun mountpoint =>
      unixSeparators (joinPath mountpoint
        (if rest.head? = some '\\' then none else drives.currentDir driveidx) rest)

/-- The path of the host for an OS/2 path; `room` says whether there is memory for it. -/
def lxMakeUnixPath (files : FileSystem) (room : Bool) (drives : Drives) (os2path : Name) :
    Option (Except ApiRet Name) :=
  match unixText drives os2path with
  | none => some (.error .errorNotDosDisk)
  | some text =>
    if room = false then some (.error .errorNotEnoughMemory)
    else (locatePathCaseInsensitive files text).map .ok

end TwoIne
