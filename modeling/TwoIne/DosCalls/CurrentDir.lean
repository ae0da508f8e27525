import TwoIne.LxLoader.UnixPaths

/-! The current directories of the drives. -/

namespace TwoIne

open Paths

/-- The state the calls work on: the drives, and how the process changed its own directory. -/
structure DirState where
  drives : Drives
  chdirs : List Name

/-- Why the process cannot change its directory. -/
inductive ChdirError where
  | enotdir
  | enoent
  | eacces
  | eio
  | enametoolong
  | enomem
  | other
  deriving DecidableEq, Repr

/-- What the host does during one call. -/
structure DirHost where
  files : FileSystem
  chdir : Name → Option ChdirError
  /-- Whether there is memory for the path of the host. -/
  unixRoom : Bool := true
  /-- Whether there is memory for the new directory. -/
  dirRoom : Bool := true

/--
The answer for the directory of a drive, with the length that is written back and the buffer if it
is written.
-/
def answerCurrentDir (cdir : Option Name) (pcbBuf : Nat) : ApiRet × Nat × Option Name :=
  match cdir with
  | none => (.errorNotDosDisk, pcbBuf, none)
  | some cdir =>
    if pcbBuf ≤ cdir.length then (.errorBufferOverflow, cdir.length, none)
    else (.noError, cdir.length, some cdir)

/--
Asking for the directory of a drive, or of the current one for the drive zero; reading behind the
table is a fault.
-/
def DosQueryCurrentDir (drives : Drives) (disknum pcbBuf : Nat) :
    Option (ApiRet × Nat × Option Name) :=
  if driveLetters < disknum then some (.errorInvalidDrive, pcbBuf, none)
  else
    let index := if disknum ≠ 0 then disknum - 1 else drives.currentDisk
    if driveLetters ≤ index then none
    else some (answerCurrentDir (drives.currentDir index) pcbBuf)

/-- The answer for a directory that the process cannot change to. -/
def chdirError : ChdirError → ApiRet
  | .enotdir => .errorPathNotFound
  | .enoent => .errorPathNotFound
  | .eacces => .errorAccessDenied
  | .eio => .errorDriveLocked
  | .enametoolong => .errorFilenameExcedRange
  | .enomem => .errorNotEnoughMemory
  | .other => .errorPathNotFound

/-- Going back from a place to a separator, or to the start. -/
def prevElement (path : Name) : Nat → Nat
  | 0 => 0
  | n + 1 => if path[n + 1]? = some '\\' then n + 1 else prevElement path n

/-- The last element of a path behind what is kept; the assertion is that a parent has a name. -/
def dropLastDots (front element : Name) : Option Name :=
  if element = ['.'] then some front.dropLast
  else if element = ['.', '.'] then
    if front = [] then some []
    else if front.length < 2 then none
    else some (front.take (prevElement front (front.length - 2)))
  else some (front ++ element)

/-- The elements of a path one after the other, behind what is kept of those in front. -/
def dropDots (front : Name) : List Name → Option Name
  | [] => some front
  | [element] => dropLastDots front element
  | element :: next :: rest =>
    if element = ['.'] then dropDots front (next :: rest)
    else if element = ['.', '.'] then
      if front = [] then dropDots [] (next :: rest)
      else if front.length < 2 then none
      else
        let prev := prevElement front (front.length - 2)
        dropDots (front.take (if prev ≠ 0 then prev + 1 else prev)) (next :: rest)
    else dropDots (front ++ element ++ ['\\']) (next :: rest)

/-- A directory without double separators, without one in front, and without dots. -/
def normalizeDir (newpath : Name) : Option Name :=
  dropDots [] ((trimFirst '\\' (squeeze '\\' newpath)).splitOn '\\')

/-- Storing the directory of a drive after the process could change to it. -/
def storeCurrentDir (host : DirHost) (s : DirState) (pszName : Name) :
    Option (DirState × ApiRet) :=
  let (driveidx, rest) := splitDrive s.drives.currentDisk pszName
  match if rest.head? = some '\\' then some [] else s.drives.currentDir driveidx with
  | none => none
  | some oldpath =>
    if host.dirRoom = false then some (s, .errorNotEnoughMemory)
    else
      (normalizeDir (oldpath ++ (if oldpath = [] then [] else ['\\']) ++ rest)).map fun newpath =>
        ({ s with
            drives.currentDir := Function.update s.drives.currentDir driveidx (some newpath) },
          .noError)

/-- Whether a name is refused because it ends in a separator. -/
def refusedName (pszName : Name) : Bool :=
  pszName ≠ ['\\'] && pszName.getLast? = some '\\'

/-- Changing the directory of a drive. -/
def DosSetCurrentDir (host : DirHost) (s : DirState) (pszName : Name) :
    Option (DirState × ApiRet) :=
  if pszName = [] then some (s, .noError)
  else if refusedName pszName then some (s, .errorPathNotFound)
  else
    match lxMakeUnixPath host.files host.unixRoom s.drives pszName with
    | none => none
    | some (.error err) => some (s, err)
    | some (.ok path) =>
      match host.chdir path with
      | some errno => some (s, chdirError errno)
      | none => storeCurrentDir host { s with chdirs := path :: s.chdirs } pszName

end TwoIne
