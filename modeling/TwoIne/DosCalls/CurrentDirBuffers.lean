import TwoIne.DosCalls.CurrentDir
import TwoIne.LxLoader.UnixBuffers

/-! The current directory of a drive, put together in the buffer that it is stored in. -/

namespace TwoIne

open Paths StringBuffers

/-- Going back from a place to a separator, or to the start of the buffer. -/
def scanBack (newpath : Name) : Nat → Option Nat
  | 0 => some 0
  | prev + 1 =>
    (newpath[prev + 1]?).bind fun letter =>
      if letter = '\\' then some (prev + 1) else scanBack newpath prev

/-- Moving the string at one place to another place, with the nul behind it. -/
def moveString (newpath : Name) (dst src : Nat) : Option Name :=
  (strlen nul newpath src).bind fun count => memmove newpath dst src (count + 1)

/-- Leaving out the separator at the start. -/
def trimFront (newpath : Name) : Option Name :=
  newpath.head?.bind fun first =>
    if first = '\\' then
      (strlen nul newpath 0).bind fun count => memmove newpath 0 1 count
    else some newpath

/--
Taking out the elements with dots that have a separator behind them, from an element on; what is
handed on is where the last element starts. The assertion is that a parent has a name.
-/
def dropElements : Nat → Name → Nat → Option (Name × Nat)
  | 0, _, _ => none
  | fuel + 1, newpath, element =>
    match strchr nul newpath element '\\' with
    | none => none
    | some none => some (newpath, element)
    | some (some ptr) => do
      let newpath ← store newpath ptr nul
      let text ← readFrom nul newpath element
      if text = ['.'] then
        let newpath ← moveString newpath element (ptr + 1)
        dropElements fuel newpath element
      else if text = ['.', '.'] then
        if element = 0 then
          -- There is no parent to leave out.
          let newpath ← moveString newpath 0 (ptr + 1)
          dropElements fuel newpath 0
        else if element < 2 then none
        else
          let prev ← scanBack newpath (element - 2)
          let prev := if prev ≠ 0 then prev + 1 else prev
          let newpath ← moveString newpath prev (ptr + 1)
          dropElements fuel newpath prev
      else
        -- A directory like any other: its separator is put back.
        let newpath ← store newpath ptr '\\'
        dropElements fuel newpath (ptr + 1)

/-- Taking out the last element, which no separator is behind of, if it is one with dots. -/
def dropLastElement (newpath : Name) (element : Nat) : Option Name := do
  let text ← readFrom nul newpath element
  if text = ['.'] then
    -- The separator in front is left out as well.
    store newpath (if element ≠ 0 then element - 1 else element) nul
  else if text = ['.', '.'] then
    if element = 0 then store newpath 0 nul
    else if element < 2 then none
    else
      let prev ← scanBack newpath (element - 2)
      store newpath prev nul
  else some newpath

/-- Putting a directory together in a buffer, for the directory in front and a path. -/
def normalizeBuffer (garbage : Nat → Char) (oldpath pszName : Name) : Option Name := do
  let buflen := pszName.length + oldpath.length + 2
  let newpath ← snprintf nul (freshBuffer garbage buflen) buflen
    (oldpath ++ (if oldpath = [] then [] else ['\\']) ++ pszName)
  let newpath ← squeezeFrom nul '\\' buflen newpath 0
  let newpath ← trimFront newpath
  let (newpath, element) ← dropElements buflen newpath 0
  let newpath ← dropLastElement newpath element
  readFrom nul newpath 0

/-- Storing the directory of a drive from its buffer, after the process could change to it. -/
def storeCurrentDirBuffer (garbage : Nat → Char) (host : DirHost) (s : DirState) (pszName : Name) :
    Option (DirState × ApiRet) :=
  let (driveidx, rest) := splitDrive s.drives.currentDisk pszName
  match if rest.head? = some '\\' then some [] else s.drives.currentDir driveidx with
  | none => none
  | some oldpath =>
    if host.dirRoom = false then some (s, .errorNotEnoughMemory)
    else
      (normalizeBuffer garbage oldpath rest).map fun newpath =>
        ({ s with
            drives.currentDir := Function.update s.drives.currentDir driveidx (some newpath) },
          .noError)

/-- Changing the directory of a drive, with both paths in their buffers. -/
def DosSetCurrentDirBuffer (pathGarbage dirGarbage : Nat → Char) (host : DirHost) (s : DirState)
    (pszName : Name) : Option (DirState × ApiRet) :=
  if pszName = [] then some (s, .noError)
  else if refusedName pszName then some (s, .errorPathNotFound)
  else
    match lxMakeUnixPathBuffer pathGarbage host.files host.unixRoom s.drives pszName with
    | none => none
    | some (.error err) => some (s, err)
    | some (.ok path) =>
      match host.chdir path with
      | some errno => some (s, chdirError errno)
      | none => storeCurrentDirBuffer dirGarbage host { s with chdirs := path :: s.chdirs } pszName

end TwoIne
