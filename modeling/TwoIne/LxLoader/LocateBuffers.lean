import TwoIne.LxLoader.UnixBuffers

/-! The search for a path in any case, which changes the path in the buffer where it stands. -/

namespace TwoIne

open Paths StringBuffers

/--
The entries of the directory that the last element of a path is looked for in, the path with its
separator put back, and the place that is compared and written. A directory that does not open is
read nevertheless, which is a fault.
-/
def openElement (files : FileSystem) (buf : Name) : Option (List Name × Name × Nat) := do
  match ← strrchr nul buf 0 '/' with
  | none =>
    let entries ← files.listing ['.']
    return (entries, buf, 0)
  | some 0 =>
    -- Here the place stays at the separator.
    let entries ← files.listing ['/']
    return (entries, buf, 0)
  | some ptr =>
    let cut ← store buf ptr nul
    let directory ← readFrom nul cut 0
    let entries ← files.listing directory
    let buf ← store cut ptr '/'
    return (entries, buf, ptr + 1)

/-- Looking for the last element of a path, which is written over in the case that it is found in. -/
def locateOneBuffer (files : FileSystem) (buf : Name) : Option (Bool × Name) := do
  let path ← readFrom nul buf 0
  if files.accessible path then return (true, buf)
  else
    let (entries, buf, ptr) ← openElement files buf
    let element ← readFrom nul buf ptr
    match entries.find? (strcasecmp · element) with
    | some entry =>
      let buf ← strcpy nul buf ptr entry
      return (true, buf)
    | none => return (false, buf)

/--
Looking for one element of a path after the other, from a place on: the path is cut off behind each
of them for as long as it is looked for.
-/
def locateElementsBuffer (files : FileSystem) : Nat → Name → Nat → Option (Int × Name)
  | 0, _, _ => none
  | fuel + 1, buf, ptr => do
    match ← strchr nul buf (ptr + 1) '/' with
    | some ptr =>
      let cut ← store buf ptr nul
      let (found, cut) ← locateOneBuffer files cut
      let buf ← store cut ptr '/'
      if found then locateElementsBuffer files fuel buf ptr else return (-2, buf)
    | none =>
      let (found, buf) ← locateOneBuffer files buf
      return (if found then 0 else -1, buf)

/-- Looking for a path in any case: zero if it was found, and the buffer as it is left. -/
def locatePathBuffer (files : FileSystem) (buf : Name) : Option (Int × Name) := do
  let path ← readFrom nul buf 0
  if path = [] then return (0, buf)
  else if files.accessible path then return (0, buf)
  else locateElementsBuffer files buf.length buf 0

end TwoIne
