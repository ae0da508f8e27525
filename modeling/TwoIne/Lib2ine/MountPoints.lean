import TwoIne.LxLoader.UnixPaths

/-! The drives of a new process: the mount points of the configuration, and the directories. -/

namespace TwoIne

open Paths

/-- Whether a path starts at the root and has neither a double separator nor one at the end. -/
def CanonicalPath (path : Name) : Prop := path = '/' :: ['/'].intercalate (names '/' path)

/-- What the host answers about paths while a process starts. -/
structure StartHost where
  /-- The real path of the directory the process was started in, if it can be found out. -/
  cwd : Option Name
  /-- Whether a path that is there leads to a directory. -/
  isDirectory : Name → Option Bool
  realpath : Name → Option Name
  cwd_canonical : ∀ path, cwd = some path → CanonicalPath path
  realpath_canonical : ∀ path real, realpath path = some real → CanonicalPath real

/-- A line of the configuration that mounts a drive; `room` says whether there is memory for it. -/
structure MountLine where
  var : Name
  val : Name
  room : Bool := true
  deriving DecidableEq, Repr

/-- What a drive is mounted at, if it is. -/
def mountPoint (host : StartHost) (line : MountLine) : Option Name :=
  if line.val = [] then none
  else
    match host.isDirectory line.val with
    | none => none
    | some false => none
    | some true =>
      if line.room = false then none
      else some (if line.val.getLast? = some '/' then line.val else line.val ++ ['/'])

/-- Processing a line that mounts a drive, in place of what the drive was mounted at. -/
def cfgProcessMountPoint (host : StartHost) (disks : Nat → Option Name) (line : MountLine) :
    Nat → Option Name :=
  match line.var with
  | [letter] =>
    match driveIndex letter with
    | some idx => Function.update disks idx (mountPoint host line)
    | none => disks
  | _ => disks

/-- Loading the lines of all configuration files. -/
def cfgLoad (host : StartHost) (lines : List MountLine) : Nat → Option Name :=
  lines.foldl (cfgProcessMountPoint host) (fun _ => none)

/-- What the loop over the drives works on. -/
structure PrepState where
  disks : Nat → Option Name
  currentDir : Nat → Option Name := fun _ => none
  diskmap : Nat := 0
  lowestmounted : Nat := 0
  lowestcwd : Nat := 0

/-- Whether a directory is below a mount point, or is the mount point. -/
def underMount (rp cwd : Name) : Bool :=
  rp.isPrefixOf cwd &&
    (rp.getLast? = some '/' || cwd[rp.length]? = some '/' || cwd[rp.length]? = none)

/-- Writing a path with the separators of OS/2. -/
def os2Separators (path : Name) : Name :=
  path.map fun letter => if letter = '/' then '\\' else letter

/-- The path of a directory below a mount point. -/
def pathBelow (rp cwd : Name) : Name :=
  let d := cwd.drop rp.length
  if d.head? = some '/' then d.tail else d

/-- Keeping the first drive from C: on, or else the last one before it. -/
def keepLowest (lowest i : Nat) : Nat := if lowest < 3 then i + 1 else lowest

/-- Preparing one drive; a mount point without a real path is given up. -/
def prepDrive (host : StartHost) (cwd : Name) (s : PrepState) (i : Nat) : PrepState :=
  match s.disks i with
  | none => s
  | some disk =>
    match host.realpath disk with
    | none => { s with disks := Function.update s.disks i none }
    | some rp =>
      let s := { s with
        lowestmounted := keepLowest s.lowestmounted i
        diskmap := s.diskmap ||| (1 <<< i) }
      if underMount rp cwd then
        { s with
          currentDir := Function.update s.currentDir i (some (os2Separators (pathBelow rp cwd)))
          lowestcwd := keepLowest s.lowestcwd i }
      else { s with currentDir := Function.update s.currentDir i (some []) }

/-- The directory that the process works in, which is the root if its own cannot be found out. -/
def StartHost.workDir (host : StartHost) : Name := host.cwd.getD ['/']

/-- Preparing the drives; without a mounted one the root is mounted as C:. -/
def prepOs2Drives (host : StartHost) (disks : Nat → Option Name) : Drives :=
  let s := (List.range driveLetters).foldl (prepDrive host host.workDir) { disks := disks }
  if s.lowestmounted = 0 then
    { disks := Function.update s.disks 2 (some ['/'])
      currentDir := Function.update s.currentDir 2 (some (os2Separators host.workDir.tail))
      currentDisk := 3
      diskmap := s.diskmap }
  else
    { disks := s.disks
      currentDir := s.currentDir
      currentDisk := if s.lowestcwd = 0 then s.lowestmounted else s.lowestcwd
      diskmap := s.diskmap }

/-- The drives of a new process. -/
def startDrives (host : StartHost) (lines : List MountLine) : Drives :=
  prepOs2Drives host (cfgLoad host lines)

end TwoIne
