import TwoIne.DosCalls.FullNames
import TwoIne.Proofs.Lib2ine.MountPoints

/-!
The full OS/2 name of a file leads back to it exactly if the file is found at its path below the mount
point of C:, whatever drives are mounted.
-/

namespace TwoIne

open Paths

/-- A host whose file names have no backslash. -/
def NoBackslashes (host : StartHost) : Prop :=
  ∀ path real, host.realpath path = some real → '\\' ∉ path ∧ '\\' ∉ real

/-- A file below the mount point of some drive. -/
def BelowMounted (host : StartHost) (drives : Drives) (real : Name) : Prop :=
  ∃ i mount rp, drives.disks i = some mount ∧ host.realpath mount = some rp ∧
    underMount rp real = true

/-- An OS/2 name that leads to a file. -/
def LeadsTo (host : StartHost) (files : FileSystem) (drives : Drives) (os2path real : Name) : Prop :=
  ∃ path, lxMakeUnixPath files true drives os2path = some (.ok path) ∧
    host.realpath path = some real

/-- Both full names of a file lead back to it, if the buffer has room for the second. -/
structure RoundTrips (host : StartHost) (files : FileSystem) (drives : Drives) (fname real : Name) :
    Prop where
  moduleName : ∃ os2path, makeOS2Path host.realpath fname = some os2path ∧
    LeadsTo host files drives os2path real
  fullName : ∀ cbInfoBuf, real.length + 3 < cbInfoBuf →
    ∃ os2path, queryPathInfoFullName host.realpath fname cbInfoBuf = .ok os2path ∧
      LeadsTo host files drives os2path real

/-- The file is found at its own path below the mount point of C:. -/
def FoundOnC (host : StartHost) (files : FileSystem) (drives : Drives) (real : Name) : Prop :=
  ∃ mount path, drives.disks 2 = some mount ∧
    locatePathCaseInsensitive files (squeeze '/' (mount ++ '/' :: real)) = some path ∧
    host.realpath path = some real

section Translating

variable {host : StartHost} {files : FileSystem} {drives : Drives} {fname real mount : Name}

/-- A canonical path starts at the root. -/
theorem CanonicalPath.head (canonical : CanonicalPath real) : real.head? = some '/' := by
  rw [canonical, List.head?_cons]

/-- Written for OS/2 it starts at the root, too. -/
theorem CanonicalPath.os2_head (canonical : CanonicalPath real) :
    (os2Separators real).head? = some '\\' := by
  rw [os2Separators, List.head?_map, canonical.head]
  rfl

/-- A canonical path has no double separators. -/
theorem CanonicalPath.squeeze (canonical : CanonicalPath real) : Paths.squeeze '/' real = real := by
  have proper : ∀ name ∈ names '/' real, name ≠ [] ∧ '/' ∉ name := fun name member =>
    mem_names member
  conv_lhs => rw [canonical, squeeze_skip, squeeze_intercalate proper, trimFirst_intercalate proper]
  exact canonical.symm

/-- A name on C: is no device. -/
theorem driveCName_device (real : Name) : isNullDevice (driveCName real) = false := by
  simp [isNullDevice, strcasecmp, driveCName]

/-- The drive letter is taken off whatever the current drive is. -/
theorem driveCName_split (disk : Nat) (real : Name) :
    splitDrive disk (driveCName real) = (2, os2Separators real) := by
  have letter : driveIndex 'C' = some 2 := by decide
  simp [splitDrive, driveCName, letter]

/-- A path of the host is on C: when it is written for OS/2, and below no current directory. -/
theorem unixText_driveCName (canonical : CanonicalPath real)
    (stored : drives.disks 2 = some mount) :
    unixText drives (driveCName real) =
      some (unixSeparators (mount ++ '/' :: os2Separators real)) := by
  have head := canonical.os2_head
  have present : os2Separators real ≠ [] := fun empty => by simp [empty] at head
  simp [unixText, driveCName_device, driveCName_split, stored, joinPath, head, present]

/-- The separators of OS/2 become those of the host below the mount point. -/
theorem unixText_driveC (canonical : CanonicalPath real) (plain : '\\' ∉ real)
    (plain_mount : '\\' ∉ mount) (stored : drives.disks 2 = some mount) :
    unixText drives (driveCName real) = some (squeeze '/' (mount ++ '/' :: real)) := by
  have turned : unixName (mount ++ '/' :: os2Separators real) = mount ++ '/' :: real := by
    rw [unixName, List.map_append, List.map_cons]
    exact congrArg₂ (· ++ '/' :: ·) (unixName_of_plain plain_mount) (unixName_os2Separators plain)
  rw [unixText_driveCName canonical stored]
  exact congrArg (some ∘ squeeze '/') turned

/-- The name on C: leads to a file exactly if the file is found there. -/
theorem leadsTo_driveC_iff (canonical : CanonicalPath real) (plain : '\\' ∉ real)
    (plain_mounts : ∀ mount, drives.disks 2 = some mount → '\\' ∉ mount) :
    LeadsTo host files drives (driveCName real) real ↔ FoundOnC host files drives real := by
  cases stored : drives.disks 2 with
  | none =>
    -- There is no translation at all.
    have untranslated : unixText drives (driveCName real) = none := by
      simp [unixText, driveCName_device, driveCName_split, stored]
    constructor
    · rintro ⟨path, made, _⟩
      simp [lxMakeUnixPath, untranslated] at made
    · rintro ⟨mount, path, mounted, _⟩
      rw [stored] at mounted
      cases mounted
  | some mount =>
    have made := unixText_driveC canonical plain (plain_mounts mount stored) stored
    have found : lxMakeUnixPath files true drives (driveCName real) =
        (locatePathCaseInsensitive files (squeeze '/' (mount ++ '/' :: real))).map .ok :=
      lxMakeUnixPath_text made
    constructor
    · rintro ⟨path, translated, resolved⟩
      rw [found, Option.map_eq_some_iff] at translated
      obtain ⟨path, located, same⟩ := translated
      cases same
      exact ⟨mount, path, stored, located, resolved⟩
    · rintro ⟨mount, path, mounted, located, resolved⟩
      cases stored.symm.trans mounted
      refine ⟨path, ?_, resolved⟩
      rw [found, located]
      rfl

/-- With C: mounted at the root a file that is there is found by its real path. -/
theorem foundOnC_root (canonical : CanonicalPath real) (stored : drives.disks 2 = some ['/'])
    (present : files.accessible real = true) (resolved : host.realpath real = some real) :
    FoundOnC host files drives real := by
  refine ⟨['/'], real, stored, ?_, resolved⟩
  -- The mount point, the separator behind it and the path start with the same separator.
  rw [List.singleton_append, squeeze_root _ rfl, squeeze_root real canonical.head,
    canonical.squeeze]
  simp [locatePathCaseInsensitive, present]

/-- Both full names are the name on C:. -/
theorem roundTrips_iff_leadsTo (resolved : host.realpath fname = some real) :
    RoundTrips host files drives fname real ↔ LeadsTo host files drives (driveCName real) real := by
  have module_name : makeOS2Path host.realpath fname = some (driveCName real) := by
    rw [makeOS2Path, resolved]
    rfl
  have full_name : ∀ cbInfoBuf, real.length + 3 < cbInfoBuf →
      queryPathInfoFullName host.realpath fname cbInfoBuf = .ok (driveCName real) := by
    intro cbInfoBuf room
    simp only [queryPathInfoFullName, resolved, Option.getD_some]
    rw [if_neg (by omega)]
  constructor
  · rintro ⟨⟨os2path, named, leads⟩, _⟩
    cases module_name.symm.trans named
    exact leads
  · intro leads
    exact ⟨⟨_, module_name, leads⟩, fun cbInfoBuf room => ⟨_, full_name cbInfoBuf room, leads⟩⟩

end Translating

section Starting

variable {host : StartHost} {lines : List MountLine} {mount : Name}

/-- No mount point of a new process has a backslash. -/
theorem startDrives_plain (names : NoBackslashes host)
    (stored : (startDrives host lines).disks 2 = some mount) : '\\' ∉ mount := by
  by_cases mounted : ∃ i < driveLetters, realMount host (cfgLoad host lines) i ≠ none
  · obtain ⟨i, below, mounted⟩ := mounted
    obtain ⟨_, _, _, disks_eq, _, _⟩ := startDrives_mounted _ below mounted
    rw [startDrives, disks_eq 2 (by decide)] at stored
    split at stored
    · cases stored
    · next real =>
      -- The mount point has a real path, so its own names are those of files.
      obtain ⟨rp, resolved⟩ := Option.ne_none_iff_exists'.mp real
      rw [realMount, stored] at resolved
      exact (names mount rp resolved).1
  · simp only [not_exists, not_and, not_not] at mounted
    obtain ⟨root, _⟩ := startDrives_fallback _ mounted
    cases stored.symm.trans root
    decide

end Starting

/--
The full names of a file lead back to it exactly if the file is found at its own path below the mount
point of C:, which the configuration need not mount at the root.
-/
theorem full_names_round_trip_iff (host : StartHost) (files : FileSystem) (lines : List MountLine)
    (fname real : Name) (names : NoBackslashes host) (resolved : host.realpath fname = some real) :
    RoundTrips host files (startDrives host lines) fname real ↔
      FoundOnC host files (startDrives host lines) real := by
  rw [roundTrips_iff_leadsTo resolved]
  exact leadsTo_driveC_iff (host.realpath_canonical fname real resolved)
    (names fname real resolved).2 fun mount stored => startDrives_plain names stored

/-- A host without backslashes in its paths, where every path is its own real path. -/
def slashHost : StartHost where
  cwd := plainHost.cwd
  isDirectory := plainHost.isDirectory
  realpath := fun path => if '\\' ∈ path then none else plainHost.realpath path
  cwd_canonical := plainHost.cwd_canonical
  realpath_canonical := by
    intro path real resolved
    split at resolved
    · cases resolved
    · exact plainHost.realpath_canonical path real resolved

/-- Its paths have no backslash. -/
theorem slashHost_plain : NoBackslashes slashHost := by
  intro path real resolved
  have proper : ∀ name ∈ names '/' path, name ≠ [] ∧ '/' ∉ name := fun name member =>
    mem_names member
  have other : '\\' ≠ '/' := by decide
  simp only [slashHost] at resolved
  split at resolved
  · cases resolved
  · next plain =>
    -- The real path has the names of the path.
    cases resolved
    refine ⟨plain, ?_⟩
    rw [mem_iff_names other, names_cons_sep, names_intercalate proper, ← mem_iff_names other]
    exact plain

/-- With C: mounted at the root a file can be opened by both of its full names. -/
theorem root_names_round_trip :
    RoundTrips slashHost openFiles
      (startDrives slashHost [{ var := "C".toList, val := "/".toList }])
      "/home/a".toList "/home/a".toList :=
  (full_names_round_trip_iff slashHost openFiles _ _ _ slashHost_plain rfl).mpr
    (foundOnC_root (by rw [CanonicalPath]; decide) (by decide) rfl rfl)

/-- With C: mounted at a directory its files cannot be opened by their full names. -/
theorem home_names_lost :
    BelowMounted slashHost (startDrives slashHost [{ var := "C".toList, val := "/home".toList }])
        "/home/a".toList ∧
      ¬ RoundTrips slashHost openFiles
        (startDrives slashHost [{ var := "C".toList, val := "/home".toList }])
        "/home/a".toList "/home/a".toList := by
  have stored : (startDrives slashHost [{ var := "C".toList, val := "/home".toList }]).disks 2 =
      some "/home/".toList := by decide
  refine ⟨⟨2, _, "/home".toList, stored, by decide, by decide⟩, ?_⟩
  intro trips
  have leads := (roundTrips_iff_leadsTo rfl).mp trips
  obtain ⟨mount, path, mounted, located, resolved⟩ :=
    (leadsTo_driveC_iff (slashHost.realpath_canonical "/home/a".toList _ rfl) (by decide)
      (fun mount stored => startDrives_plain slashHost_plain stored)).mp leads
  cases stored.symm.trans mounted
  -- The file is looked for in a directory home below the directory home.
  cases located
  revert resolved
  decide

end TwoIne
