import TwoIne.Lib2ine.MountPoints
import TwoIne.Proofs.LxLoader.UnixPaths

/-!
A new process has consistent drives and works in the directory it was started in, if some mount point
is left and no path has a backslash in a name.
-/

namespace TwoIne

open Paths

/-- The real path that a drive is mounted at. -/
def realMount (host : StartHost) (disks : Nat → Option Name) (i : Nat) : Option Name :=
  (disks i).bind host.realpath

/-- Whether the working directory is below the mount point of a drive. -/
def holdsWorkDir (host : StartHost) (disks : Nat → Option Name) (i : Nat) : Bool :=
  (realMount host disks i).any (underMount · host.workDir)

/-- The drives in the order in which one is taken as the current drive. -/
def driveOrder : List Nat := List.range' 2 24 ++ [1, 0]

section Preferring

variable (wanted : Nat → Bool)

/-- What the loop keeps of the drives that are wanted. -/
def keepWanted (lowest i : Nat) : Nat := if wanted i then keepLowest lowest i else lowest

/-- From C: on the first drive that is wanted is kept. -/
theorem foldl_keepWanted (drives : List Nat) (late : ∀ i ∈ drives, 2 ≤ i) (lowest : Nat) :
    drives.foldl (keepWanted wanted) lowest =
      if lowest < 3 then (drives.find? wanted).elim lowest (· + 1) else lowest := by
  induction drives generalizing lowest with
  | nil => simp
  | cons i drives ih =>
    have here := late i List.mem_cons_self
    rw [List.foldl_cons, ih (fun j member => late j (List.mem_cons_of_mem _ member))]
    by_cases open_place : lowest < 3
    · cases picked : wanted i with
      | true =>
        -- This drive stays, because its number is too large to be replaced.
        simp only [keepWanted, keepLowest, picked, if_true, open_place, List.find?_cons,
          Option.elim_some]
        rw [if_neg (by omega)]
      | false => simp [keepWanted, picked, open_place]
    · simp [keepWanted, keepLowest, open_place]

/-- The loop keeps the drive that comes first in the order of preference. -/
theorem foldl_keepWanted_range :
    (List.range driveLetters).foldl (keepWanted wanted) 0 =
      (driveOrder.find? wanted).elim 0 (· + 1) := by
  have split : List.range driveLetters = 0 :: 1 :: List.range' 2 24 := by decide
  have late : ∀ i ∈ List.range' 2 24, 2 ≤ i := fun i member => (List.mem_range'_1.mp member).1
  rw [split, List.foldl_cons, List.foldl_cons, foldl_keepWanted wanted _ late, driveOrder,
    List.find?_append]
  -- Before C: the later drive replaces the earlier one.
  cases first : wanted 0 <;> cases second : wanted 1 <;>
    cases (List.range' 2 24).find? wanted <;>
    simp [keepWanted, keepLowest, first, second]

/-- The order of preference has every drive. -/
theorem mem_driveOrder {i : Nat} : i ∈ driveOrder ↔ i < driveLetters := by
  simp only [driveOrder, driveLetters, List.mem_append, List.mem_range'_1, List.mem_cons,
    List.not_mem_nil, or_false]
  omega

/-- The drive that comes first is a drive. -/
theorem preferred_spec {i : Nat} (first : driveOrder.find? wanted = some i) :
    i < driveLetters ∧ wanted i = true :=
  ⟨mem_driveOrder.mp (List.mem_of_find?_eq_some first), List.find?_some first⟩

/-- A drive comes first if one is wanted at all. -/
theorem preferred_isSome {i : Nat} (below : i < driveLetters) (here : wanted i = true) :
    ∃ first, driveOrder.find? wanted = some first := by
  apply Option.isSome_iff_exists.mp
  rw [List.find?_isSome]
  exact ⟨i, mem_driveOrder.mpr below, here⟩

end Preferring

section Preparing

variable (host : StartHost) (disks : Nat → Option Name)

/-- The directory that a drive starts with. -/
def startDir (i : Nat) : Option Name :=
  (realMount host disks i).map fun rp =>
    if underMount rp host.workDir then os2Separators (pathBelow rp host.workDir) else []

/-- What the loop has done about the first drives. -/
structure Prepared (count : Nat) (s : PrepState) : Prop where
  disks_eq : ∀ i, s.disks i =
    if i < count ∧ realMount host disks i = none then none else disks i
  dirs_eq : ∀ i, s.currentDir i = if i < count then startDir host disks i else none
  bits_eq : ∀ i, s.diskmap.testBit i = (decide (i < count) && (realMount host disks i).isSome)
  mounted_eq : s.lowestmounted =
    (List.range count).foldl (keepWanted fun i => (realMount host disks i).isSome) 0
  cwd_eq : s.lowestcwd = (List.range count).foldl (keepWanted (holdsWorkDir host disks)) 0

variable {host disks} in
/-- Of the drives in front of the next one, only the last is new. -/
theorem Prepared.next {count : Nat} {s t : PrepState} (prepared : Prepared host disks count s)
    (disk : t.disks count = if realMount host disks count = none then none else disks count)
    (other_disks : ∀ i ≠ count, t.disks i = s.disks i)
    (dir : t.currentDir count = startDir host disks count)
    (other_dirs : ∀ i ≠ count, t.currentDir i = s.currentDir i)
    (bits : ∀ i, t.diskmap.testBit i =
      (s.diskmap.testBit i || (decide (i = count) && (realMount host disks count).isSome)))
    (mounted : t.lowestmounted =
      keepWanted (fun i => (realMount host disks i).isSome) s.lowestmounted count)
    (cwd : t.lowestcwd = keepWanted (holdsWorkDir host disks) s.lowestcwd count) :
    Prepared host disks (count + 1) t := by
  constructor
  · intro i
    by_cases last : i = count
    · subst last
      simp [disk]
    · have same : (i < count + 1) ↔ i < count := by omega
      rw [other_disks i last, prepared.disks_eq]
      simp only [same]
  · intro i
    by_cases last : i = count
    · subst last
      simp [dir]
    · have same : (i < count + 1) ↔ i < count := by omega
      rw [other_dirs i last, prepared.dirs_eq]
      simp only [same]
  · intro i
    rw [bits, prepared.bits_eq]
    by_cases last : i = count
    · subst last
      simp
    · have same : (i < count + 1) ↔ i < count := by omega
      simp [last, same]
  · rw [mounted, prepared.mounted_eq, List.range_succ, List.foldl_append]
    rfl
  · rw [cwd, prepared.cwd_eq, List.range_succ, List.foldl_append]
    rfl

variable {host disks} in
/-- The next drive is prepared. -/
theorem Prepared.prepDrive {count : Nat} {s : PrepState} (prepared : Prepared host disks count s) :
    Prepared host disks (count + 1) (prepDrive host host.workDir s count) := by
  have disk : s.disks count = disks count := by simp [prepared.disks_eq]
  have dir : s.currentDir count = none := by simp [prepared.dirs_eq]
  unfold TwoIne.prepDrive
  rw [disk]
  cases stored : disks count with
  | none =>
    -- A drive that is not mounted stays so.
    have real : realMount host disks count = none := by simp [realMount, stored]
    apply prepared.next <;>
      simp [disk, stored, real, dir, startDir, keepWanted, holdsWorkDir]
  | some mount =>
    cases resolved : host.realpath mount with
    | none =>
      have real : realMount host disks count = none := by simp [realMount, stored, resolved]
      simp only [resolved]
      apply prepared.next
      case other_disks => exact fun i other => Function.update_of_ne other _ _
      all_goals simp [real, dir, startDir, keepWanted, holdsWorkDir]
    | some rp =>
      have real : realMount host disks count = some rp := by simp [realMount, stored, resolved]
      have shifted : ∀ i, (1 <<< count).testBit i = decide (i = count) := by
        intro i
        rw [Nat.one_shiftLeft, Nat.testBit_two_pow]
        exact decide_eq_decide.mpr eq_comm
      cases under : underMount rp host.workDir with
      | true =>
        simp only [resolved, under, if_true]
        apply prepared.next
        case other_dirs => exact fun i other => Function.update_of_ne other _ _
        all_goals simp [disk, stored, real, startDir, under, shifted, keepWanted, holdsWorkDir]
      | false =>
        simp only [resolved, under, Bool.false_eq_true, if_false]
        apply prepared.next
        case other_dirs => exact fun i other => Function.update_of_ne other _ _
        all_goals simp [disk, stored, real, startDir, under, shifted, keepWanted, holdsWorkDir]

/-- The loop prepares one drive after the other. -/
theorem prepared_all (count : Nat) :
    Prepared host disks count
      ((List.range count).foldl (prepDrive host host.workDir) { disks := disks }) := by
  induction count with
  | zero => exact ⟨by simp, by simp, by simp, rfl, rfl⟩
  | succ count ih =>
    rw [List.range_succ, List.foldl_append, List.foldl_cons, List.foldl_nil]
    exact ih.prepDrive

end Preparing

section Mounts

variable {rp cwd : Name}

/-- The directory that a process works in has a real path. -/
theorem workDir_canonical (host : StartHost) : CanonicalPath host.workDir := by
  rw [StartHost.workDir]
  cases known : host.cwd with
  | none => rfl
  | some path => exact host.cwd_canonical path known

/-- A directory below a mount point is reached by the names behind those of the mount point. -/
theorem names_pathBelow (under : underMount rp cwd = true) :
    names '/' cwd = names '/' rp ++ names '/' (pathBelow rp cwd) := by
  simp only [underMount, Bool.and_eq_true, List.isPrefixOf_iff_prefix, Bool.or_eq_true,
    decide_eq_true_eq] at under
  obtain ⟨⟨rest, rfl⟩, ends⟩ := under
  have below : pathBelow rp (rp ++ rest) = trimFirst '/' rest := by
    simp [pathBelow, trimFirst]
  rw [below, names_trimFirst]
  rcases ends with (root | next) | whole
  · -- The mount point ends with the separator itself.
    obtain ⟨front, rfl⟩ := List.getLast?_eq_some_iff.mp root
    rw [List.append_assoc, List.singleton_append, names_append_sep, names_append_sep]
    simp
  · -- The separator is the next letter.
    rw [List.getElem?_append_right (Nat.le_refl _), Nat.sub_self] at next
    obtain ⟨later, rfl⟩ := List.head?_eq_some_iff.mp (by rw [List.head?_eq_getElem?, next])
    rw [names_append_sep, names_cons_sep]
  · rw [List.getElem?_append_right (Nat.le_refl _), Nat.sub_self] at whole
    have nothing : rest = [] := by
      cases rest with
      | nil => rfl
      | cons letter rest => simp at whole
    simp [nothing]

/-- A directory is below a mount point if its names start with those of the mount point. -/
theorem underMount_iff (mount : CanonicalPath rp) (dir : CanonicalPath cwd) :
    underMount rp cwd = true ↔ names '/' rp <+: names '/' cwd := by
  constructor
  · intro under
    exact ⟨_, (names_pathBelow under).symm⟩
  · rintro ⟨more, split⟩
    rw [CanonicalPath] at mount dir
    simp only [underMount, Bool.and_eq_true, List.isPrefixOf_iff_prefix, Bool.or_eq_true,
      decide_eq_true_eq]
    rw [← split] at dir
    by_cases root : names '/' rp = []
    · -- Everything is below the root.
      rw [root] at mount
      rw [mount, dir]
      exact ⟨⟨_, rfl⟩, .inl (.inl rfl)⟩
    by_cases whole : more = []
    · -- The directory is the mount point.
      rw [whole, List.append_nil, ← mount] at dir
      rw [dir]
      exact ⟨List.prefix_refl _, .inr (List.getElem?_eq_none (Nat.le_refl _))⟩
    · have joined : cwd = rp ++ '/' :: ['/'].intercalate more := by
        rw [dir, intercalate_append root whole, ← List.cons_append, ← mount]
      rw [joined]
      refine ⟨⟨_, rfl⟩, .inl (.inr ?_)⟩
      simp

end Mounts

/-- The map, the mount points and the directories agree, and the current drive is mounted. -/
structure DrivesConsistent (drives : Drives) : Prop where
  bits : ∀ i < driveLetters, drives.diskmap.testBit i = true ↔ drives.disks i ≠ none
  dirs : ∀ i < driveLetters, drives.disks i ≠ none ↔ drives.currentDir i ≠ none
  current : ∃ i < driveLetters, drives.currentDisk = i + 1 ∧ drives.disks i ≠ none

/-- Whether a name is relative: it has no drive, does not start at the root and is no device. -/
structure RelativeName (name : Name) : Prop where
  unrooted : name.head? ≠ some '\\'
  unrooted_unix : name.head? ≠ some '/'
  undriven : ∀ letter rest, name = letter :: ':' :: rest → driveIndex letter = none
  plain : isNullDevice name = false

/-- A name with the separators of the host. -/
def unixName (name : Name) : Name := name.map fun letter => if letter = '\\' then '/' else letter

/-- The path of a name in a directory below a mount point. -/
def pathAt (mount rest name : Name) : Name :=
  squeeze '/' (joinPath mount (some rest) (unixName name))

/--
A name leads to that name in the working directory: the drive is mounted somewhere, the working
directory is somewhere below it, and the path goes there, to the name in the case that the files have.
-/
def NamesInWorkDir (host : StartHost) (files : FileSystem) (drives : Drives) (name : Name) : Prop :=
  ∃ mount rp rest path, drives.disks (drives.currentDisk - 1) = some mount ∧
    host.realpath mount = some rp ∧
    names '/' host.workDir = names '/' rp ++ names '/' rest ∧
    locatePathCaseInsensitive files (pathAt mount rest name) = some path ∧
    lxMakeUnixPath files true drives name = some (.ok path)

/--
What a new process has to have: consistent drives, and relative names that lead into the working
directory, if nothing was mounted or the working directory is below a mount point.
-/
structure StartRight (host : StartHost) (files : FileSystem) (lines : List MountLine)
    (name : Name) : Prop where
  consistent : DrivesConsistent (startDrives host lines)
  relative : RelativeName name →
    ((∀ i < driveLetters, cfgLoad host lines i = none) ∨
      ∃ i < driveLetters, ∃ rp, realMount host (cfgLoad host lines) i = some rp ∧
        names '/' rp <+: names '/' host.workDir) →
    NamesInWorkDir host files (startDrives host lines) name

/--
The condition: some mount point is left, and on the first drive in the order of preference that has
the working directory below it there is no backslash on the way to it, and the search for the name
lists no directory that does not open.
-/
structure StartPlain (host : StartHost) (files : FileSystem) (lines : List MountLine)
    (name : Name) : Prop where
  mounted : ∃ i < driveLetters, realMount host (cfgLoad host lines) i ≠ none
  plain : RelativeName name → ∀ i mount rp,
    driveOrder.find? (holdsWorkDir host (cfgLoad host lines)) = some i →
    cfgLoad host lines i = some mount → host.realpath mount = some rp →
    '\\' ∉ mount ∧ '\\' ∉ pathBelow rp host.workDir ∧
      PathOpens files (pathAt mount (pathBelow rp host.workDir) name)

section Starting

variable {host : StartHost} {lines : List MountLine}

/-- The drives of a new process if some mount point is left. -/
theorem startDrives_mounted (disks : Nat → Option Name) {i : Nat} (below : i < driveLetters)
    (mounted : realMount host disks i ≠ none) :
    ∃ first, (driveOrder.find? fun i => (realMount host disks i).isSome) = some first ∧
      (prepOs2Drives host disks).currentDisk =
        ((driveOrder.find? (holdsWorkDir host disks)).getD first) + 1 ∧
      (∀ i < driveLetters, (prepOs2Drives host disks).disks i =
        if realMount host disks i = none then none else disks i) ∧
      (∀ i < driveLetters, (prepOs2Drives host disks).currentDir i = startDir host disks i) ∧
      ∀ i < driveLetters, (prepOs2Drives host disks).diskmap.testBit i =
        (realMount host disks i).isSome := by
  have prepared := prepared_all host disks driveLetters
  obtain ⟨first, preferred⟩ :=
    preferred_isSome (fun i => (realMount host disks i).isSome) below
      (Option.isSome_iff_ne_none.mpr mounted)
  have lowest := prepared.mounted_eq
  rw [foldl_keepWanted_range, preferred, Option.elim_some] at lowest
  have cwd := prepared.cwd_eq
  rw [foldl_keepWanted_range] at cwd
  refine ⟨first, preferred, ?_⟩
  rw [prepOs2Drives, if_neg (by rw [lowest]; omega)]
  refine ⟨?_, ?_, ?_, ?_⟩
  · simp only [lowest, cwd]
    cases driveOrder.find? (holdsWorkDir host disks) <;> simp
  · intro i below
    simp [prepared.disks_eq, below]
  · intro i below
    simp [prepared.dirs_eq, below]
  · intro i below
    simp [prepared.bits_eq, below]

/-- Without a mount point that is left, the map does not have the drive that is mounted instead. -/
theorem startDrives_fallback (disks : Nat → Option Name)
    (unmounted : ∀ i < driveLetters, realMount host disks i = none) :
    (prepOs2Drives host disks).disks 2 = some ['/'] ∧
      (prepOs2Drives host disks).diskmap.testBit 2 = false := by
  have prepared := prepared_all host disks driveLetters
  have none_wanted : (driveOrder.find? fun i => (realMount host disks i).isSome) = none := by
    rw [List.find?_eq_none]
    intro i member
    simp [unmounted i (mem_driveOrder.mp member)]
  have lowest := prepared.mounted_eq
  rw [foldl_keepWanted_range, none_wanted, Option.elim_none] at lowest
  rw [prepOs2Drives, if_pos lowest]
  refine ⟨by simp, ?_⟩
  simp [prepared.bits_eq, unmounted 2 (by decide)]

/-- The drives of a new process are consistent exactly if some mount point is left. -/
theorem startDrives_consistent_iff (disks : Nat → Option Name) :
    DrivesConsistent (prepOs2Drives host disks) ↔
      ∃ i < driveLetters, realMount host disks i ≠ none := by
  constructor
  · intro consistent
    by_contra unmounted
    simp only [not_exists, not_and, not_not] at unmounted
    obtain ⟨mounted, bit⟩ := startDrives_fallback disks unmounted
    have mapped := (consistent.bits 2 (by decide)).mpr (by simp [mounted])
    rw [bit] at mapped
    cases mapped
  · rintro ⟨i, below, mounted⟩
    obtain ⟨first, preferred, current, disks_eq, dirs_eq, bits_eq⟩ :=
      startDrives_mounted disks below mounted
    have stored : ∀ i < driveLetters, (prepOs2Drives host disks).disks i ≠ none ↔
        (realMount host disks i).isSome = true := by
      intro i below
      rw [disks_eq i below, Option.isSome_iff_ne_none]
      by_cases real : realMount host disks i = none
      · simp [real]
      · rw [if_neg real]
        refine iff_of_true ?_ real
        intro absent
        simp [realMount, absent] at real
    constructor
    · intro i below
      rw [bits_eq i below, stored i below]
    · intro i below
      rw [stored i below, dirs_eq i below, startDir, Option.isSome_iff_ne_none]
      simp
    · -- The drive that is taken is one that is mounted.
      cases preferred_cwd : driveOrder.find? (holdsWorkDir host disks) with
      | none =>
        obtain ⟨first_below, first_mounted⟩ := preferred_spec _ preferred
        exact ⟨first, first_below, by simp [current, preferred_cwd],
          (stored first first_below).mpr first_mounted⟩
      | some drive =>
        obtain ⟨drive_below, holds⟩ := preferred_spec _ preferred_cwd
        refine ⟨drive, drive_below, by simp [current, preferred_cwd],
          (stored drive drive_below).mpr ?_⟩
        exact Option.isSome_of_any holds

end Starting

section Naming

variable {name mount rest : Name} {drives : Drives} {files : FileSystem}

/-- A relative name is on the current drive. -/
theorem RelativeName.splitDrive (relative : RelativeName name) (disk : Nat) :
    splitDrive disk name = (disk - 1, name) := by
  unfold TwoIne.splitDrive
  split
  · next letter rest =>
    rw [relative.undriven letter rest rfl]
  · rfl

/-- A path without backslashes has the separators of the host. -/
theorem unixName_of_plain (plain : '\\' ∉ name) : unixName name = name := by
  rw [unixName]
  conv_rhs => rw [← List.map_id name]
  apply List.map_congr_left
  intro letter member
  have other : letter ≠ '\\' := fun same => plain (same ▸ member)
  simp [other]

/-- A path with the separators of the host has no backslash. -/
theorem not_mem_unixName (name : Name) : '\\' ∉ unixName name := by
  intro member
  obtain ⟨letter, _, same⟩ := List.mem_map.mp member
  split at same
  · cases same
  · next other => exact other same

/-- The separators of OS/2 are turned back. -/
theorem unixName_os2Separators (plain : '\\' ∉ name) : unixName (os2Separators name) = name := by
  rw [unixName, os2Separators, List.map_map]
  conv_rhs => rw [← List.map_id name]
  apply List.map_congr_left
  intro letter member
  have other : letter ≠ '\\' := fun same => plain (same ▸ member)
  by_cases separator : letter = '/'
  · simp [separator]
  · simp [separator, other]

/-- The path for a relative name before it is looked for. -/
theorem unixText_relative (relative : RelativeName name)
    (stored : drives.disks (drives.currentDisk - 1) = some mount)
    (current : drives.currentDir (drives.currentDisk - 1) = some rest) :
    unixText drives name =
      some (squeeze '/' (joinPath (unixName mount) (some (unixName rest)) (unixName name))) := by
  rw [unixText, if_neg (by simp [relative.plain]), relative.splitDrive]
  simp only [stored, Option.map_some, if_neg relative.unrooted, current, Option.some.injEq]
  rw [unixSeparators]
  -- The separators are turned in every part, and the name still does not start with one.
  congr 1
  cases name with
  | nil => simp [joinPath, unixName]
  | cons first name =>
    have backslash : first ≠ '\\' := by simpa using relative.unrooted
    have slash : first ≠ '/' := by simpa using relative.unrooted_unix
    simp [joinPath, unixName, backslash, slash]

/-- The path of a name has the backslashes of the mount point and of the directory. -/
theorem mem_pathAt_iff : '\\' ∈ pathAt mount rest name ↔ '\\' ∈ mount ∨ '\\' ∈ rest := by
  have plain := not_mem_unixName name
  rw [pathAt, mem_squeeze (by decide), joinPath]
  split <;> simp [plain]

/-- With memory for the path it is what the search finds. -/
theorem lxMakeUnixPath_text {text : Name} (made : unixText drives name = some text) :
    lxMakeUnixPath files true drives name = (locatePathCaseInsensitive files text).map .ok := by
  simp [lxMakeUnixPath, made]

end Naming

section Relative

variable {host : StartHost} {files : FileSystem} {disks : Nat → Option Name} {name : Name}

/-- A drive that holds the working directory is mounted, and the directory is below it. -/
theorem holdsWorkDir_spec {i : Nat} (holds : holdsWorkDir host disks i = true) :
    ∃ mount rp, disks i = some mount ∧ host.realpath mount = some rp ∧
      underMount rp host.workDir = true := by
  rw [holdsWorkDir, Option.any_eq_true] at holds
  obtain ⟨rp, real, under⟩ := holds
  obtain ⟨mount, stored, resolved⟩ := Option.bind_eq_some_iff.mp real
  exact ⟨mount, rp, stored, resolved, under⟩

/-- The drive that holds the working directory is the current one, in that directory. -/
theorem startDrives_holding {drive : Nat} {mount rp : Name}
    (first : driveOrder.find? (holdsWorkDir host disks) = some drive)
    (stored : disks drive = some mount) (resolved : host.realpath mount = some rp) :
    (prepOs2Drives host disks).currentDisk = drive + 1 ∧
      (prepOs2Drives host disks).disks drive = some mount ∧
      (prepOs2Drives host disks).currentDir drive =
        some (os2Separators (pathBelow rp host.workDir)) ∧
      underMount rp host.workDir = true := by
  obtain ⟨below, holds⟩ := preferred_spec _ first
  have real : realMount host disks drive = some rp := by simp [realMount, stored, resolved]
  have under : underMount rp host.workDir = true := by simpa [holdsWorkDir, real] using holds
  obtain ⟨_, _, current, disks_eq, dirs_eq, _⟩ :=
    startDrives_mounted disks below (by rw [real]; simp)
  refine ⟨by simp [current, first], ?_, ?_, under⟩
  · simp [disks_eq drive below, real, stored]
  · simp [dirs_eq drive below, startDir, real, under]

/-- A relative name leads into the working directory exactly if no backslash is on the way. -/
theorem names_workDir_iff (relative : RelativeName name) {drive : Nat} {mount rp : Name}
    (first : driveOrder.find? (holdsWorkDir host disks) = some drive)
    (stored : disks drive = some mount) (resolved : host.realpath mount = some rp) :
    NamesInWorkDir host files (prepOs2Drives host disks) name ↔
      '\\' ∉ mount ∧ '\\' ∉ pathBelow rp host.workDir ∧
        PathOpens files (pathAt mount (pathBelow rp host.workDir) name) := by
  obtain ⟨current, disk, dir, under⟩ := startDrives_holding first stored resolved
  have here : (prepOs2Drives host disks).currentDisk - 1 = drive := by omega
  rw [← here] at disk dir
  have made := unixText_relative relative disk dir
  have below := names_pathBelow under
  constructor
  · rintro ⟨stored_again, real, rest, path, disk_again, resolved_again, split, found, translated⟩
    cases disk.symm.trans disk_again
    cases resolved.symm.trans resolved_again
    -- What was found has the letters of the translated path, which has no backslash.
    rw [lxMakeUnixPath_text made, Option.map_eq_some_iff] at translated
    obtain ⟨path_again, found_again, same⟩ := translated
    cases same
    have letters := (locatePath_letters found).symm.trans (locatePath_letters found_again)
    have plain : '\\' ∉ pathAt mount rest name := by
      rw [backslash_mem_iff letters, mem_squeeze (by decide), joinPath]
      have absent := not_mem_unixName
      split <;> simp [absent]
    rw [mem_pathAt_iff, not_or] at plain
    have same_names : names '/' rest = names '/' (pathBelow rp host.workDir) :=
      List.append_cancel_left (split.symm.trans below)
    have plain_below : '\\' ∉ pathBelow rp host.workDir := by
      have other : '\\' ≠ '/' := by decide
      rw [mem_iff_names other, ← same_names, ← mem_iff_names other]
      exact plain.2
    refine ⟨plain.1, plain_below, ?_⟩
    -- The search that ended is the one for this path.
    rw [unixName_of_plain plain.1, unixName_os2Separators plain_below] at found_again
    exact (locatePath_isSome files _).mp (by rw [pathAt, found_again]; rfl)
  · rintro ⟨plain_mount, plain_below, opens⟩
    rw [unixName_of_plain plain_mount, unixName_os2Separators plain_below] at made
    obtain ⟨path, found⟩ := Option.isSome_iff_exists.mp ((locatePath_isSome files _).mpr opens)
    refine ⟨mount, rp, pathBelow rp host.workDir, path, disk, resolved, below, found, ?_⟩
    rw [lxMakeUnixPath_text made]
    rw [pathAt] at found
    simp [found]

/-- A working directory below a mount point is on the drive that comes first. -/
theorem holding_iff :
    (∃ i < driveLetters, ∃ rp, realMount host disks i = some rp ∧
      names '/' rp <+: names '/' host.workDir) ↔
    ∃ drive mount rp, driveOrder.find? (holdsWorkDir host disks) = some drive ∧
      disks drive = some mount ∧ host.realpath mount = some rp := by
  constructor
  · rintro ⟨i, below, rp, real, start⟩
    obtain ⟨mount, _, resolved⟩ := Option.bind_eq_some_iff.mp real
    have under := (underMount_iff (host.realpath_canonical mount rp resolved)
      (workDir_canonical host)).mpr start
    obtain ⟨drive, first⟩ := preferred_isSome (holdsWorkDir host disks) below
      (by simp [holdsWorkDir, real, under])
    obtain ⟨mount, rp, stored, resolved, _⟩ := holdsWorkDir_spec (preferred_spec _ first).2
    exact ⟨drive, mount, rp, first, stored, resolved⟩
  · rintro ⟨drive, mount, rp, first, stored, resolved⟩
    obtain ⟨below, holds⟩ := preferred_spec _ first
    obtain ⟨_, rp, stored, resolved, under⟩ := holdsWorkDir_spec holds
    have real : realMount host disks drive = some rp := by simp [realMount, stored, resolved]
    exact ⟨drive, below, rp, real, _, (names_pathBelow under).symm⟩

end Relative

/--
A new process has consistent drives, and names that lead into its working directory, exactly if some
mount point is left, no backslash is on the way to the working directory, and the search for the name
comes to its end.
-/
theorem start_right_iff (host : StartHost) (files : FileSystem) (lines : List MountLine)
    (name : Name) : StartRight host files lines name ↔ StartPlain host files lines name := by
  constructor
  · rintro ⟨consistent, relative⟩
    refine ⟨(startDrives_consistent_iff _).mp consistent, ?_⟩
    intro relative_name drive mount rp first stored resolved
    exact (names_workDir_iff relative_name first stored resolved).mp
      (relative relative_name (.inr (holding_iff.mpr ⟨drive, mount, rp, first, stored, resolved⟩)))
  · rintro ⟨mounted, plain⟩
    refine ⟨(startDrives_consistent_iff _).mpr mounted, ?_⟩
    intro relative_name held
    rcases held with unmounted | held
    · -- Some drive is mounted.
      obtain ⟨i, below, real⟩ := mounted
      exact absurd (by simp [realMount, unmounted i below]) real
    · obtain ⟨drive, mount, rp, first, stored, resolved⟩ := holding_iff.mp held
      exact (names_workDir_iff relative_name first stored resolved).mpr
        (plain relative_name drive mount rp first stored resolved)

/-- A host with a home directory, where every path is its own real path. -/
def plainHost : StartHost where
  cwd := some "/home".toList
  isDirectory := fun _ => some true
  realpath := fun path => some ('/' :: ['/'].intercalate (names '/' path))
  cwd_canonical := by
    rintro path ⟨⟩
    rw [CanonicalPath]
    decide
  realpath_canonical := by
    rintro path real ⟨⟩
    have proper : ∀ name ∈ names '/' path, name ≠ [] ∧ '/' ∉ name := fun name member =>
      mem_names member
    rw [CanonicalPath, names_cons_sep, names_intercalate proper]

/-- Files where every path leads to one. -/
def openFiles : FileSystem where
  accessible := fun _ => true
  listing := fun _ => none

/-- Without any mount line the drive C: is used, but it is not in the map. -/
theorem unmounted_start_inconsistent : ¬ StartRight plainHost openFiles [] "a".toList := by
  intro right
  obtain ⟨i, _, mounted⟩ := (startDrives_consistent_iff _).mp right.consistent
  exact mounted rfl

end TwoIne
