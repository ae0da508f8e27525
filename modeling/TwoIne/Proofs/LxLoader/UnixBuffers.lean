import TwoIne.LxLoader.UnixBuffers
import TwoIne.Proofs.LxLoader.UnixPaths

/-!
A path of the host is the mount point of the drive, its directory for a relative path, and the path,
with one slash between them; only the null device has a path of its own.
-/

namespace TwoIne

open Paths StringBuffers

/-- The drives of a process: one of them is the current one, and what is stored is strings. -/
structure Drives.Stored (drives : Drives) : Prop where
  lowest : 1 ≤ drives.currentDisk
  highest : drives.currentDisk ≤ driveLetters
  disks : ∀ i mountpoint, drives.disks i = some mountpoint → nul ∉ mountpoint
  currentDir : ∀ i dir, drives.currentDir i = some dir → nul ∉ dir

/-- A letter of a path with the separators of the host. -/
def unixLetter (letter : Char) : Char := if letter = '\\' then '/' else letter

/--
The mount point, the directory unless the path starts with a backslash, and the path unless it is
empty.
-/
def pathPieces (drives : Drives) (os2path : Name) : Option (List Name) :=
  let (driveidx, path) := splitDrive drives.currentDisk os2path
  (drives.disks driveidx).map fun mountpoint =>
    mountpoint ::
      ((if path.head? ≠ some '\\' then (drives.currentDir driveidx).toList else []) ++
        if path = [] then [] else [path])

/-- The pieces with a slash between them, and none that follows another one. -/
def joinPieces (pieces : List Name) : Name :=
  squeeze '/' ((['/'].intercalate pieces).map unixLetter)

/-- What is handed on is a path of the host: no backslash, and no slash behind another one. -/
structure UnixShape (text : Name) : Prop where
  backslash : '\\' ∉ text
  single : ¬ ['/', '/'] <:+: text

/--
The path that is put together: it is written whole, both loops come to their end, and the text has
the shape of a path of the host. It is the one of the null device, or it is made of its pieces; where
the drive is not mounted there is none.
-/
structure Composes (garbage : Nat → Char) (drives : Drives) (os2path : Name) : Prop where
  unmounted : isNullDevice os2path = false → pathPieces drives os2path = none → ∀ room,
    unixPathBuffer garbage room drives os2path = some (.error .errorNotDosDisk)
  device : isNullDevice os2path = true →
    unixPathBuffer garbage true drives os2path = some (.ok "/dev/null".toList)
  pieces : isNullDevice os2path = false → ∀ pieces, pathPieces drives os2path = some pieces →
    unixPathBuffer garbage true drives os2path = some (.ok (joinPieces pieces))
  whole : ∀ parts, unixParts drives os2path = some parts → parts.text.length < parts.len
  shape : ∀ text, unixPathBuffer garbage true drives os2path = some (.ok text) → UnixShape text

/-! Composing -/

variable {drives : Drives} {os2path : Name}

/-- The text that is written has room in the buffer. -/
theorem UnixParts.text_fits (parts : UnixParts) : parts.text.length < parts.len := by
  obtain ⟨mountpoint, cwd, os2path⟩ := parts
  simp only [UnixParts.text, UnixParts.len, List.length_append]
  have slash : (if os2path = [] ∨ os2path.head? = some '/' then [] else ['/']).length ≤ 1 := by
    split <;> simp
  -- There is room for both slashes and for the nul.
  cases mountpoint <;> cases cwd <;> simp <;> omega

/-- Writing, replacing and squeezing come to their end. -/
theorem composePath_eq (garbage : Nat → Char) {parts : UnixParts} (clean : nul ∉ parts.text) :
    composePath garbage parts = some (squeeze '/' (parts.text.map unixLetter)) := by
  have room := parts.text_fits
  have size : (freshBuffer garbage parts.len).length = parts.len := by simp [freshBuffer]
  have slash : ('/' : Char) ≠ nul := by decide
  obtain ⟨first, written, held, _⟩ := snprintf_holds clean room size
  have start : Holds nul first ([] ++ parts.text) := held
  obtain ⟨second, replaced, slashes, _⟩ := start.replaceFrom '\\' slash room
  have shorter : (parts.text.map unixLetter).length < parts.len := by
    rw [List.length_map]
    exact room
  obtain ⟨third, squeezed, final, _⟩ := slashes.squeezeFrom '/' shorter
  rw [List.length_nil] at replaced squeezed
  simp only [composePath, written, replaced, squeezed, Option.bind_eq_bind, Option.bind_some]
  exact final.whole

/-- A path of the host has its shape. -/
theorem unixShape_squeeze (text : Name) : UnixShape (squeeze '/' (text.map unixLetter)) where
  backslash member := by
    rw [mem_squeeze (by decide), List.mem_map] at member
    obtain ⟨letter, _, same⟩ := member
    unfold unixLetter at same
    split at same
    · cases same
    · next other => exact other same
  single := squeeze_single _

/-- A slash in front of a path that starts with one is left out. -/
theorem squeeze_slash (front : Name) {path : Name} (starts : path.head? = some '/') :
    squeeze '/' ((front ++ '/' :: path).map unixLetter) =
      squeeze '/' ((front ++ path).map unixLetter) := by
  rw [List.map_append, List.map_append]
  refine squeeze_append _ (squeeze_root _ ?_)
  rw [List.head?_map, starts]
  rfl

/-- The parts of a path make the same text as its pieces. -/
theorem squeeze_parts (mountpoint : Name) (cwd : Option Name) (path : Name) :
    squeeze '/' ((UnixParts.text ⟨some mountpoint, cwd, path⟩).map unixLetter) =
      joinPieces (mountpoint :: (cwd.toList ++ if path = [] then [] else [path])) := by
  have front : UnixParts.text ⟨some mountpoint, cwd, path⟩ =
      ['/'].intercalate (mountpoint :: cwd.toList) ++
        ((if path = [] ∨ path.head? = some '/' then [] else ['/']) ++ path) := by
    cases cwd <;> simp [UnixParts.text]
  have behind : path ≠ [] → ['/'].intercalate (mountpoint :: (cwd.toList ++ [path])) =
      ['/'].intercalate (mountpoint :: cwd.toList) ++ '/' :: path := by
    intro _
    rw [← List.cons_append, intercalate_append (by simp) (by simp), List.intercalate_singleton]
  unfold joinPieces
  rw [front]
  by_cases empty : path = []
  · simp [empty]
  · rw [if_neg empty, behind empty]
    by_cases starts : path.head? = some '/'
    · -- The path brings its own slash.
      rw [if_pos (.inr starts), List.nil_append, squeeze_slash _ starts]
    · rw [if_neg (not_or.mpr ⟨empty, starts⟩)]
      rfl

/-- What is left of a path behind its drive is a part of it. -/
theorem splitDrive_clean (clean : nul ∉ os2path) (disk : Nat) :
    nul ∉ (splitDrive disk os2path).2 := by
  unfold splitDrive
  split
  · split
    · exact fun member => clean (List.mem_cons_of_mem _ (List.mem_cons_of_mem _ member))
    · exact clean
  · exact clean

/-- The text that is written for strings is one. -/
theorem unixParts_clean (stored : drives.Stored) (clean : nul ∉ os2path) {parts : UnixParts}
    (made : unixParts drives os2path = some parts) : nul ∉ parts.text := by
  unfold unixParts at made
  split at made
  · cases made
    decide
  · have behind := splitDrive_clean clean drives.currentDisk
    revert made
    generalize splitDrive drives.currentDisk os2path = split at behind
    obtain ⟨driveidx, path⟩ := split
    intro made
    dsimp only at made behind
    cases mounted : drives.disks driveidx with
    | none =>
      rw [mounted] at made
      cases made
    | some mountpoint =>
      rw [mounted] at made
      cases made
      have mount_clean := stored.disks _ _ mounted
      have slash : ('/' : Char) ≠ nul := by decide
      simp only [UnixParts.text, Option.getD_some, List.mem_append, not_or]
      refine ⟨⟨⟨⟨mount_clean, ?_⟩, ?_⟩, ?_⟩, behind⟩
      · split <;> simp [slash.symm]
      · split
        · cases dir : drives.currentDir driveidx with
          | none => simp
          | some dir_text => exact stored.currentDir _ _ dir
        · simp
      · split <;> simp [slash.symm]

/-- What is handed on for a path. -/
theorem unixPathBuffer_parts (garbage : Nat → Char) (stored : drives.Stored) (clean : nul ∉ os2path)
    (room : Bool) :
    unixPathBuffer garbage room drives os2path =
      match unixParts drives os2path with
      | none => some (.error .errorNotDosDisk)
      | some parts =>
        if room = false then some (.error .errorNotEnoughMemory)
        else some (.ok (squeeze '/' (parts.text.map unixLetter))) := by
  unfold unixPathBuffer
  cases made : unixParts drives os2path with
  | none => rfl
  | some parts =>
    dsimp only
    rw [composePath_eq garbage (unixParts_clean stored clean made)]
    rfl

/-- The pieces of a path are there exactly if its drive is mounted. -/
theorem unixParts_pieces (drives : Drives) (other : isNullDevice os2path = false) :
    (unixParts drives os2path = none ∧ pathPieces drives os2path = none) ∨
      ∃ parts pieces, unixParts drives os2path = some parts ∧
        pathPieces drives os2path = some pieces ∧
          squeeze '/' (parts.text.map unixLetter) = joinPieces pieces := by
  unfold unixParts pathPieces
  rw [if_neg (by simp [other])]
  generalize splitDrive drives.currentDisk os2path = split
  obtain ⟨driveidx, path⟩ := split
  dsimp only
  cases drives.disks driveidx with
  | none => exact .inl ⟨rfl, rfl⟩
  | some mountpoint =>
    refine .inr ⟨_, _, rfl, rfl, ?_⟩
    rw [squeeze_parts]
    split <;> rfl

/-- The text that is written is the one that is put together without a buffer. -/
theorem squeeze_joinPath (mountpoint : Name) (cwd : Option Name) (path : Name) :
    unixSeparators (joinPath mountpoint (if path.head? = some '\\' then none else cwd) path) =
      squeeze '/' ((UnixParts.text ⟨some mountpoint,
        if path.head? ≠ some '\\' then cwd else none, path⟩).map unixLetter) := by
  unfold unixSeparators joinPath UnixParts.text
  refine congrArg (fun text : Name => squeeze '/' (text.map unixLetter)) ?_
  have slash : (if path = [] ∨ path.head? = some '/' then path else '/' :: path) =
      (if path = [] ∨ path.head? = some '/' then [] else ['/']) ++ path := by
    split <;> rfl
  rw [slash]
  by_cases absolute : path.head? = some '\\'
  · simp [absolute]
  · cases cwd <;> simp [absolute]

/-- The path that is looked for in its buffer is the one that is found for the text. -/
theorem lxMakeUnixPathBuffer_eq (garbage : Nat → Char) (files : FileSystem) (room : Bool)
    (stored : drives.Stored) (clean : nul ∉ os2path) :
    lxMakeUnixPathBuffer garbage files room drives os2path =
      lxMakeUnixPath files room drives os2path := by
  have text : unixText drives os2path =
      (unixParts drives os2path).map fun parts => squeeze '/' (parts.text.map unixLetter) := by
    unfold unixText unixParts
    by_cases device : isNullDevice os2path = true
    · rw [if_pos device, if_pos device]
      rfl
    · rw [if_neg device, if_neg device]
      generalize splitDrive drives.currentDisk os2path = split
      obtain ⟨driveidx, path⟩ := split
      dsimp only
      cases drives.disks driveidx with
      | none => rfl
      | some mountpoint => exact congrArg some (squeeze_joinPath ..)
  rw [lxMakeUnixPathBuffer, unixPathBuffer_parts garbage stored clean, lxMakeUnixPath, text]
  cases unixParts drives os2path with
  | none => rfl
  | some parts => cases room <;> rfl

/-- A drive C: that is mounted, with its root as the current directory. -/
def mountedDrive : Drives where
  disks i := if i = 2 then some "/c".toList else none
  currentDir i := if i = 2 then some [] else none
  currentDisk := 3
  diskmap := 4

/-- What is stored for the drive is strings. -/
theorem mountedDrive_stored : mountedDrive.Stored where
  lowest := by decide
  highest := by decide
  disks i mountpoint mounted := by
    unfold mountedDrive at mounted
    dsimp only at mounted
    split at mounted <;> cases mounted
    decide
  currentDir i dir there := by
    unfold mountedDrive at there
    dsimp only at there
    split at there <;> cases there
    decide

end TwoIne
