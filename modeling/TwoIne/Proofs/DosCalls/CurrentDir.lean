import TwoIne.DosCalls.CurrentDir
import TwoIne.Lib.Runs
import TwoIne.Proofs.LxLoader.UnixPaths

/-!
A call that changes a directory does what its path says, and a query answers with the directory that
was set, but a query of the current drive looks at the drive behind it.
-/

namespace TwoIne

open Paths Runs

/-- The directory that a text stands for. -/
def directoryOf (text : Name) : List Name := follow ['.'] ['.', '.'] [] (names '\\' text)

section Normalizing

variable {dir : List Name} {front : Name}

/-- Going back ends at the last separator, or at the start. -/
theorem prevElement_eq {k n : Nat} (before : k ≤ n)
    (between : ∀ i, k < i → i ≤ n → front[i]? ≠ some '\\')
    (stop : k = 0 ∨ front[k]? = some '\\') : prevElement front n = k := by
  induction n with
  | zero => exact (Nat.le_zero.mp before).symm
  | succ n ih =>
    rw [prevElement]
    by_cases here : k = n + 1
    · -- This is where going back stops.
      subst here
      rw [if_pos (stop.resolve_left (Nat.succ_ne_zero n))]
    · rw [if_neg (between (n + 1) (by omega) (Nat.le_refl _))]
      exact ih (by omega) fun i after below => between i after (by omega)

/-- The text of a directory is empty only for no names. -/
theorem closed_eq_nil_iff : closed '\\' dir = [] ↔ dir = [] := by
  cases dir with
  | nil => simp
  | cons name dir => simp [closed]

/-- Going back from behind the last name ends in front of it. -/
theorem prevElement_closed (proper : ∀ name ∈ dir, name ≠ [] ∧ '\\' ∉ name) (present : dir ≠ []) :
    2 ≤ (closed '\\' dir).length ∧
      prevElement (closed '\\' dir) ((closed '\\' dir).length - 2) =
        (closed '\\' dir.dropLast).length - 1 := by
  obtain ⟨last_present, inside⟩ := proper _ (List.getLast_mem present)
  have last_length := List.length_pos_iff.mpr last_present
  have split : closed '\\' dir =
      closed '\\' dir.dropLast ++ (dir.getLast present ++ ['\\']) := by
    rw [← List.append_assoc, ← closed_split '\\' present]
  have length := congrArg List.length split
  simp only [List.length_append, List.length_singleton] at length
  refine ⟨by omega, prevElement_eq (by omega) ?_ ?_⟩
  · -- All that is passed belongs to the last name.
    intro i after below stored
    rw [split, List.getElem?_append_right (by omega),
      List.getElem?_append_left (by omega)] at stored
    exact inside (List.mem_of_getElem? stored)
  · by_cases first : dir.dropLast = []
    · left
      rw [first]
      rfl
    · -- The names in front end with a separator.
      right
      have front_split := closed_split '\\' first
      rw [split, front_split]
      simp

/-- What stands in front of the last name is the text of its parent. -/
theorem take_closed (present : dir ≠ []) :
    (closed '\\' dir).take (closed '\\' dir.dropLast).length = closed '\\' dir.dropLast := by
  rw [closed_split '\\' present, List.append_assoc, List.take_left]

/-- A directory without its last name. -/
theorem proper_dropLast (proper : ∀ name ∈ dir, name ≠ [] ∧ '\\' ∉ name) :
    ∀ name ∈ dir.dropLast, name ≠ [] ∧ '\\' ∉ name :=
  fun name member => proper name ((List.dropLast_sublist dir).subset member)

/-- Behind the separator where going back ends is where the parent ends. -/
theorem behind_prevElement (proper : ∀ name ∈ dir, name ≠ [] ∧ '\\' ∉ name) (present : dir ≠ []) :
    (if prevElement (closed '\\' dir) ((closed '\\' dir).length - 2) ≠ 0 then
        prevElement (closed '\\' dir) ((closed '\\' dir).length - 2) + 1
      else prevElement (closed '\\' dir) ((closed '\\' dir).length - 2)) =
      (closed '\\' dir.dropLast).length := by
  rw [(prevElement_closed proper present).2]
  by_cases first : dir.dropLast = []
  · simp [first]
  · have long := (prevElement_closed (proper_dropLast proper) first).1
    rw [if_pos (by omega)]
    omega

/-- The last element of a path leads on from the directory in front of it. -/
theorem dropLastDots_text (proper : ∀ name ∈ dir, name ≠ [] ∧ '\\' ∉ name) (element : Name) :
    dropLastDots (closed '\\' dir) element =
      some (if element = [] then closed '\\' dir
        else ['\\'].intercalate (follow ['.'] ['.', '.'] dir [element])) := by
  rw [dropLastDots]
  by_cases stays : element = ['.']
  · -- The separator in front is left out.
    simp [stays, closed_dropLast, follow, enter]
  by_cases leaves : element = ['.', '.']
  · by_cases present : dir = []
    · simp [leaves, present, follow, enter]
    · -- The parent is left out with the separator in front of it.
      obtain ⟨long, back⟩ := prevElement_closed proper present
      have parent : (closed '\\' dir).take ((closed '\\' dir.dropLast).length - 1) =
          (closed '\\' dir.dropLast).dropLast := by
        have whole := congrArg (List.take ((closed '\\' dir.dropLast).length - 1))
          (take_closed present)
        rw [List.take_take, Nat.min_eq_left (by omega)] at whole
        rw [whole, ← List.dropLast_eq_take]
      have nonempty : closed '\\' dir ≠ [] := mt closed_eq_nil_iff.mp present
      rw [if_neg stays, if_pos leaves, if_neg nonempty, if_neg (by omega), back, parent,
        closed_dropLast]
      simp [leaves, follow, enter]
  · -- Any other element is a name, or nothing.
    rw [if_neg stays, if_neg leaves]
    by_cases empty : element = []
    · simp [empty]
    · rw [if_neg empty, closed_name]
      simp [follow, enter, stays, leaves]

/-- The elements of a path lead on from the directory in front of them. -/
theorem dropDots_text (elements : List Name) (last : Name)
    (proper_elements : ∀ name ∈ elements, name ≠ [] ∧ '\\' ∉ name) :
    ∀ dir : List Name, (∀ name ∈ dir, name ≠ [] ∧ '\\' ∉ name) →
      dropDots (closed '\\' dir) (elements ++ [last]) =
        some (if last = [] then closed '\\' (follow ['.'] ['.', '.'] dir elements)
          else ['\\'].intercalate (follow ['.'] ['.', '.'] dir (elements ++ [last]))) := by
  induction elements with
  | nil => exact fun dir proper => dropLastDots_text proper last
  | cons element rest ih =>
    intro dir proper
    obtain ⟨next, later, more⟩ : ∃ next later, rest ++ [last] = next :: later :=
      List.exists_cons_of_ne_nil (by simp)
    have element_proper := proper_elements element List.mem_cons_self
    have step := ih fun name member => proper_elements name (List.mem_cons_of_mem _ member)
    rw [List.cons_append, more, dropDots, ← more]
    simp only [follow, List.foldl_cons]
    by_cases stays : element = ['.']
    · simpa [stays, enter, follow] using step dir proper
    by_cases leaves : element = ['.', '.']
    · by_cases present : dir = []
      · simpa [leaves, present, enter, follow] using step [] (by simp)
      · -- The text is cut behind the parent.
        have nonempty : closed '\\' dir ≠ [] := mt closed_eq_nil_iff.mp present
        have long := (prevElement_closed proper present).1
        have cut := behind_prevElement proper present
        simp only [if_neg stays, if_pos leaves, if_neg nonempty, cut, take_closed present,
          if_neg (show ¬ (closed '\\' dir).length < 2 by omega)]
        simpa [enter, stays, leaves, follow] using step dir.dropLast (proper_dropLast proper)
    · rw [if_neg stays, if_neg leaves, ← closed_append]
      have longer : ∀ name ∈ dir ++ [element], name ≠ [] ∧ '\\' ∉ name := by
        intro name member
        rcases List.mem_append.mp member with old | new
        · exact proper name old
        · exact List.mem_singleton.mp new ▸ element_proper
      simpa [enter, stays, leaves, follow] using step (dir ++ [element]) longer

/-- The directory that a text stands for has proper names. -/
theorem directoryOf_proper (text : Name) : ∀ name ∈ directoryOf text, name ≠ [] ∧ '\\' ∉ name := by
  intro name member
  rcases mem_follow member with none_there | there
  · cases none_there
  · exact mem_names there

/--
A normalized text puts the names of its directory together, with a separator behind the last one
where the text ends with one. No assertion fails.
-/
theorem normalizeDir_text (text : Name) :
    normalizeDir text =
      some (if text = [] ∨ text.getLast? = some '\\' then closed '\\' (directoryOf text)
        else ['\\'].intercalate (directoryOf text)) := by
  obtain ⟨front, last, pieces, all, ends⟩ := splitOn_squeezed '\\' text
  have proper : ∀ name ∈ front, name ≠ [] ∧ '\\' ∉ name :=
    fun name member => mem_names (all ▸ List.mem_append_left _ member)
  have out := dropDots_text front last proper [] (by simp)
  rw [closed_nil] at out
  rw [normalizeDir, pieces, directoryOf, all, out]
  simp only [← ends]
  by_cases empty : last = []
  · simp [empty]
  · simp [empty]

/-- A normalized text has the names of the directory that it stands for, and no assertion fails. -/
theorem normalizeDir_names (text : Name) :
    ∃ out, normalizeDir text = some out ∧ names '\\' out = directoryOf text := by
  have proper := directoryOf_proper text
  refine ⟨_, normalizeDir_text text, ?_⟩
  split
  · have all := names_closed proper []
    rwa [List.append_nil, names_nil, List.append_nil] at all
  · exact names_intercalate proper

end Normalizing

/-- Drives as a process starts with them: every mounted drive has a directory, and so the current. -/
structure Drives.Sound (drives : Drives) : Prop where
  lowest : 1 ≤ drives.currentDisk
  highest : drives.currentDisk ≤ driveLetters
  current : drives.disks (drives.currentDisk - 1) ≠ none
  both : ∀ i < driveLetters, drives.disks i = none ↔ drives.currentDir i = none

section Drives

/-- A path is on one of the drives. -/
theorem splitDrive_lt {drives : Drives} (sound : drives.Sound) (path : Name) :
    (splitDrive drives.currentDisk path).1 < driveLetters := by
  have lowest := sound.lowest
  have highest := sound.highest
  unfold splitDrive
  split
  · split
    · next found => exact driveIndex_lt found
    · simp only
      omega
  · simp only
    omega

/-- A path that has a path of the host is on a drive with a directory. -/
theorem currentDir_of_unixText {drives : Drives} (sound : drives.Sound) {path text : Name}
    (made : unixText drives path = some text) :
    ∃ old, drives.currentDir (splitDrive drives.currentDisk path).1 = some old := by
  apply Option.ne_none_iff_exists'.mp
  apply mt (sound.both _ (splitDrive_lt sound path)).mpr
  rw [unixText] at made
  split at made
  · next device =>
    rw [splitDrive_null device]
    exact sound.current
  · intro unmounted
    simp [unmounted] at made

end Drives

/--
Whether a call that changes a directory comes to its end: the search for its path lists no directory
that does not open, and memory does not run out after the process changed its directory.
-/
def SetCompletes (host : DirHost) (s : DirState) (pszName : Name) : Prop :=
  pszName ≠ [] → refusedName pszName = false → host.unixRoom = true →
    ∀ text, unixText s.drives pszName = some text →
      PathOpens host.files text ∧
        ∀ path, locatePathCaseInsensitive host.files text = some path →
          host.chdir path = none → host.dirRoom = true

/-- The directory of a path on a drive with a directory. -/
def enteredDir (dir : List Name) (rest : Name) : List Name :=
  follow ['.'] ['.', '.'] (if rest.head? = some '\\' then [] else dir) (names '\\' rest)

/-- The directories after one was changed. -/
def enterDirectory (disk : Nat) (dirs : Nat → Option (List Name)) (pszName : Name) :
    Nat → Option (List Name) :=
  Function.update dirs (splitDrive disk pszName).1
    (some (enteredDir ((dirs (splitDrive disk pszName).1).getD []) (splitDrive disk pszName).2))

/-- A state whose drives differ from another one in the directory that a name changes. -/
def Entered (s t : DirState) (pszName : Name) : Prop :=
  ∃ old text, s.drives.currentDir (splitDrive s.drives.currentDisk pszName).1 = some old ∧
    t.drives = { s.drives with
      currentDir := Function.update s.drives.currentDir
        (splitDrive s.drives.currentDisk pszName).1 (some text) } ∧
    directoryOf text = enteredDir (directoryOf old) (splitDrive s.drives.currentDisk pszName).2

section Setting

variable {host : DirHost} {s : DirState} {pszName : Name}

/-- A normalized text stands for the directory that the text stood for. -/
theorem normalizeDir_directory (text : Name) :
    ∃ out, normalizeDir text = some out ∧ directoryOf out = directoryOf text := by
  obtain ⟨out, normalized, out_names⟩ := normalizeDir_names text
  refine ⟨out, normalized, ?_⟩
  have plain : ∀ name ∈ directoryOf text, name ≠ ['.'] ∧ name ≠ ['.', '.'] :=
    follow_plain (by simp) _
  rw [directoryOf, out_names, follow_of_plain plain, List.nil_append]

/-- The text that is stored stands for the directory that is entered. -/
theorem directoryOf_joined (old rest : Name) (relative : rest.head? = some '\\' → old = []) :
    directoryOf (old ++ (if old = [] then [] else ['\\']) ++ rest) =
      enteredDir (directoryOf old) rest := by
  by_cases empty : old = []
  · -- The path starts at the root, whether it is absolute or not.
    simp [empty, enteredDir, directoryOf, follow]
  · have joined : old ++ ['\\'] ++ rest = old ++ '\\' :: rest := by simp
    rw [if_neg empty, joined, directoryOf, names_append_sep, follow_append, enteredDir,
      if_neg (mt relative empty)]
    rfl

/-- An absolute path is entered from the root, whatever the directory was. -/
theorem enteredDir_front (old rest : Name) :
    enteredDir (directoryOf (if rest.head? = some '\\' then [] else old)) rest =
      enteredDir (directoryOf old) rest := by
  rw [enteredDir, enteredDir]
  by_cases absolute : rest.head? = some '\\'
  · rw [if_pos absolute, if_pos absolute]
  · rw [if_neg absolute, if_neg absolute, if_neg absolute]

/-- Every call has an answer other than success for a directory that is not changed to. -/
theorem chdirError_ne (errno : ChdirError) : chdirError errno ≠ .noError := by
  cases errno <;> simp [chdirError]

/-- The text that a path is joined to: none in front of an absolute path. -/
theorem joinedTo_eq {disk : Nat} {dirs : Nat → Option Name} {old : Name}
    (stored : dirs (splitDrive disk pszName).1 = some old) :
    (if (splitDrive disk pszName).2.head? = some '\\' then some []
      else dirs (splitDrive disk pszName).1) =
      some (if (splitDrive disk pszName).2.head? = some '\\' then [] else old) := by
  rw [stored]
  split <;> rfl

/-- Storing a directory enters it, if there is memory. -/
theorem storeCurrentDir_does (pszName : Name) (room : host.dirRoom = true) {old : Name}
    (stored : s.drives.currentDir (splitDrive s.drives.currentDisk pszName).1 = some old) :
    ∃ t, storeCurrentDir host s pszName = some (t, .noError) ∧ Entered s t pszName := by
  obtain ⟨text, normalized, same⟩ := normalizeDir_directory
    ((if (splitDrive s.drives.currentDisk pszName).2.head? = some '\\' then [] else old) ++
      (if (if (splitDrive s.drives.currentDisk pszName).2.head? = some '\\' then [] else old) = []
        then [] else ['\\']) ++ (splitDrive s.drives.currentDisk pszName).2)
  have entered := directoryOf_joined
    (if (splitDrive s.drives.currentDisk pszName).2.head? = some '\\' then [] else old)
    (splitDrive s.drives.currentDisk pszName).2 (fun absolute => if_pos absolute)
  refine ⟨{ s with
    drives.currentDir := Function.update s.drives.currentDir
      (splitDrive s.drives.currentDisk pszName).1 (some text) }, ?_, old, text, stored, rfl, ?_⟩
  · rw [storeCurrentDir]
    simp only [joinedTo_eq stored, room, Bool.true_eq_false, if_false, normalized, Option.map_some]
  · rw [same, entered, enteredDir_front]

/-- Storing a directory needs memory. -/
theorem storeCurrentDir_full (full : host.dirRoom = false) {old : Name}
    (stored : s.drives.currentDir (splitDrive s.drives.currentDisk pszName).1 = some old) :
    storeCurrentDir host s pszName = some (s, .errorNotEnoughMemory) := by
  rw [storeCurrentDir]
  simp only [joinedTo_eq stored, full, if_true]

/-- A path of the host is found as far as its directories open. -/
theorem lxMakeUnixPath_room {files : FileSystem} {drives : Drives} {text : Name}
    (made : unixText drives pszName = some text) :
    lxMakeUnixPath files true drives pszName =
      (locatePathCaseInsensitive files text).map .ok := by
  simp [lxMakeUnixPath, made]

/-- The empty name enters the directory that is current already. -/
theorem entered_nothing (sound : s.drives.Sound) : Entered s s [] := by
  have current : s.drives.currentDir (s.drives.currentDisk - 1) ≠ none := by
    have lowest := sound.lowest
    have highest := sound.highest
    exact mt (sound.both _ (by omega)).mpr sound.current
  obtain ⟨old, stored⟩ := Option.ne_none_iff_exists'.mp current
  refine ⟨old, old, stored, ?_, rfl⟩
  have same := Function.update_eq_self (s.drives.currentDisk - 1) s.drives.currentDir
  rw [stored] at same
  simp only [splitDrive, same]

/--
A call that comes to its end fails and changes nothing, or succeeds and enters the directory; any
other call faults, or fails after the process changed its directory.
-/
theorem setCurrentDir_does (sound : s.drives.Sound) (host : DirHost) (pszName : Name) :
    (SetCompletes host s pszName ∧
      ((∃ ret, ret ≠ .noError ∧ DosSetCurrentDir host s pszName = some (s, ret)) ∨
        ∃ t, DosSetCurrentDir host s pszName = some (t, .noError) ∧ Entered s t pszName)) ∨
    (¬ SetCompletes host s pszName ∧
      (DosSetCurrentDir host s pszName = none ∨
        ∃ path, DosSetCurrentDir host s pszName =
          some ({ s with chdirs := path :: s.chdirs }, .errorNotEnoughMemory))) := by
  by_cases empty : pszName = []
  · -- The empty name is accepted at once.
    subst empty
    exact .inl ⟨fun tried => absurd rfl tried, .inr ⟨s, rfl, entered_nothing sound⟩⟩
  cases refused : refusedName pszName with
  | true =>
    exact .inl ⟨fun _ tried => by simp [refused] at tried,
      .inl ⟨.errorPathNotFound, by simp, by simp [DosSetCurrentDir, empty, refused]⟩⟩
  | false =>
    cases made : unixText s.drives pszName with
    | none =>
      refine .inl ⟨fun _ _ _ text tried => by simp [made] at tried,
        .inl ⟨.errorNotDosDisk, by simp, ?_⟩⟩
      simp [DosSetCurrentDir, empty, refused, lxMakeUnixPath, made]
    | some text =>
      cases room : host.unixRoom with
      | false =>
        refine .inl ⟨fun _ _ tried => by simp [room] at tried,
          .inl ⟨.errorNotEnoughMemory, by simp, ?_⟩⟩
        simp [DosSetCurrentDir, empty, refused, lxMakeUnixPath, made, room]
      | true =>
        obtain ⟨old, stored⟩ := currentDir_of_unixText sound made
        have opens := locatePath_isSome host.files text
        cases located : locatePathCaseInsensitive host.files text with
        | none =>
          -- The search lists a directory that does not open.
          refine .inr ⟨?_, .inl ?_⟩
          · intro completes
            have open_path := (completes empty refused room text made).1
            rw [← opens, located] at open_path
            cases open_path
          · simp [DosSetCurrentDir, empty, refused, room, lxMakeUnixPath_room made, located]
        | some path =>
          have open_path : PathOpens host.files text := opens.mp (by rw [located]; rfl)
          cases changed : host.chdir path with
          | some errno =>
            refine .inl ⟨?_, .inl ⟨chdirError errno, chdirError_ne errno, ?_⟩⟩
            · intro _ _ _ other tried
              cases made.symm.trans tried
              refine ⟨open_path, ?_⟩
              intro found again success
              cases located.symm.trans again
              simp [changed] at success
            · simp [DosSetCurrentDir, empty, refused, room, lxMakeUnixPath_room made, located,
                changed]
          | none =>
            cases full : host.dirRoom with
            | false =>
              -- The process has changed its directory, but the new one is not stored.
              refine .inr ⟨?_, .inr ⟨path, ?_⟩⟩
              · intro completes
                have needed := (completes empty refused room text made).2 path located changed
                simp [full] at needed
              · simp [DosSetCurrentDir, empty, refused, room, lxMakeUnixPath_room made, located,
                  changed]
                exact storeCurrentDir_full (s := { s with chdirs := path :: s.chdirs }) full stored
            | true =>
              obtain ⟨t, does, entered⟩ := storeCurrentDir_does pszName
                (s := { s with chdirs := path :: s.chdirs }) full stored
              refine .inl ⟨fun _ _ _ other tried => ?_, .inr ⟨t, ?_, entered⟩⟩
              · cases made.symm.trans tried
                exact ⟨open_path, fun _ _ _ => full⟩
              · simp [DosSetCurrentDir, empty, refused, room, lxMakeUnixPath_room made, located,
                  changed]
                exact does

end Setting

/-- The calls on current directories. -/
inductive DirCall where
  | set (host : DirHost) (pszName : Name)
  | query (disknum : Nat)

/-- The state of the calls, and the directory that was set last on each drive. -/
structure DirRun where
  state : DirState
  dirs : Nat → Option (List Name)

/-- One call; a query leaves everything as it is. -/
def dirStep (r : DirRun) : DirCall → Option (DirRun × Option ApiRet)
  | .set host pszName =>
    (DosSetCurrentDir host r.state pszName).map fun (state, ret) =>
      ({ state := state
         dirs := if ret = .noError then
             enterDirectory r.state.drives.currentDisk r.dirs pszName
           else r.dirs },
        some ret)
  | .query _ => some (r, none)

/-- The stored texts stand for the directories that were set. -/
structure DirRun.Good (r : DirRun) : Prop where
  sound : r.state.drives.Sound
  shown : ∀ i < driveLetters, (r.state.drives.currentDir i).map directoryOf = r.dirs i

/-- An answer that reports a directory, as far as the buffer has room for it. -/
def Reports (dir : Option (List Name)) (pcbBuf : Nat)
    (answer : Option (ApiRet × Nat × Option Name)) : Prop :=
  match dir with
  | none => answer = some (.errorNotDosDisk, pcbBuf, none)
  | some dir => ∃ text, directoryOf text = dir ∧
      answer = some (if pcbBuf ≤ text.length then (.errorBufferOverflow, text.length, none)
        else (.noError, text.length, some text))

/-- The index of the drive that a query asks for. -/
def driveAsked (r : DirRun) (disknum : Nat) : Nat :=
  if disknum = 0 then r.state.drives.currentDisk - 1 else disknum - 1

/--
What a query has to answer: the directory that was set last on the drive, and for the current drive
what the query with its number answers.
-/
def QueryRight (r : DirRun) (disknum : Nat) : Prop :=
  ∀ pcbBuf,
    (driveLetters < disknum →
      DosQueryCurrentDir r.state.drives disknum pcbBuf =
        some (.errorInvalidDrive, pcbBuf, none)) ∧
    (disknum ≤ driveLetters →
      Reports (r.dirs (driveAsked r disknum)) pcbBuf
        (DosQueryCurrentDir r.state.drives disknum pcbBuf)) ∧
    (disknum = 0 →
      DosQueryCurrentDir r.state.drives 0 pcbBuf =
        DosQueryCurrentDir r.state.drives r.state.drives.currentDisk pcbBuf)

/-- What a call has to do. -/
def DirCall.Right (r : DirRun) (call : DirCall) (t : DirRun) (out : Option ApiRet) : Prop :=
  match call with
  | .set _ pszName => ∃ ret, out = some ret ∧
      (ret ≠ .noError → t = r) ∧
      (ret = .noError →
        t.dirs = enterDirectory r.state.drives.currentDisk r.dirs pszName ∧
        t.state.drives.disks = r.state.drives.disks ∧
        t.state.drives.currentDisk = r.state.drives.currentDisk ∧
        t.state.drives.diskmap = r.state.drives.diskmap ∧
        ∀ i ≠ (splitDrive r.state.drives.currentDisk pszName).1,
          t.state.drives.currentDir i = r.state.drives.currentDir i)
  | .query disknum => QueryRight r disknum

/--
The condition for a call: changing a directory comes to its end, and the drive behind the current one
has the same directory when the current one is asked for.
-/
def DirCall.Cond (r : DirRun) (call : DirCall) : Prop :=
  match call with
  | .set host pszName => SetCompletes host r.state pszName
  | .query disknum => disknum = 0 →
      r.state.drives.currentDisk < driveLetters ∧
        r.state.drives.currentDir r.state.drives.currentDisk =
          r.state.drives.currentDir (r.state.drives.currentDisk - 1)

section Querying

variable {r : DirRun}

/-- A query of a drive by its number. -/
theorem query_numbered {drives : Drives} {disknum : Nat} (positive : 0 < disknum)
    (highest : disknum ≤ driveLetters) (pcbBuf : Nat) :
    DosQueryCurrentDir drives disknum pcbBuf =
      some (answerCurrentDir (drives.currentDir (disknum - 1)) pcbBuf) := by
  have nonzero : disknum ≠ 0 := by omega
  rw [DosQueryCurrentDir, if_neg (by omega)]
  simp only [if_pos nonzero, if_neg (show ¬ driveLetters ≤ disknum - 1 by omega)]

/-- A query of the current drive looks at the drive behind it. -/
theorem query_current (drives : Drives) (pcbBuf : Nat) :
    DosQueryCurrentDir drives 0 pcbBuf =
      if drives.currentDisk < driveLetters then
        some (answerCurrentDir (drives.currentDir drives.currentDisk) pcbBuf)
      else none := by
  rw [DosQueryCurrentDir, if_neg (Nat.not_lt_zero _)]
  by_cases inside : drives.currentDisk < driveLetters
  · simp [inside]
  · simp [inside, Nat.le_of_not_lt inside]

/-- An answer reports the directory that it is for. -/
theorem answer_reports (cdir : Option Name) (pcbBuf : Nat) :
    Reports (cdir.map directoryOf) pcbBuf (some (answerCurrentDir cdir pcbBuf)) := by
  cases cdir with
  | none => rfl
  | some text => exact ⟨text, rfl, rfl⟩

/-- A query of a drive by its number reports the directory that was set last. -/
theorem query_reports (good : r.Good) {disknum : Nat} (positive : 0 < disknum)
    (highest : disknum ≤ driveLetters) (pcbBuf : Nat) :
    Reports (r.dirs (disknum - 1)) pcbBuf (DosQueryCurrentDir r.state.drives disknum pcbBuf) := by
  rw [query_numbered positive highest, ← good.shown (disknum - 1) (by omega)]
  exact answer_reports _ _

/-- A buffer that is large enough shows the directory. -/
theorem answer_room {text : Name} {pcbBuf : Nat} (room : text.length < pcbBuf) :
    answerCurrentDir (some text) pcbBuf = (.noError, text.length, some text) := by
  rw [answerCurrentDir, if_neg (by omega)]

/-- Different directories have different answers, if the buffer is large enough. -/
theorem answer_injective {first second : Option Name}
    (same : ∀ pcbBuf, answerCurrentDir first pcbBuf = answerCurrentDir second pcbBuf) :
    first = second := by
  -- A buffer that has room for both shows both texts.
  have answers := same ((first.getD []).length + (second.getD []).length + 1)
  cases first with
  | none =>
    cases second with
    | none => rfl
    | some other =>
      rw [answer_room (by simp only [Option.getD_some]; omega)] at answers
      cases answers
  | some text =>
    rw [answer_room (by simp only [Option.getD_some]; omega)] at answers
    cases second with
    | none => cases answers
    | some other =>
      rw [answer_room (by simp only [Option.getD_some]; omega)] at answers
      exact congrArg (fun answer => answer.2.2) answers

/-- The queries of the current drive agree exactly if the drive behind it has the same directory. -/
theorem query_current_iff (sound : r.state.drives.Sound) :
    (∀ pcbBuf, DosQueryCurrentDir r.state.drives 0 pcbBuf =
      DosQueryCurrentDir r.state.drives r.state.drives.currentDisk pcbBuf) ↔
    r.state.drives.currentDisk < driveLetters ∧
      r.state.drives.currentDir r.state.drives.currentDisk =
        r.state.drives.currentDir (r.state.drives.currentDisk - 1) := by
  simp only [query_current, query_numbered sound.lowest sound.highest]
  by_cases inside : r.state.drives.currentDisk < driveLetters
  · simp only [inside, if_true, true_and, Option.some.injEq]
    exact ⟨answer_injective, fun same pcbBuf => by rw [same]⟩
  · -- There is no drive behind the last one.
    simp [inside]

/-- A query does what it has to do exactly under its condition. -/
theorem query_right_iff (good : r.Good) (disknum : Nat) :
    QueryRight r disknum ↔ (DirCall.query disknum).Cond r := by
  have lowest := good.sound.lowest
  have highest := good.sound.highest
  by_cases zero : disknum = 0
  · subst zero
    constructor
    · intro right _
      exact (query_current_iff good.sound).mp fun pcbBuf => (right pcbBuf).2.2 rfl
    · intro condition pcbBuf
      have agree := (query_current_iff good.sound).mpr (condition rfl)
      refine ⟨fun large => absurd large (Nat.not_lt_zero _), fun _ => ?_, fun _ => agree pcbBuf⟩
      rw [agree pcbBuf]
      exact query_reports good lowest highest pcbBuf
  · -- A numbered query has no condition.
    constructor
    · intro _ asked
      exact absurd asked zero
    · intro _ pcbBuf
      refine ⟨fun large => by rw [DosQueryCurrentDir, if_pos large], fun small => ?_,
        fun asked => absurd asked zero⟩
      have reports := query_reports good (Nat.pos_of_ne_zero zero) small pcbBuf
      simpa [driveAsked, zero] using reports

end Querying

section Running

variable {r : DirRun}

/-- Entering a directory keeps the drives as they have to be, and shows the directory. -/
theorem DirRun.Good.enter (good : r.Good) {t : DirState} {pszName : Name}
    (entered : Entered r.state t pszName) :
    ({ state := t
       dirs := enterDirectory r.state.drives.currentDisk r.dirs pszName } : DirRun).Good := by
  obtain ⟨old, text, stored, drives, directory⟩ := entered
  have inside := splitDrive_lt good.sound pszName
  have old_dir := good.shown _ inside
  rw [stored, Option.map_some] at old_dir
  constructor
  · rw [drives]
    refine ⟨good.sound.lowest, good.sound.highest, good.sound.current, ?_⟩
    intro i below
    by_cases changed : i = (splitDrive r.state.drives.currentDisk pszName).1
    · subst changed
      simp [good.sound.both _ below, stored]
    · simpa [Function.update_of_ne changed] using good.sound.both i below
  · intro i below
    rw [drives]
    by_cases changed : i = (splitDrive r.state.drives.currentDisk pszName).1
    · subst changed
      simp [enterDirectory, directory, ← old_dir]
    · simpa [enterDirectory, Function.update_of_ne changed] using good.shown i below

/-- A call does what it has to do exactly under its condition. -/
theorem dirStep_exact (call : DirCall) (good : r.Good) :
    (∃ t out, dirStep r call = some (t, out) ∧ call.Right r t out ∧ t.Good) ↔ call.Cond r := by
  cases call with
  | query disknum =>
    rw [← query_right_iff good]
    constructor
    · rintro ⟨t, out, stepped, right, _⟩
      exact right
    · exact fun right => ⟨r, none, rfl, right, good⟩
  | set host pszName =>
    rcases setCurrentDir_does good.sound host pszName with
      ⟨completes, ⟨ret, failed, does⟩ | ⟨t, does, entered⟩⟩ | ⟨misses, does | ⟨path, does⟩⟩
    · -- A failing call changes nothing.
      refine iff_of_true ⟨r, some ret, ?_, ⟨ret, rfl, fun _ => rfl, ?_⟩, good⟩ completes
      · simp [dirStep, does, failed]
      · exact fun success => absurd success failed
    · have kept := entered
      obtain ⟨old, text, stored, drives, _⟩ := kept
      refine iff_of_true ⟨_, some .noError, ?_, ⟨.noError, rfl, fun failed => absurd rfl failed,
        fun _ => ⟨rfl, ?_⟩⟩, good.enter entered⟩ completes
      · simp [dirStep, does]
      · rw [drives]
        exact ⟨rfl, rfl, rfl, fun i other => Function.update_of_ne other _ _⟩
    · -- Listing a directory that does not open is a fault.
      refine iff_of_false ?_ misses
      rintro ⟨t, out, stepped, _⟩
      simp [dirStep, does] at stepped
    · -- The process changed its directory although the call failed.
      refine iff_of_false ?_ misses
      rintro ⟨t, out, stepped, ⟨ret, answered, unchanged, _⟩, _⟩
      simp only [dirStep, does, Option.map_some, Option.some.injEq, Prod.mk.injEq] at stepped
      obtain ⟨rfl, rfl⟩ := stepped
      have same := unchanged (Option.some.inj answered ▸ by simp)
      have lengths := congrArg (fun run => run.state.chdirs.length) same
      simp at lengths

end Running

/--
A run of calls does what the directories that were set say exactly if every call that changes a
directory comes to its end, and the current drive is only asked for while the drive behind it has the
same directory.
-/
theorem current_dir_run_good_iff {r : DirRun} (good : r.Good) (calls : List DirCall) :
    StaysGood dirStep DirRun.Good (fun r call => call.Right r) r calls ↔
      Each dirStep (fun r call => call.Cond r) r calls := by
  -- Any call may be made at any time.
  have issued : Each dirStep (fun _ _ => True) r calls := each_of_forall (fun _ _ => trivial) calls
  exact staysGood_iff_each (fun _ call here _ => dirStep_exact call here) good issued

/-- A process with the drive C: alone, in a directory of it. -/
def onDriveC : DirRun where
  state :=
    { drives :=
        { disks := fun i => if i = 2 then some ['/'] else none
          currentDir := fun i => if i = 2 then some ['o', 's', '2'] else none
          currentDisk := 3
          diskmap := 4 }
      chdirs := [] }
  dirs := fun i => if i = 2 then some [['o', 's', '2']] else none

/-- The process is one that the calls can be made in. -/
theorem onDriveC_good : onDriveC.Good where
  sound :=
    { lowest := by decide
      highest := by decide
      current := by decide
      both := by
        intro i _
        by_cases c : i = 2 <;> simp [onDriveC, c] }
  shown := by
    intro i _
    by_cases c : i = 2
    · subst c
      rfl
    · simp [onDriveC, c]

/-- A host where every path leads to a directory. -/
def openHost : DirHost where
  files := { accessible := fun _ => true, listing := fun _ => none }
  chdir := fun _ => none

/-- Another directory is set, and found under the number of the drive. -/
theorem current_dir_set_and_queried :
    StaysGood dirStep DirRun.Good (fun r call => call.Right r) onDriveC
      [.set openHost ['a', 'p', 'p', 's'], .query 3] :=
  (current_dir_run_good_iff onDriveC_good _).mpr
    ⟨fun _ _ _ _ _ => ⟨.inl rfl, fun _ _ _ => rfl⟩,
      fun _ _ _ => ⟨fun zero => absurd zero (by decide), fun _ _ _ => trivial⟩⟩

/-- The directory of the current drive is found under its number, and under zero no drive is. -/
theorem current_dir_missed :
    ¬ StaysGood dirStep DirRun.Good (fun r call => call.Right r) onDriveC [.query 0] ∧
      DosQueryCurrentDir onDriveC.state.drives 3 260 = some (.noError, 3, some ['o', 's', '2']) ∧
      DosQueryCurrentDir onDriveC.state.drives 0 260 = some (.errorNotDosDisk, 260, none) := by
  refine ⟨?_, by decide, by decide⟩
  rintro ⟨_, t, out, _, right, _⟩
  have agree := (right 260).2.2 rfl
  revert agree
  decide

end TwoIne
