import TwoIne.DosCalls.CurrentDirBuffers
import TwoIne.Proofs.DosCalls.CurrentDir
import TwoIne.Proofs.LxLoader.UnixBuffers

/-!
A directory that is stored is the fold of the elements of a name over the directory in front, except
that a drive without a path leaves a separator behind it.
-/

namespace TwoIne

open Paths StringBuffers

/-! Editing in place -/

section Editing

variable {buf front element rest kept gone : Name}

/-- Going back ends in front of where it starts. -/
theorem prevElement_le (front : Name) (n : Nat) : prevElement front n ≤ n := by
  induction n with
  | zero => exact Nat.le_refl _
  | succ n ih =>
    rw [prevElement]
    split
    · exact Nat.le_refl _
    · exact Nat.le_succ_of_le ih

/-- Going back inside a front reads nothing else. -/
theorem scanBack_front (behind : Name) {n : Nat} (inside : n < front.length) :
    scanBack (front ++ behind) n = some (prevElement front n) := by
  induction n with
  | zero => rfl
  | succ n ih =>
    have read : (front ++ behind)[n + 1]? = some front[n + 1] := by
      rw [List.getElem?_append_left inside, List.getElem?_eq_getElem inside]
    rw [scanBack, read, prevElement, List.getElem?_eq_getElem inside]
    simp only [Option.bind_some, Option.some.injEq]
    split
    · rfl
    · exact ih (by omega)

/-- Moving what is behind a cut to a place in front of it. -/
theorem moveString_cut (cut : Cut nul buf (kept ++ gone) rest) :
    ∃ after, moveString buf kept.length ((kept ++ gone).length + 1) = some after ∧
      Holds nul after (kept ++ rest) := by
  obtain ⟨after, moved, held, _⟩ := cut.memmove
  refine ⟨after, ?_, held⟩
  rw [moveString, cut.strlen]
  exact moved

/-- A separator at the start of a string is left out. -/
theorem trimFront_holds {text : Name} (holds : Holds nul buf text) :
    ∃ after, trimFront buf = some after ∧ Holds nul after (trimFirst '\\' text) := by
  have whole : Holds nul buf ([] ++ text) := holds
  have length := whole.strlen
  rw [List.length_nil] at length
  cases text with
  | nil =>
    obtain ⟨_, rest, rfl⟩ := holds
    exact ⟨_, rfl, List.not_mem_nil, rest, rfl⟩
  | cons first text =>
    have head : buf.head? = some first := by
      obtain ⟨_, rest, rfl⟩ := holds
      rfl
    rw [trimFront, head, Option.bind_some, trimFirst, List.head?_cons]
    by_cases starts : first = '\\'
    · have here : Holds nul buf ([] ++ ([first] ++ text)) := holds
      obtain ⟨after, moved, held, _⟩ := here.memmove
      refine ⟨after, ?_, ?_⟩
      · rw [if_pos starts, length]
        exact moved
      · rw [if_pos (congrArg some starts)]
        exact held
    · refine ⟨buf, if_neg starts, ?_⟩
      rw [if_neg (fun same => starts (Option.some.inj same))]
      exact holds

/-- The last element in its buffer. -/
theorem dropLastElement_holds (holds : Holds nul buf (front ++ element))
    (dropped : dropLastDots front element = some kept) :
    ∃ after, dropLastElement buf front.length = some after ∧ Holds nul after kept := by
  rw [dropLastDots] at dropped
  rw [dropLastElement, holds.readFrom]
  simp only [Option.bind_eq_bind, Option.bind_some]
  by_cases stays : element = ['.']
  · rw [if_pos stays] at dropped ⊢
    cases dropped
    have place : (if front.length ≠ 0 then front.length - 1 else front.length) =
        front.length - 1 := by
      split <;> omega
    have inside : front.length - 1 < (front ++ element).length := by
      rw [stays, List.length_append, List.length_singleton]
      omega
    obtain ⟨after, stored, held, _⟩ := holds.truncate inside
    rw [List.take_append_of_le_length (by omega), ← List.dropLast_eq_take] at held
    rw [place]
    exact ⟨after, stored, held⟩
  rw [if_neg stays] at dropped ⊢
  by_cases leaves : element = ['.', '.']
  · rw [if_pos leaves] at dropped ⊢
    have some_element : 0 < element.length := by
      rw [leaves]
      exact Nat.zero_lt_succ _
    by_cases root : front = []
    · -- There is no parent: the whole string is left out.
      subst root
      cases dropped
      obtain ⟨after, stored, held, _⟩ := holds.truncate some_element
      exact ⟨after, stored, held⟩
    have present := mt List.length_eq_zero_iff.mp root
    rw [if_neg root] at dropped
    rw [if_neg present]
    by_cases short : front.length < 2
    · rw [if_pos short] at dropped
      cases dropped
    · rw [if_neg short] at dropped ⊢
      cases dropped
      have below := prevElement_le front (front.length - 2)
      have inside : prevElement front (front.length - 2) < (front ++ element).length := by
        rw [List.length_append]
        omega
      obtain ⟨after, stored, held, _⟩ := holds.truncate inside
      rw [List.take_append_of_le_length (by omega)] at held
      obtain ⟨_, junk, rfl⟩ := holds
      rw [List.append_assoc, scanBack_front _ (by omega)]
      rw [List.append_assoc] at stored
      exact ⟨after, stored, held⟩
  · rw [if_neg leaves] at dropped ⊢
    cases dropped
    exact ⟨buf, rfl, holds⟩

/--
The elements in their buffer: the loop comes to its end, and nothing outside of the buffer is read or
written.
-/
theorem dropElements_holds (elements : List Name) (present : elements ≠ [])
    (inside : ∀ name ∈ elements, '\\' ∉ name) {fuel : Nat} (enough : elements.length ≤ fuel)
    (holds : Holds nul buf (front ++ ['\\'].intercalate elements))
    (dropped : dropDots front elements = some kept) :
    ∃ next last after, dropElements fuel buf front.length = some (next, last) ∧
      dropLastElement next last = some after ∧ Holds nul after kept := by
  induction elements generalizing front buf fuel with
  | nil => exact absurd rfl present
  | cons element rest ih =>
    obtain ⟨fuel, rfl⟩ := Nat.exists_eq_add_of_lt (Nat.lt_of_lt_of_le (Nat.succ_pos _) enough)
    rw [Nat.zero_add] at enough ⊢
    have element_inside := inside element List.mem_cons_self
    cases rest with
    | nil =>
      -- No separator is left.
      rw [List.intercalate_singleton] at holds
      obtain ⟨after, last, held⟩ := dropLastElement_holds holds dropped
      refine ⟨buf, front.length, after, ?_, last, held⟩
      rw [dropElements, holds.strchr_none element_inside]
    | cons next rest =>
      have more : next :: rest ≠ [] := List.cons_ne_nil _ _
      have behind_inside : ∀ name ∈ next :: rest, '\\' ∉ name :=
        fun name member => inside name (List.mem_cons_of_mem _ member)
      have behind_enough : (next :: rest).length ≤ fuel := by
        rw [List.length_cons] at enough
        omega
      have split : ['\\'].intercalate (element :: next :: rest) =
          element ++ '\\' :: ['\\'].intercalate (next :: rest) := by
        rw [List.intercalate_cons_of_ne_nil more]
        simp
      rw [split] at holds
      have found := holds.strchr_some element_inside
      rw [← List.append_assoc] at holds
      obtain ⟨cut_buf, stored, cut, _⟩ := holds.cut
      have text := cut.holds.readFrom
      rw [dropDots] at dropped
      rw [dropElements, found]
      simp only [← List.length_append, Option.bind_eq_bind, Option.bind_some, stored, text]
      by_cases stays : element = ['.']
      · rw [if_pos stays] at dropped ⊢
        obtain ⟨moved_buf, moved, held⟩ := moveString_cut cut
        rw [moved]
        exact ih more behind_inside behind_enough held dropped
      rw [if_neg stays] at dropped ⊢
      by_cases leaves : element = ['.', '.']
      · rw [if_pos leaves] at dropped ⊢
        by_cases root : front = []
        · -- Only the element itself is left out.
          subst root
          rw [if_pos rfl] at dropped
          rw [if_pos List.length_nil]
          obtain ⟨moved_buf, moved, held⟩ := moveString_cut cut
          rw [List.length_nil] at moved
          rw [moved]
          exact ih more behind_inside behind_enough held dropped
        have nonempty := mt List.length_eq_zero_iff.mp root
        rw [if_neg root] at dropped
        rw [if_neg nonempty]
        by_cases short : front.length < 2
        · rw [if_pos short] at dropped
          cases dropped
        rw [if_neg short] at dropped ⊢
        have back : scanBack cut_buf (front.length - 2) =
            some (prevElement front (front.length - 2)) := by
          obtain ⟨_, _, junk, rfl⟩ := cut
          rw [List.append_assoc]
          exact scanBack_front _ (by omega)
        have below := prevElement_le front (front.length - 2)
        rw [back, Option.bind_some]
        dsimp only at dropped ⊢
        generalize prevElement front (front.length - 2) = prev at dropped below ⊢
        -- The parent goes as well: what is behind the cut moves to where it started.
        have start : (if prev ≠ 0 then prev + 1 else prev) ≤ front.length := by
          split <;> omega
        generalize (if prev ≠ 0 then prev + 1 else prev) = start_of at dropped start ⊢
        have pieces : front ++ element =
            front.take start_of ++ (front.drop start_of ++ element) := by
          rw [← List.append_assoc, List.take_append_drop]
        have length : (front.take start_of).length = start_of := List.length_take_of_le start
        rw [pieces] at cut ⊢
        obtain ⟨moved_buf, moved, held⟩ := moveString_cut cut
        rw [length] at moved
        rw [moved]
        have went := ih more behind_inside behind_enough held dropped
        rwa [length] at went
      · -- The separator is written back.
        rw [if_neg leaves] at dropped ⊢
        have clean : '\\' ≠ nul := by decide
        obtain ⟨restored, written, held, _⟩ := cut.restore clean
        have ahead : Holds nul restored
            ((front ++ element ++ ['\\']) ++ ['\\'].intercalate (next :: rest)) := by
          simpa using held
        have went := ih more behind_inside behind_enough ahead dropped
        have place : (front ++ element ++ ['\\']).length = (front ++ element).length + 1 :=
          List.length_append
        rw [place] at went
        rw [written]
        exact went

/-- A directory that is put together in its buffer is the one that is put together without. -/
theorem normalizeBuffer_eq (garbage : Nat → Char) {oldpath pszName : Name}
    (old_clean : nul ∉ oldpath) (clean : nul ∉ pszName) :
    normalizeBuffer garbage oldpath pszName =
      normalizeDir (oldpath ++ (if oldpath = [] then [] else ['\\']) ++ pszName) := by
  let text := oldpath ++ (if oldpath = [] then [] else ['\\']) ++ pszName
  let buflen := pszName.length + oldpath.length + 2
  have other : '\\' ≠ nul := by decide
  have inside : nul ∉ text := by
    simp only [text, List.mem_append, not_or]
    refine ⟨⟨old_clean, ?_⟩, clean⟩
    split
    · exact List.not_mem_nil
    · exact fun member => other (List.mem_singleton.mp member).symm
  have room : text.length < buflen := by
    have between : (if oldpath = [] then ([] : Name) else ['\\']).length ≤ 1 := by
      split <;> simp
    simp only [text, buflen, List.length_append]
    omega
  have size : (freshBuffer garbage buflen).length = buflen := by simp [freshBuffer]
  obtain ⟨first, written, held, _⟩ := snprintf_holds inside room size
  have whole : Holds nul first ([] ++ text) := held
  obtain ⟨second, squeezed, single, _⟩ := whole.squeezeFrom '\\' room
  obtain ⟨third, trimmed, start⟩ := trimFront_holds single
  -- What is left has at most one more element than letters.
  let path := trimFirst '\\' (squeeze '\\' text)
  obtain ⟨pieces_inside, count⟩ := splitOn_pieces '\\' path
  have enough : (path.splitOn '\\').length ≤ buflen := by
    have letters := List.count_le_length (a := '\\') (l := path)
    have shorter : path.length ≤ text.length := (trimFirst_squeeze_sublist '\\' text).length_le
    omega
  have joined : ['\\'].intercalate (path.splitOn '\\') = path := List.intercalate_splitOn '\\'
  have elements : Holds nul third ([] ++ ['\\'].intercalate (path.splitOn '\\')) := by
    rw [joined]
    exact start
  obtain ⟨out, normalized⟩ : ∃ out, normalizeDir text = some out := ⟨_, normalizeDir_text text⟩
  obtain ⟨next, last, after, dropped, ended, final⟩ := dropElements_holds (path.splitOn '\\')
    (List.splitOn_ne_nil _ _) pieces_inside enough elements normalized
  rw [List.length_nil] at squeezed dropped
  rw [normalized, normalizeBuffer]
  simp only [Option.bind_eq_bind]
  rw [written, Option.bind_some, squeezed, Option.bind_some, trimmed, Option.bind_some, dropped,
    Option.bind_some, ended, Option.bind_some]
  exact final.whole

end Editing

/-! Storing -/

/-- The host changes to the directory that an accepted name leads to, and there is memory for it. -/
def ChangesTo (host : DirHost) (s : DirState) (pszName : Name) : Prop :=
  refusedName pszName = false ∧ (pszName ≠ [] → host.dirRoom = true ∧
    ∃ path, lxMakeUnixPath host.files host.unixRoom s.drives pszName = some (.ok path) ∧
      host.chdir path = none)

/-- A text is the one of a directory: no element is empty or a dot, and no separator ends it. -/
structure FoldedText (text : Name) (dir : List Name) : Prop where
  whole : text = ['\\'].intercalate dir
  elements : text ≠ [] → ∀ name ∈ text.splitOn '\\', name ≠ [] ∧ name ≠ ['.'] ∧ name ≠ ['.', '.']
  leading : text.head? ≠ some '\\'
  trailing : text.getLast? ≠ some '\\'

/--
What a call has to store for the drive of a name: the fold of the elements of the name over the
directory that was stored, or over the root for an absolute name.
-/
def StoresFold (s t : DirState) (pszName : Name) : Prop :=
  ∀ old, s.drives.currentDir (splitDrive s.drives.currentDisk pszName).1 = some old →
    ∃ text, t.drives = { s.drives with
        currentDir := Function.update s.drives.currentDir
          (splitDrive s.drives.currentDisk pszName).1 (some text) } ∧
      FoldedText text
        (enteredDir (directoryOf old) (splitDrive s.drives.currentDisk pszName).2)

/--
The names that are folded: for the empty one the directory is folded already, and a drive has a path
behind it unless its directory is the root.
-/
def FoldsName (s : DirState) (pszName : Name) : Prop :=
  ∀ old, s.drives.currentDir (splitDrive s.drives.currentDisk pszName).1 = some old →
    if pszName = [] then old = ['\\'].intercalate (directoryOf old)
    else (splitDrive s.drives.currentDisk pszName).2 ≠ [] ∨ directoryOf old = []

section Storing

variable {host : DirHost} {s : DirState} {pszName : Name}

/-- The names of a directory that a path leads to. -/
theorem enteredDir_proper (old rest : Name) :
    ∀ name ∈ enteredDir (directoryOf old) rest,
      (name ≠ [] ∧ '\\' ∉ name) ∧ name ≠ ['.'] ∧ name ≠ ['.', '.'] := by
  intro name member
  -- The directory in front has proper names without dots, and so has the one that is left.
  have plain : ∀ name ∈ if rest.head? = some '\\' then [] else directoryOf old,
      name ≠ ['.'] ∧ name ≠ ['.', '.'] := by
    split
    · intro name member
      cases member
    · exact follow_plain (by simp) _
  refine ⟨?_, follow_plain plain _ name member⟩
  rcases mem_follow member with front | behind
  · split at front
    · cases front
    · exact directoryOf_proper old name front
  · exact mem_names behind

/-- The text of a directory is one that is to be stored. -/
theorem foldedText {dir : List Name}
    (proper : ∀ name ∈ dir, (name ≠ [] ∧ '\\' ∉ name) ∧ name ≠ ['.'] ∧ name ≠ ['.', '.']) :
    FoldedText (['\\'].intercalate dir) dir where
  whole := rfl
  elements nonempty name member := by
    have present : dir ≠ [] := by
      rintro rfl
      exact nonempty rfl
    rw [List.splitOn_intercalate '\\' (fun name member => (proper name member).1.2) present]
      at member
    exact ⟨(proper name member).1.1, (proper name member).2⟩
  leading := by
    have trimmed := trimFirst_intercalate fun name member => (proper name member).1
    intro starts
    rw [trimFirst, if_pos starts] at trimmed
    have length := congrArg List.length trimmed
    obtain ⟨rest, split⟩ := List.head?_eq_some_iff.mp starts
    rw [split] at length
    simp at length
  trailing := by
    by_cases empty : dir = []
    · simp [empty]
    · obtain ⟨present, inside⟩ := (proper _ (List.getLast_mem empty)).1
      obtain ⟨front, joined⟩ := intercalate_concat '\\' dir.dropLast (dir.getLast empty)
      rw [← List.dropLast_append_getLast empty, joined, List.getLast?_append_of_ne_nil _ present]
      exact fun ends => inside (List.mem_of_getLast? ends)

/-- A call with its buffers does what it does without. -/
theorem setCurrentDirBuffer_eq (pathGarbage dirGarbage : Nat → Char) (host : DirHost)
    (stored : s.drives.Stored) (clean : nul ∉ pszName) :
    DosSetCurrentDirBuffer pathGarbage dirGarbage host s pszName =
      DosSetCurrentDir host s pszName := by
  have behind := splitDrive_clean clean s.drives.currentDisk
  have store_eq (chdirs : List Name) :
      storeCurrentDirBuffer dirGarbage host { s with chdirs } pszName =
        storeCurrentDir host { s with chdirs } pszName := by
    unfold storeCurrentDirBuffer storeCurrentDir
    dsimp only
    generalize splitDrive s.drives.currentDisk pszName = split at behind
    obtain ⟨driveidx, rest⟩ := split
    dsimp only at behind ⊢
    cases from_old : if rest.head? = some '\\' then some [] else s.drives.currentDir driveidx with
    | none => rfl
    | some oldpath =>
      have old_clean : nul ∉ oldpath := by
        split at from_old
        · cases from_old
          exact List.not_mem_nil
        · exact stored.currentDir _ _ from_old
      dsimp only
      rw [normalizeBuffer_eq dirGarbage old_clean behind]
  unfold DosSetCurrentDirBuffer DosSetCurrentDir
  rw [lxMakeUnixPathBuffer_eq pathGarbage host.files host.unixRoom stored clean]
  rcases lxMakeUnixPath host.files host.unixRoom s.drives pszName with _ | _ | path
  · rfl
  · rfl
  · dsimp only
    cases host.chdir path with
    | some errno => rfl
    | none =>
      dsimp only
      rw [store_eq]

/-- A name that is not refused leaves no separator at its end, but the root alone. -/
theorem rest_ends (refused : refusedName pszName = false) (disk : Nat)
    (ends : (splitDrive disk pszName).2.getLast? = some '\\') :
    (splitDrive disk pszName).2 = ['\\'] := by
  have alone : pszName.getLast? = some '\\' → pszName = ['\\'] := by
    intro last
    by_contra other
    simp [refusedName, last, other] at refused
  unfold splitDrive at ends ⊢
  split at ends
  · next letter rest =>
    split at ends
    · next drive found =>
      -- The letter of the drive stands in front of what ends the name.
      have last : (letter :: ':' :: rest).getLast? = some '\\' := by
        simp only [List.getLast?_cons, ends, Option.getD_some]
      cases alone last
    · next missing =>
      exact alone ends
  · next plain =>
    have name := alone ends
    subst name
    rfl

/-- The text that a path is joined to ends with a separator, or is none, for a drive or the root. -/
theorem joined_ends (refused : refusedName pszName = false) (disk : Nat) (old : Name) :
    let rest := (splitDrive disk pszName).2
    let front := if rest.head? = some '\\' then [] else old
    let text := front ++ (if front = [] then [] else ['\\']) ++ rest
    (text = [] ∨ text.getLast? = some '\\') ↔ rest = [] ∨ rest = ['\\'] := by
  have alone := rest_ends refused disk
  generalize (splitDrive disk pszName).2 = rest at alone
  dsimp only
  by_cases empty : rest = []
  · subst empty
    by_cases root : old = []
    · simp [root]
    · simp [root]
  · rw [List.getLast?_append_of_ne_nil _ empty]
    simp only [List.append_eq_nil_iff, empty, and_false, false_or]
    constructor
    · exact alone
    · rintro rfl
      rfl

/-- The text that is stored for a directory and what its name has behind the drive. -/
def storedText (rest : Name) (dir : List Name) : Name :=
  if rest = [] ∨ rest = ['\\'] then closed '\\' dir else ['\\'].intercalate dir

/-- Storing a directory, if there is memory for it. -/
theorem storeCurrentDir_text (refused : refusedName pszName = false) (room : host.dirRoom = true)
    {old : Name}
    (stored : s.drives.currentDir (splitDrive s.drives.currentDisk pszName).1 = some old) :
    let rest := (splitDrive s.drives.currentDisk pszName).2
    storeCurrentDir host s pszName =
      some ({ s with
        drives.currentDir := Function.update s.drives.currentDir
          (splitDrive s.drives.currentDisk pszName).1
          (some (storedText rest (enteredDir (directoryOf old) rest))) },
        .noError) := by
  have ends := joined_ends refused s.drives.currentDisk old
  have entered := directoryOf_joined
    (if (splitDrive s.drives.currentDisk pszName).2.head? = some '\\' then [] else old)
    (splitDrive s.drives.currentDisk pszName).2 (fun absolute => if_pos absolute)
  dsimp only at ends ⊢
  rw [storeCurrentDir]
  simp only [joinedTo_eq stored, room, Bool.true_eq_false, if_false, normalizeDir_text, ends,
    entered, enteredDir_front, Option.map_some, storedText]

/-- A text with a separator behind the last name is the one of a directory only for the root. -/
theorem foldedText_closed_iff {dir : List Name} :
    FoldedText (closed '\\' dir) dir ↔ dir = [] := by
  constructor
  · intro folded
    by_contra present
    apply folded.trailing
    rw [closed_eq_intercalate present, List.getLast?_concat]
  · intro root
    subst root
    exact foldedText (List.forall_mem_nil _)

/-- What a call does for a name that the host changes to. -/
theorem setCurrentDir_stores (changes : ChangesTo host s pszName) (present : pszName ≠ [])
    {old : Name}
    (stored : s.drives.currentDir (splitDrive s.drives.currentDisk pszName).1 = some old) :
    let rest := (splitDrive s.drives.currentDisk pszName).2
    ∃ chdirs, DosSetCurrentDir host s pszName =
      some ({
        drives := { s.drives with
          currentDir := Function.update s.drives.currentDir
            (splitDrive s.drives.currentDisk pszName).1
            (some (storedText rest (enteredDir (directoryOf old) rest))) }
        chdirs },
        .noError) := by
  obtain ⟨refused, there⟩ := changes
  obtain ⟨room, path, located, changed⟩ := there present
  have does := storeCurrentDir_text (s := { s with chdirs := path :: s.chdirs }) refused room stored
  refine ⟨path :: s.chdirs, ?_⟩
  rw [DosSetCurrentDir, if_neg present, if_neg (by simp [refused]), located]
  simp only [changed]
  exact does

/-- The drive of a name that the host changes to has a directory. -/
theorem changesTo_stored (sound : s.drives.Sound) (changes : ChangesTo host s pszName) :
    ∃ old, s.drives.currentDir (splitDrive s.drives.currentDisk pszName).1 = some old := by
  by_cases empty : pszName = []
  · obtain ⟨old, _, there, _⟩ := entered_nothing sound
    rw [empty]
    exact ⟨old, there⟩
  · obtain ⟨_, _, located, _⟩ := changes.2 empty
    cases made : unixText s.drives pszName with
    | none => simp [lxMakeUnixPath, made] at located
    | some text => exact currentDir_of_unixText sound made

/-- The text that is stored for a drive is the only one that is stored for it. -/
theorem stored_text_iff {drives after : Drives} {driveidx : Nat} {text : Name} (dir : List Name)
    (same : after = { drives with
      currentDir := Function.update drives.currentDir driveidx (some text) }) :
    (∃ other, after = { drives with
        currentDir := Function.update drives.currentDir driveidx (some other) } ∧
      FoldedText other dir) ↔ FoldedText text dir := by
  constructor
  · intro folded
    obtain ⟨other, again, here⟩ := folded
    have read := congrArg (fun drives => drives.currentDir driveidx) (same.symm.trans again)
    simp only [Function.update_self, Option.some.injEq] at read
    rw [read]
    exact here
  · exact fun here => ⟨text, same, here⟩

/-- Whether the text that is stored is the one of its directory. -/
theorem storedText_folded_iff (old rest : Name) :
    FoldedText (storedText rest (enteredDir (directoryOf old) rest))
        (enteredDir (directoryOf old) rest) ↔
      rest ≠ [] ∨ directoryOf old = [] := by
  by_cases drive : rest = []
  · -- Nothing is behind the drive: the separator that was written for it stays.
    rw [drive, storedText, if_pos (.inl rfl), foldedText_closed_iff]
    have stays : enteredDir (directoryOf old) [] = directoryOf old := by
      simp [enteredDir, follow]
    rw [stays]
    simp
  · refine iff_of_true ?_ (.inl drive)
    rw [storedText]
    split
    · next alone =>
      have root : enteredDir (directoryOf old) rest = [] := by
        rw [alone.resolve_left drive]
        rfl
      rw [root]
      exact foldedText_closed_iff.mpr rfl
    · exact foldedText (enteredDir_proper old rest)

/--
A call that changes a directory comes to its end inside its buffers, and what it stores is the fold
of the elements of its name, exactly for a name that is folded.
-/
theorem current_dir_folded_iff (sound : s.drives.Sound) (stored : s.drives.Stored)
    (clean : nul ∉ pszName) (changes : ChangesTo host s pszName)
    (pathGarbage dirGarbage : Nat → Char) :
    ∃ t, DosSetCurrentDirBuffer pathGarbage dirGarbage host s pszName = some (t, .noError) ∧
      (StoresFold s t pszName ↔ FoldsName s pszName) := by
  obtain ⟨old, there⟩ := changesTo_stored sound changes
  rw [setCurrentDirBuffer_eq pathGarbage dirGarbage host stored clean]
  have only (t : DirState) (text : Name)
      (same : t.drives = { s.drives with
        currentDir := Function.update s.drives.currentDir
          (splitDrive s.drives.currentDisk pszName).1 (some text) })
      (exact_iff : FoldedText text
          (enteredDir (directoryOf old) (splitDrive s.drives.currentDisk pszName).2) ↔
        if pszName = [] then old = ['\\'].intercalate (directoryOf old)
        else (splitDrive s.drives.currentDisk pszName).2 ≠ [] ∨ directoryOf old = []) :
      StoresFold s t pszName ↔ FoldsName s pszName := by
    -- Only one directory is stored for the drive.
    apply forall₂_congr
    intro other found
    cases there.symm.trans found
    exact (stored_text_iff _ same).trans exact_iff
  by_cases empty : pszName = []
  · -- The empty name changes nothing, and what was stored is still there.
    subst empty
    refine ⟨s, by rw [DosSetCurrentDir, if_pos rfl], only s old ?_ ?_⟩
    · rw [← there, Function.update_eq_self]
    · have stays : enteredDir (directoryOf old) (splitDrive s.drives.currentDisk []).2 =
          directoryOf old := by
        simp [splitDrive, enteredDir, follow]
      have proper := enteredDir_proper old (splitDrive s.drives.currentDisk []).2
      rw [stays] at proper ⊢
      rw [if_pos rfl]
      constructor
      · exact fun folded => folded.whole
      · intro whole
        have folded := foldedText proper
        rwa [← whole] at folded
  · obtain ⟨chdirs, does⟩ := setCurrentDir_stores changes empty there
    refine ⟨_, does, only _ _ rfl ?_⟩
    rw [if_neg empty]
    exact storedText_folded_iff old _

end Storing

/-- What is stored for the process on the drive C: is strings. -/
theorem onDriveC_stored : onDriveC.state.drives.Stored where
  lowest := by decide
  highest := by decide
  disks i mountpoint mounted := by
    unfold onDriveC at mounted
    dsimp only at mounted
    split at mounted <;> cases mounted
    decide
  currentDir i dir there := by
    unfold onDriveC at there
    dsimp only at there
    split at there <;> cases there
    decide

/-- A name with elements that are left out is folded. -/
theorem parent_name_folded :
    ∃ t, DosSetCurrentDirBuffer (fun _ => 'x') (fun _ => 'x') openHost onDriveC.state
        "apps\\..\\.\\bin".toList = some (t, .noError) ∧
      (StoresFold onDriveC.state t "apps\\..\\.\\bin".toList ↔
        FoldsName onDriveC.state "apps\\..\\.\\bin".toList) :=
  current_dir_folded_iff onDriveC_good.sound onDriveC_stored (by decide)
    ⟨by decide, fun _ => ⟨rfl, _, rfl, rfl⟩⟩ _ _

/-- A drive alone is accepted, and leaves a separator behind the directory that was there. -/
theorem drive_alone_ends :
    ∃ t, DosSetCurrentDirBuffer (fun _ => 'x') (fun _ => 'x') openHost onDriveC.state
        "C:".toList = some (t, .noError) ∧
      t.drives.currentDir 2 = some "os2\\".toList ∧
      ¬ StoresFold onDriveC.state t "C:".toList := by
  refine ⟨_, rfl, rfl, ?_⟩
  intro stores
  obtain ⟨text, same, folded⟩ := stores _ rfl
  have read := congrArg (fun drives => drives.currentDir 2) same
  have ends : text = "os2\\".toList := (Option.some.inj read).symm
  exact folded.trailing (by rw [ends]; decide)

end TwoIne
