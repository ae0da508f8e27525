import TwoIne.DosCalls.Open

/-! What an open call promises, and the inputs on which it keeps the promise. -/

namespace TwoIne

open Posix

/--
What an open call promises once its arguments are accepted and it has a slot and a path.

A missing file is created, and an existing one accepted, exactly when the flags say so. On success
the slot was free and holds an open descriptor of the file, the action is what happened, and a
created or replaced file has the size asked for. On an error the table is as it was.
-/
structure OpenContract (a : OpenArgs) (path : String) (h : Host) (t : HandleTable) (out : Opened) :
    Prop where
  created : h.files path = none →
    ((out.host.files path).isSome ↔ a.ifNew = openActionCreateIfNew)
  accepted : (h.files path).isSome → (out.ret = .noError ↔
    a.ifExists = openActionOpenIfExists ∨ a.ifExists = openActionReplaceIfExists)
  opened : out.ret = .noError → ∃ hf info fd, out.pHf = some hf ∧
    (t.hFiles[hf]?).map HFileInfo.fd = some (-1) ∧ out.table.hFiles[hf]? = some info ∧
    info.fd = ((fd : Nat) : Int) ∧ out.host.descriptors fd = some path
  action : out.ret = .noError → out.pulAction = some (
    if h.files path = none then .fileCreated
    else if a.ifExists = openActionReplaceIfExists then .fileTruncated
    else .fileExisted)
  sized : out.ret = .noError → 0 < a.cbFile →
    h.files path = none ∨ a.ifExists = openActionReplaceIfExists →
      (out.host.files path).map File.size = some a.cbFile
  failed : out.ret ≠ .noError → out.table = t

/--
A call that is refused before it reaches the host fails and changes nothing; any other keeps the
promise.
-/
def OpensRight (a : OpenArgs) (unixpath : Except PathError String) (h : Host) (t : HandleTable)
    (out : Opened) : Prop :=
  match a.accepted, t.freeSlot, unixpath with
  | .ok _, some _, .ok path => OpenContract a path h t out
  | _, _, _ => out.ret ≠ .noError ∧ out.table = t ∧ out.host = h

/--
The calls that keep the promise.

An existing file must be opened, or replaced without asking for a size, or refused, and then either
for reading or with a slot that is already cleared. A missing file must not be created at all,
neither because the flags say so nor by failing on an existing file for writing, and the slot must
already be cleared.
-/
def OpenHarmless (a : OpenArgs) (access : Access) (info : HFileInfo) (exist : Bool) : Prop :=
  if exist then
    a.ifExists = openActionOpenIfExists ∨ a.ifExists = openActionReplaceIfExists ∧ a.cbFile ≤ 0 ∨
      a.ifExists = openActionFailIfExists ∧ (access = .rdonly ∨ info = .unused)
  else
    a.ifNew ≠ openActionCreateIfNew ∧ ¬ (a.ifExists = openActionFailIfExists ∧ access ≠ .rdonly) ∧
      info = .unused

/-- A free slot is in the table and has no descriptor. -/
theorem freeSlot_spec {t : HandleTable} {hf : Nat} (free : t.freeSlot = some hf) :
    ∃ info, t.hFiles[hf]? = some info ∧ info.fd = -1 := by
  -- The search stops at the first slot without a descriptor.
  unfold HandleTable.freeSlot at free
  obtain ⟨inside, unused, _⟩ := List.findIdx?_eq_some_iff_getElem.mp free
  have within : hf < t.hFiles.length := by
    rw [List.length_take] at inside
    omega
  exact ⟨t.hFiles[hf], List.getElem?_eq_getElem within, by simpa using unused⟩

/-- Writing a slot twice is writing it once. -/
theorem setSlot_twice (t : HandleTable) (i : Nat) (info info' : HFileInfo) :
    (t.setSlot i info).setSlot i info' = t.setSlot i info' := by
  simp [HandleTable.setSlot]

/-- Writing back what a slot holds changes nothing. -/
theorem setSlot_same {t : HandleTable} {i : Nat} {info : HFileInfo}
    (holds : t.hFiles[i]? = some info) :
    t.setSlot i info = t := by
  -- Writing what is already there leaves the list of slots.
  obtain ⟨inside, same⟩ := List.getElem?_eq_some_iff.mp holds
  simp [HandleTable.setSlot, ← same]

/-- A written slot reads back. -/
theorem setSlot_get {t : HandleTable} {i : Nat} {old : HFileInfo} (holds : t.hFiles[i]? = some old)
    (info : HFileInfo) : (t.setSlot i info).hFiles[i]? = some info := by
  -- The slot is inside of the table, so the write takes effect.
  obtain ⟨inside, _⟩ := List.getElem?_eq_some_iff.mp holds
  simp [HandleTable.setSlot, inside]

/-- Writing a slot changes nothing exactly when the slot held the same. -/
theorem setSlot_eq_iff {t : HandleTable} {i : Nat} {old : HFileInfo}
    (holds : t.hFiles[i]? = some old)
    (info : HFileInfo) : t.setSlot i info = t ↔ info = old := by
  constructor
  · -- Reading the slot back tells the two records apart.
    intro same
    have reads := setSlot_get holds info
    rw [same, holds] at reads
    simpa using reads.symm
  · rintro rfl
    exact setSlot_same holds

/-- Every failed host call has an error for the caller. -/
theorem openError_ne (e : Errno) : openError e ≠ .noError := by
  -- Every reason a host call fails for is translated to an error.
  cases e <;> decide

/-- A descriptor that is open on a file is recorded with the type of the file. -/
theorem initHFileInfo_open {fd : Nat} {path : String} {file : File} {h : Host}
    (opened : h.descriptors fd = some path) (found : h.files path = some file) :
    initHFileInfoFromUnixFd fd h = ⟨fd, handleType file.kind, dawAttributes, 0⟩ := by
  -- The descriptor is not the mark of a free slot, and its file is found.
  have valid : (fd : Int) ≠ -1 := by omega
  have stat : fstat fd h = some file := by simp [fstat, pathOf, opened, found]
  simp only [initHFileInfoFromUnixFd, if_pos valid, stat]

/-- Nothing is recorded of a descriptor that was closed. -/
theorem initHFileInfo_closed (fd : Nat) (h : Host) :
    initHFileInfoFromUnixFd fd (closeFd fd h) = .unused := by
  -- A closed descriptor leads nowhere, so its slot is cleared.
  have stat : fstat fd (closeFd fd h) = none := by simp [fstat, pathOf, closeFd]
  simp [initHFileInfoFromUnixFd, stat]

/-- The mark of a reserved slot is no descriptor, so nothing can be resized through it. -/
theorem ftruncate_reserved (length : Int) (h : Host) : ftruncate (-2) length h = .error .ebadf := by
  simp [ftruncate, pathOf]

/-- The host after a call opened a path that leads to the given file. -/
def openedHost (path : String) (file : File) (next : Nat) (h : Host) : Host :=
  ⟨Function.update h.files path (some file), Function.update h.descriptors next (some path)⟩

/-- A final exclusive creation fails on a file that exists. -/
theorem openTwice_final {a : OpenArgs} {access : Access} {path : String} {next : Nat} {h : Host}
    {file : File} (found : h.files path = some file) (final : a.isExclusive access = true) :
    openTwice a access path next h = (false, .error .eexist) := by
  -- The exclusive creation fails, and the caller asked for no second try.
  have fails : openPath path (a.flags access) a.mode next h = .error .eexist :=
    openPath_exists found (by simp [OpenArgs.flags, final]) (by simp [OpenArgs.flags, final])
  simp [openTwice, fails, final]

/-- Any other call opens a file that exists, at once or on the second try. -/
theorem openTwice_found {a : OpenArgs} {access : Access} {path : String} {next : Nat} {h : Host}
    {file : File} (found : h.files path = some file) (lenient : a.isExclusive access = false) :
    openTwice a access path next h =
      (true, .ok (openedHost path (file.opened (a.flags access)) next h, next)) := by
  by_cases creates : (a.flags access).creat = true
  · -- The exclusive creation fails, and the second call opens the file.
    have fails : openPath path (a.flags access) a.mode next h = .error .eexist :=
      openPath_exists found creates creates
    have retry : openPath path { a.flags access with excl := false } a.mode next h =
        .ok (openedHost path (file.opened (a.flags access)) next h, next) :=
      openPath_found found (by simp)
    simp only [openTwice, fails, lenient, retry]
    simp [creates]
  · -- Without a creation, the first call opens the file.
    have opens : openPath path (a.flags access) a.mode next h =
        .ok (openedHost path (file.opened (a.flags access)) next h, next) :=
      openPath_found found (by simp [creates])
    simp [openTwice, opens]

/-- A call that creates makes a missing file. -/
theorem openTwice_created {a : OpenArgs} {access : Access} {path : String} {next : Nat} {h : Host}
    (missing : h.files path = none) (creates : (a.flags access).creat = true) :
    openTwice a access path next h =
      (true, .ok (openedHost path { mode := a.mode } next h, next)) := by
  -- The path leads nowhere, so even the exclusive creation works.
  have opens : openPath path (a.flags access) a.mode next h =
      .ok (openedHost path { mode := a.mode } next h, next) := openPath_created missing creates
  simp [openTwice, opens]

/-- A call that does not create fails on a missing file. -/
theorem openTwice_missing {a : OpenArgs} {access : Access} {path : String} {next : Nat} {h : Host}
    (missing : h.files path = none) (opens : (a.flags access).creat = false) :
    openTwice a access path next h = (false, .error .enoent) := by
  -- Neither call may create the file, and there is none to open.
  have fails : openPath path (a.flags access) a.mode next h = .error .enoent :=
    openPath_missing missing (by simp [opens])
  simp [openTwice, fails]

section

variable {a : OpenArgs} {access : Access} {path : String} {next hf : Nat} {info : HFileInfo}
variable {h : Host} {t : HandleTable} {file : File}

/--
A call that fails keeps the promise when it should fail and leaves the file and the table alone.
-/
theorem refused_contract {out : Opened} (refused : out.ret ≠ .noError)
    (same : out.host.files path = h.files path) :
    OpenContract a path h t out ↔
      (h.files path = none → a.ifNew ≠ openActionCreateIfNew) ∧
      ((h.files path).isSome →
        ¬ (a.ifExists = openActionOpenIfExists ∨ a.ifExists = openActionReplaceIfExists)) ∧
      out.table = t := by
  constructor
  · intro contract
    refine ⟨fun missing => ?_, fun exist accepts => ?_, contract.failed refused⟩
    · -- The file is still missing, so it must not have been asked for.
      intro creates
      have found := (contract.created missing).mpr creates
      rw [same, missing] at found
      simp at found
    · -- An existing file that should be accepted was refused.
      exact refused ((contract.accepted exist).mpr accepts)
  · -- What is promised of success is not due.
    rintro ⟨missing, exist, unchanged⟩
    refine ⟨fun none => ?_, fun found => ?_, ?_, ?_, ?_, fun _ => unchanged⟩
    · simp [same, none, missing none]
    · simp only [refused, false_iff]
      exact exist found
    all_goals exact fun succeeds => absurd succeeds refused

/-- An exclusive creation that meets a file keeps the promise when the slot was cleared. -/
theorem exclusive_contract (held : t.hFiles[hf]? = some info) (found : h.files path = some file)
    (final : a.isExclusive access = true) :
    OpenContract a path h t
        (openReserved a access path next hf info h (t.setSlot hf { info with fd := -2 })) ↔
      info = .unused := by
  -- The call fails, and the slot is recorded anew from no descriptor at all.
  have ends : openReserved a access path next hf info h (t.setSlot hf { info with fd := -2 }) =
      { host := h, table := t.setSlot hf .unused, ret := .errorCannotMake } := by
    simp [openReserved, openTwice_final found final, setSlot_twice, openError,
      initHFileInfoFromUnixFd]
  have fails : a.ifExists = openActionFailIfExists := by
    simp only [OpenArgs.isExclusive, Bool.and_eq_true, decide_eq_true_eq] at final
    exact final.1
  rw [ends]
  apply (refused_contract (by simp) (by simp)).trans
  rw [setSlot_eq_iff held]
  simp [found, fails, openActionFailIfExists, openActionOpenIfExists, openActionReplaceIfExists,
    eq_comm]

/-- A file that must not exist for reading is closed again, and the slot is as before. -/
theorem mustNotExist_contract (held : t.hFiles[hf]? = some info) (free : info.fd = -1)
    (found : h.files path = some file) (unwanted : a.mustNotExist access = true) :
    OpenContract a path h t
      (openReserved a access path next hf info h (t.setSlot hf { info with fd := -2 })) := by
  -- Such a call asks to fail on an existing file, and opens it only for reading.
  have ⟨fails, readOnly⟩ : a.ifExists = openActionFailIfExists ∧ access = .rdonly := by
    simpa [OpenArgs.mustNotExist] using unwanted
  have lenient : a.isExclusive access = false := by simp [OpenArgs.isExclusive, readOnly]
  have unopened : file.opened (a.flags access) = file := by
    simp [File.opened, OpenArgs.flags, readOnly]
  have restored : ({ info with fd := -1 } : HFileInfo) = info := by rw [← free]
  -- The file is opened, found to exist, and closed again.
  have ends : openReserved a access path next hf info h (t.setSlot hf { info with fd := -2 }) =
      { host := closeFd next (openedHost path file next h), table := t,
        ret := .errorOpenFailed } := by
    simp [openReserved, openTwice_found found lenient, unopened, unwanted, setSlot_twice, restored,
      setSlot_same held]
  rw [ends]
  apply (refused_contract (by simp) (by simp [closeFd, openedHost, found])).mpr
  simp [found, fails, openActionFailIfExists, openActionOpenIfExists, openActionReplaceIfExists]

/-- A file that may exist is opened, and the promise kept if no size was to be set. -/
theorem existing_contract (held : t.hFiles[hf]? = some info) (free : info.fd = -1)
    (found : h.files path = some file)
    (accepts : a.ifExists = openActionOpenIfExists ∨
      a.ifExists = openActionReplaceIfExists ∧ a.cbFile ≤ 0) :
    OpenContract a path h t
      (openReserved a access path next hf info h (t.setSlot hf { info with fd := -2 })) := by
  -- The flags accept an existing file, and nothing has to be resized.
  have lenient : a.isExclusive access = false := by
    rcases accepts with accepts | ⟨accepts, _⟩ <;>
      simp [OpenArgs.isExclusive, accepts, openActionFailIfExists, openActionOpenIfExists,
        openActionReplaceIfExists]
  have wanted : a.mustNotExist access = false := by
    rcases accepts with accepts | ⟨accepts, _⟩ <;>
      simp [OpenArgs.mustNotExist, accepts, openActionFailIfExists, openActionOpenIfExists,
        openActionReplaceIfExists]
  have sizeless : ¬ (a.isReplacing = true ∧ 0 < a.cbFile) := by
    rintro ⟨replaces, size⟩
    simp only [OpenArgs.isReplacing, decide_eq_true_eq] at replaces
    rcases accepts with accepts | ⟨_, none⟩
    · simp [accepts, openActionOpenIfExists, openActionReplaceIfExists] at replaces
    · omega
  obtain ⟨after, leads⟩ : ∃ after, file.opened (a.flags access) = after := ⟨_, rfl⟩
  have recorded : initHFileInfoFromUnixFd next (openedHost path after next h) =
      ⟨next, handleType after.kind, dawAttributes, 0⟩ :=
    initHFileInfo_open (show _ = some path by simp [openedHost]) (by simp [openedHost])
  -- The slot records the new descriptor, and then the flags of the call.
  have ends : openReserved a access path next hf info h (t.setSlot hf { info with fd := -2 }) =
      { host := openedHost path after next h
        table := t.setSlot hf ⟨next, handleType after.kind, dawAttributes, a.fsOpenFlags⟩
        ret := .noError
        pulAction := some (if a.isReplacing then .fileTruncated else .fileExisted)
        pHf := some hf } := by
    simp [openReserved, openTwice_found found lenient, leads, wanted, sizeless, recorded,
      setSlot_twice]
  rw [ends]
  constructor
  · -- The file was there before, so nothing is said of a creation.
    simp [found]
  · -- The flags accept the file, and the call succeeds.
    rcases accepts with accepts | ⟨accepts, _⟩ <;> simp [accepts]
  · intro _
    exact ⟨hf, _, next, rfl, by simp [held, free], setSlot_get held _, rfl, by simp [openedHost]⟩
  · simp [found, OpenArgs.isReplacing]
  · -- No size was asked for, or the file is not replaced.
    intro _ size replaced
    rw [found] at replaced
    exact absurd ⟨by simpa [OpenArgs.isReplacing] using replaced, size⟩ sizeless
  · simp

/-- Replacing a file by one of a given size reports success on a handle that is not open. -/
theorem replaced_not_contract (held : t.hFiles[hf]? = some info) (found : h.files path = some file)
    (replaces : a.ifExists = openActionReplaceIfExists) (size : 0 < a.cbFile) :
    ¬ OpenContract a path h t
      (openReserved a access path next hf info h (t.setSlot hf { info with fd := -2 })) := by
  have lenient : a.isExclusive access = false := by
    simp [OpenArgs.isExclusive, replaces, openActionFailIfExists, openActionReplaceIfExists]
  have wanted : a.mustNotExist access = false := by
    simp [OpenArgs.mustNotExist, replaces, openActionFailIfExists, openActionReplaceIfExists]
  have replacing : a.isReplacing = true := by simp [OpenArgs.isReplacing, replaces]
  intro contract
  -- The size is set through the mark of a reserved slot, which fails, and the file is closed again.
  have ends : openReserved a access path next hf info h (t.setSlot hf { info with fd := -2 }) =
      { host := closeFd next (openedHost path (file.opened (a.flags access)) next h)
        table := t.setSlot hf { HFileInfo.unused with flags := a.fsOpenFlags }
        ret := .noError
        pulAction := some .fileTruncated
        pHf := some hf } := by
    simp [openReserved, openTwice_found found lenient, wanted, replacing, size, ftruncate_reserved,
      initHFileInfo_closed, setSlot_twice]
  rw [ends] at contract
  obtain ⟨slot, recorded, fd, answered, _, holds, open', _⟩ := contract.opened rfl
  -- The slot records no descriptor at all.
  obtain rfl : hf = slot := by simpa using answered
  obtain rfl : _ = recorded := by simpa [setSlot_get held] using holds
  simp [HFileInfo.unused] at open'

/-- A file that exists is accepted although the flags ask for none of the three actions. -/
theorem unknown_not_contract (found : h.files path = some file)
    (opens : a.ifExists ≠ openActionOpenIfExists)
    (replaces : a.ifExists ≠ openActionReplaceIfExists)
    (fails : a.ifExists ≠ openActionFailIfExists) :
    ¬ OpenContract a path h t
      (openReserved a access path next hf info h (t.setSlot hf { info with fd := -2 })) := by
  have lenient : a.isExclusive access = false := by simp [OpenArgs.isExclusive, fails]
  have wanted : a.mustNotExist access = false := by simp [OpenArgs.mustNotExist, fails]
  -- None of the tests for the three actions fires, so the call succeeds.
  have succeeds : (openReserved a access path next hf info h
      (t.setSlot hf { info with fd := -2 })).ret = .noError := by
    simp [openReserved, openTwice_found found lenient, wanted]
  intro contract
  have accepts := (contract.accepted (by simp [found])).mp succeeds
  simp [opens, replaces] at accepts

/-- A created file is reported as one that existed or was truncated. -/
theorem created_not_contract (missing : h.files path = none)
    (creates : (a.flags access).creat = true) (wanted : a.mustNotExist access = false) :
    ¬ OpenContract a path h t
      (openReserved a access path next hf info h (t.setSlot hf { info with fd := -2 })) := by
  intro contract
  -- The action only looks at the flags, not at whether the file was there.
  have reported : (openReserved a access path next hf info h
      (t.setSlot hf { info with fd := -2 })).ret = .noError ∧
      (openReserved a access path next hf info h
        (t.setSlot hf { info with fd := -2 })).pulAction =
          some (if a.isReplacing then .fileTruncated else .fileExisted) := by
    simp [openReserved, openTwice_created missing creates, wanted]
  have action := contract.action reported.1
  rw [reported.2] at action
  split at action <;> simp at action

/-- A missing file that is not created keeps the promise when the slot was cleared. -/
theorem missing_contract (held : t.hFiles[hf]? = some info) (missing : h.files path = none)
    (opens : (a.flags access).creat = false) :
    OpenContract a path h t
        (openReserved a access path next hf info h (t.setSlot hf { info with fd := -2 })) ↔
      info = .unused := by
  -- The call fails, and the slot is recorded anew from no descriptor at all.
  have ends : openReserved a access path next hf info h (t.setSlot hf { info with fd := -2 }) =
      { host := h, table := t.setSlot hf .unused, ret := .errorFileNotFound } := by
    simp [openReserved, openTwice_missing missing opens, setSlot_twice, openError,
      initHFileInfoFromUnixFd]
  have unasked : a.ifNew ≠ openActionCreateIfNew := by
    simp only [OpenArgs.flags, Bool.or_eq_false_iff, decide_eq_false_iff_not] at opens
    exact opens.1
  rw [ends]
  apply (refused_contract (by simp) (by simp)).trans
  rw [setSlot_eq_iff held]
  simp [missing, unasked, eq_comm]

/-- Accepted arguments never ask for the creation of a file that must not exist for reading. -/
theorem accepted_creates (passes : a.accepted = .ok access)
    (creates : (a.flags access).creat = true) :
    a.mustNotExist access = false := by
  -- A creation was asked for, which a read-only open may not, or the open is for writing.
  by_contra unwanted
  have ⟨_, readOnly⟩ : a.ifExists = openActionFailIfExists ∧ access = .rdonly := by
    simpa [OpenArgs.mustNotExist] using unwanted
  have asked : a.ifNew = openActionCreateIfNew := by
    simpa [OpenArgs.flags, OpenArgs.isExclusive, readOnly] using creates
  unfold OpenArgs.accepted at passes
  cases mode : a.access with
  | none => simp [mode] at passes
  | some given =>
    simp only [mode] at passes
    cases checked : a.refused given with
    | some code => simp [checked] at passes
    | none =>
      obtain rfl : given = access := by simpa [checked] using passes
      simp only [OpenArgs.refused, readOnly, asked, decide_true, true_and, if_true] at checked
      split at checked
      · simp at checked
      · split at checked <;> simp at checked

/--
With its arguments accepted, a slot reserved and a path at hand, an open call is right when
harmless.
-/
theorem openReserved_contract_iff (passes : a.accepted = .ok access)
    (held : t.hFiles[hf]? = some info) (free : info.fd = -1) :
    OpenContract a path h t
        (openReserved a access path next hf info h (t.setSlot hf { info with fd := -2 })) ↔
      OpenHarmless a access info (h.files path).isSome := by
  -- The cases follow the condition: is there a file, and which action was asked for.
  cases exist : h.files path with
  | none =>
    simp only [OpenHarmless, Option.isSome_none, Bool.false_eq_true, if_false]
    cases creates : (a.flags access).creat with
    | true =>
      -- The call creates the file, and says that it was there.
      apply iff_of_false (created_not_contract exist creates (accepted_creates passes creates))
      intro ⟨unasked, lenient, _⟩
      simp [OpenArgs.flags, OpenArgs.isExclusive, unasked] at creates
      exact lenient creates
    | false =>
      rw [missing_contract held exist creates]
      simp only [OpenArgs.flags, OpenArgs.isExclusive, Bool.or_eq_false_iff,
        decide_eq_false_iff_not] at creates
      have ⟨unasked, lenient⟩ : a.ifNew ≠ openActionCreateIfNew ∧
          ¬ (a.ifExists = openActionFailIfExists ∧ access ≠ .rdonly) := by simpa using creates
      exact ⟨fun cleared => ⟨unasked, lenient, cleared⟩, fun harmless => harmless.2.2⟩
  | some file =>
    simp only [OpenHarmless, Option.isSome_some, if_true]
    by_cases opens : a.ifExists = openActionOpenIfExists
    · exact iff_of_true (existing_contract held free exist (Or.inl opens)) (Or.inl opens)
    by_cases replaces : a.ifExists = openActionReplaceIfExists
    · by_cases size : 0 < a.cbFile
      · apply iff_of_false (replaced_not_contract held exist replaces size)
        simp [replaces, openActionFailIfExists, openActionOpenIfExists, openActionReplaceIfExists]
        omega
      · have empty : a.cbFile ≤ 0 := by omega
        exact iff_of_true (existing_contract held free exist (Or.inr ⟨replaces, empty⟩))
          (Or.inr (Or.inl ⟨replaces, empty⟩))
    by_cases fails : a.ifExists = openActionFailIfExists
    · by_cases readOnly : access = .rdonly
      · have unwanted : a.mustNotExist access = true := by
          simp [OpenArgs.mustNotExist, fails, readOnly]
        exact iff_of_true (mustNotExist_contract held free exist unwanted)
          (Or.inr (Or.inr ⟨fails, Or.inl readOnly⟩))
      · rw [exclusive_contract held exist (by simp [OpenArgs.isExclusive, fails, readOnly])]
        simp [readOnly, fails, openActionFailIfExists, openActionOpenIfExists,
          openActionReplaceIfExists]
    · apply iff_of_false (unknown_not_contract exist opens replaces fails)
      simp [opens, replaces, fails]

/-- Every name without a path has an error for the caller. -/
theorem pathError_code_ne (e : PathError) : e.code ≠ .noError := by
  cases e <;> decide

/-- Every refusal of the arguments has an error for the caller. -/
theorem accepted_error_ne {code : ApiRet} (refused : a.accepted = .error code) :
    code ≠ .noError := by
  -- Each check of the arguments has an error of its own.
  unfold OpenArgs.accepted OpenArgs.refused at refused
  grind

/--
The two ends of an open call on which its harm depends: it reaches the host with this slot and path.
-/
theorem doDosOpen_eq {unixpath : Except PathError String} (passes : a.accepted = .ok access)
    (slot : t.freeSlot = some hf) (held : t.hFiles[hf]? = some info) (leads : unixpath = .ok path) :
    doDosOpen a unixpath next h t =
      openReserved a access path next hf info h (t.setSlot hf { info with fd := -2 }) := by
  simp only [doDosOpen, passes, slot, held, leads]

end

/-- Opening a missing file for writing, with the flags that create it, and with one free handle. -/
def createMissing : Opened :=
  doDosOpen { fsOpenFlags := 0x11, fsOpenMode := 1 } (.ok "new") 3 ⟨fun _ => none, fun _ => none⟩
    ⟨[.unused], 1⟩

end TwoIne
