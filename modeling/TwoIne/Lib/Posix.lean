import Mathlib.Data.List.Basic
import Mathlib.Logic.Function.Basic

/-!
Files of a host by path, the descriptors that are open on them, and the calls that open and resize.
-/

namespace Posix

/-- What kind of thing a path leads to. -/
inductive FileKind where
  | regular
  | device
  | other
  deriving DecidableEq, Repr

/-- A file: its kind, its size and its permission bits. -/
structure File where
  kind : FileKind := .regular
  size : Int := 0
  mode : Nat := 0
  deriving DecidableEq, Repr

/-- The reasons a call fails for. -/
inductive Errno where
  | eacces
  | ebadf
  | edquot
  | eexist
  | einval
  | eisdir
  | emfile
  | enfile
  | enametoolong
  | enospc
  | enomem
  | enoent
  | enotdir
  | eperm
  | erofs
  | etxtbsy
  deriving DecidableEq, Repr

/-- The files of a host, and the path behind each open descriptor. -/
structure Host where
  files : String → Option File
  descriptors : Nat → Option String

/-- How a file is accessed. -/
inductive Access where
  | rdonly
  | wronly
  | rdwr
  deriving DecidableEq, Repr

/-- The flags of an open call. -/
structure OpenFlags where
  access : Access
  creat : Bool := false
  excl : Bool := false
  trunc : Bool := false
  sync : Bool := false
  cloexec : Bool := false
  deriving DecidableEq, Repr

/--
The file after a truncating open: a regular file that is opened for writing loses its contents.
-/
def File.opened (file : File) (flags : OpenFlags) : File :=
  if flags.trunc ∧ flags.access ≠ .rdonly ∧ file.kind = .regular then { file with size := 0 }
  else file

/--
Opening a path; `next` is the descriptor the host will use.

An exclusive creation fails on a file that exists, and only a creation makes a file that is missing.
-/
def openPath (path : String) (flags : OpenFlags) (mode next : Nat) (h : Host) :
    Except Errno (Host × Nat) :=
  let descriptors := Function.update h.descriptors next (some path)
  match h.files path with
  | some file =>
    if flags.creat ∧ flags.excl then .error .eexist
    else .ok (⟨Function.update h.files path (some (file.opened flags)), descriptors⟩, next)
  | none =>
    if flags.creat then .ok (⟨Function.update h.files path (some { mode := mode }),
      descriptors⟩, next)
    else .error .enoent

/-- The path behind a descriptor, which may be any integer. -/
def pathOf (fd : Int) (h : Host) : Option String := if 0 ≤ fd then h.descriptors fd.toNat else none

/-- The file behind a descriptor. -/
def fstat (fd : Int) (h : Host) : Option File := (pathOf fd h).bind h.files

/-- Setting the size of the file behind a descriptor. -/
def ftruncate (fd length : Int) (h : Host) : Except Errno Host :=
  match pathOf fd h with
  | none => .error .ebadf
  | some path =>
    match h.files path with
    | none => .error .ebadf
    | some file =>
      if length < 0 ∨ file.kind ≠ .regular then .error .einval
      else .ok { h with files := Function.update h.files path (some { file with size := length }) }

/--
Duplicating a descriptor: the lowest one that is not open, of those a process may have, leads to the
same path.
-/
def dup (fd : Int) (limit : Nat) (h : Host) : Except Errno (Host × Nat) :=
  match pathOf fd h with
  | none => .error .ebadf
  | some path =>
    match (List.range limit).find? fun next => (h.descriptors next).isNone with
    | none => .error .emfile
    | some next =>
      .ok ({ h with descriptors := Function.update h.descriptors next (some path) }, next)

/-- Closing a descriptor. -/
def closeFd (fd : Nat) (h : Host) : Host :=
  { h with descriptors := Function.update h.descriptors fd none }

/-- An open that finds the file leads to it. -/
theorem openPath_found {path : String} {flags : OpenFlags} {mode next : Nat} {h : Host}
    {file : File}
    (found : h.files path = some file) (shared : ¬ (flags.creat ∧ flags.excl)) :
    openPath path flags mode next h = .ok (⟨Function.update h.files path (some (file.opened flags)),
      Function.update h.descriptors next (some path)⟩, next) := by
  -- The call only looks at the flags for an exclusive creation.
  simp only [openPath, found, if_neg shared]

/-- An exclusive creation of a file that exists fails. -/
theorem openPath_exists {path : String} {flags : OpenFlags} {mode next : Nat} {h : Host}
    {file : File}
    (found : h.files path = some file) (creates : flags.creat) (exclusive : flags.excl) :
    openPath path flags mode next h = .error .eexist := by
  -- This is the one case in which an existing file is refused.
  simp only [openPath, found, if_pos (And.intro creates exclusive)]

/-- An open that creates a missing file leads to an empty one. -/
theorem openPath_created {path : String} {flags : OpenFlags} {mode next : Nat} {h : Host}
    (missing : h.files path = none) (creates : flags.creat) :
    openPath path flags mode next h = .ok (⟨Function.update h.files path (some { mode := mode }),
      Function.update h.descriptors next (some path)⟩, next) := by
  -- The path leads nowhere yet, and the call may change that.
  simp only [openPath, missing, if_pos creates]

/-- An open that does not create fails on a missing file. -/
theorem openPath_missing {path : String} {flags : OpenFlags} {mode next : Nat} {h : Host}
    (missing : h.files path = none) (opens : ¬ flags.creat) :
    openPath path flags mode next h = .error .enoent := by
  -- Without a creation, a path that leads nowhere stays so.
  simp only [openPath, missing, if_neg opens]

/-- A descriptor is duplicated exactly if it is open and another one is left. -/
theorem dup_ok_iff (fd : Int) (limit : Nat) (h : Host) :
    (∃ duplicated, dup fd limit h = .ok duplicated) ↔
      (pathOf fd h).isSome ∧ ∃ next < limit, h.descriptors next = none := by
  unfold dup
  cases opened : pathOf fd h with
  | none => simp
  | some path =>
    cases left : (List.range limit).find? fun next => (h.descriptors next).isNone with
    | none =>
      -- All descriptors that the process may have are open.
      rw [List.find?_eq_none] at left
      refine iff_of_false ?_ ?_
      · intro answer
        obtain ⟨duplicated, same⟩ := answer
        cases same
      · intro room
        obtain ⟨_, next, below, free⟩ := room
        apply left next (List.mem_range.mpr below)
        rw [free]
        rfl
    | some next =>
      have free : (h.descriptors next).isNone = true := by simpa using List.find?_some left
      have below := List.mem_range.mp (List.mem_of_find?_eq_some left)
      exact iff_of_true ⟨_, rfl⟩ ⟨rfl, next, below, Option.isNone_iff_eq_none.mp free⟩

/-- The new descriptor leads where the old one does, and all others lead where they did. -/
theorem dup_spec {fd : Int} {limit next : Nat} {h k : Host}
    (duplicated : dup fd limit h = .ok (k, next)) :
    pathOf next k = pathOf fd h ∧ (pathOf fd h).isSome ∧ h.descriptors next = none ∧
      k.files = h.files ∧ ∀ other ≠ next, k.descriptors other = h.descriptors other := by
  unfold dup at duplicated
  cases opened : pathOf fd h with
  | none =>
    rw [opened] at duplicated
    cases duplicated
  | some path =>
    rw [opened] at duplicated
    dsimp only at duplicated
    split at duplicated
    · cases duplicated
    · next left =>
      cases duplicated
      have free : (h.descriptors next).isNone = true := by simpa using List.find?_some left
      refine ⟨?_, rfl, Option.isNone_iff_eq_none.mp free, rfl, fun other away => ?_⟩
      · simp [pathOf]
      · exact Function.update_of_ne away _ _

end Posix
