import TwoIne.DosCalls.HandleCalls
import TwoIne.Lib.Ownership
import TwoIne.Lib.Runs
import TwoIne.Proofs.DosCalls.DupHandle
import TwoIne.Proofs.DosCalls.Handles

/-!
Whatever the threads of a program do with file handles, and in whatever order their steps come, each
descriptor belongs to one handle, and the handles change as their calls say.
-/

namespace TwoIne

open Ownership Posix Runs

/-- The descriptor that a slot has, if it has one. -/
def HFileInfo.descriptor (info : HFileInfo) : Option Nat :=
  if 0 ≤ info.fd then some info.fd.toNat else none

/-- A slot whose mark is negative has no descriptor. -/
theorem descriptor_negative {info : HFileInfo} (negative : info.fd < 0) : info.descriptor = none :=
  if_neg (Int.not_le.mpr negative)

/-- A slot with a descriptor. -/
theorem descriptor_of_nat {info : HFileInfo} {fd : Nat} (same : info.fd = fd) :
    info.descriptor = some fd := by
  rw [HFileInfo.descriptor, same, if_pos (Int.natCast_nonneg fd), Int.toNat_natCast]

section Meaning

/-- Whether the descriptor of a handle is closed, although its slot still has it. -/
def HandleState.Stale (s : HandleState) (i : Nat) : Prop :=
  ∃ thread, s.calls thread = some (.clearing i)

open Classical in
/-- The descriptor that a handle owns. -/
noncomputable def HandleState.owned (s : HandleState) (i : Nat) : Option Nat :=
  if s.Stale i then none else (s.table.hFiles[i]?).bind HFileInfo.descriptor

/-- The file that a handle leads to. -/
noncomputable def HandleState.file (s : HandleState) (i : Nat) : Option String :=
  (s.owned i).bind s.host.descriptors

/-- The descriptors that are open, and that the process does not have for something else. -/
def HandleState.uses (s : HandleState) (foreign : Nat → Option String) (d : Nat) : Prop :=
  foreign d = none ∧ (s.host.descriptors d).isSome

/-- Whether a call has marked its slot, so that no other one takes it. -/
def HandleCall.reserves : HandleCall → Bool
  | .opening _ _ _ _ _ => true
  | .duplicating reserved _ _ => reserved
  | .closing _ _ => false
  | .clearing _ => false

/-- What the table says of the handle that a call is about. -/
def HandleCall.Held (t : HandleTable) : HandleCall → Prop
  | .opening _ _ _ hf _ => ∃ info, t.hFiles[hf]? = some info ∧ info.fd = -2
  | .duplicating reserved hFile i => hFile < t.hFiles.length ∧
      ∃ info, t.hFiles[i]? = some info ∧ info.fd = if reserved then -2 else -1
  | .closing hFile fd => ∃ info, t.hFiles[hFile]? = some info ∧ info.fd = fd ∧ 2 < fd
  | .clearing hFile => ∃ info, t.hFiles[hFile]? = some info ∧ 0 ≤ info.fd

/--
Every descriptor that is open belongs to one handle, unless the process has it for something else,
and every slot that is marked belongs to a call.
-/
structure HandlesConsistent (foreign : Nat → Option String) (s : HandleState) : Prop where
  sized : s.table.Sized
  marked : ∀ i info, s.table.hFiles[i]? = some info → info.fd < 0 → info.fd ≠ -1 →
    ∃ thread call, s.calls thread = some call ∧ call.handle = i ∧ call.reserves
  held : ∀ thread call, s.calls thread = some call → call.Held s.table
  alone : ∀ {thread other call also}, s.calls thread = some call → s.calls other = some also →
    call.handle = also.handle → thread = other
  owns : Owns s.owned (s.uses foreign)
  kept : ∀ d path, foreign d = some path → s.host.descriptors d = some path

end Meaning

section Steps

variable {foreign : Nat → Option String} {s s' : HandleState} {thread i j : Nat}
  {info old : HFileInfo} {call new : Option HandleCall} {t : HandleTable}

/-- What the table says of a handle is a matter of its slot, and of no slot being lost. -/
theorem HandleCall.Held.congr {u : HandleTable} {call : HandleCall} (held : call.Held t)
    (slot : u.hFiles[call.handle]? = t.hFiles[call.handle]?)
    (longer : t.hFiles.length ≤ u.hFiles.length) : call.Held u := by
  cases call with
  | opening a access unixpath hf before =>
    obtain ⟨info, read, mark⟩ := held
    exact ⟨info, slot.trans read, mark⟩
  | duplicating reserved hFile i =>
    obtain ⟨inside, info, read, mark⟩ := held
    exact ⟨Nat.lt_of_lt_of_le inside longer, info, slot.trans read, mark⟩
  | closing hFile fd =>
    obtain ⟨info, read, mark⟩ := held
    exact ⟨info, slot.trans read, mark⟩
  | clearing hFile =>
    obtain ⟨info, read, mark⟩ := held
    exact ⟨info, slot.trans read, mark⟩

/--
A step of a thread that writes at most one slot: it is the slot of the call that the thread is in
before and after the step, and no other thread is in a call about it.
-/
structure SlotStep (s s' : HandleState) (thread i : Nat) (info : HFileInfo)
    (new : Option HandleCall) : Prop where
  table : s'.table = s.table.setSlot i info
  calls : s'.calls = Function.update s.calls thread new
  inside : i < s.table.hFiles.length
  before : ∀ call, s.calls thread = some call → call.handle = i
  after : ∀ call, new = some call → call.handle = i ∧ call.Held s'.table
  alone : ∀ other call, other ≠ thread → s.calls other = some call → call.handle ≠ i
  mark : info.fd < 0 → info.fd ≠ -1 → ∃ call, new = some call ∧ call.reserves

/-- The slot that a step writes. -/
theorem SlotStep.slot (step : SlotStep s s' thread i info new) :
    s'.table.hFiles[i]? = some info := by
  rw [step.table]
  exact List.getElem?_set_self step.inside

/-- The slots that a step does not write. -/
theorem SlotStep.others (step : SlotStep s s' thread i info new) (other : j ≠ i) :
    s'.table.hFiles[j]? = s.table.hFiles[j]? := by
  rw [step.table]
  exact List.getElem?_set_ne (Ne.symm other)

/-- A step does not make another handle stale, nor end that. -/
theorem SlotStep.stale_iff (step : SlotStep s s' thread i info new) (other : j ≠ i) :
    s'.Stale j ↔ s.Stale j := by
  have same : ∀ reader, s'.calls reader = some (.clearing j) ↔ s.calls reader = some (.clearing j) := by
    intro reader
    rw [step.calls, Function.update_apply]
    split
    · next own =>
      subst own
      constructor
      · exact fun taken => absurd (step.after _ taken).1 other
      · exact fun taken => absurd (step.before _ taken) other
    · rfl
  exact exists_congr same

/-- A step changes at most what one handle owns. -/
theorem SlotStep.owned_others (step : SlotStep s s' thread i info new) (other : j ≠ i) :
    s'.owned j = s.owned j := by
  unfold HandleState.owned
  rw [step.others other]
  by_cases stale : s.Stale j
  · rw [if_pos stale, if_pos ((step.stale_iff other).mpr stale)]
  · rw [if_neg stale, if_neg fun also => stale ((step.stale_iff other).mp also)]

/-- A step changes what one handle owns. -/
theorem SlotStep.owned_update (step : SlotStep s s' thread i info new) :
    s'.owned = Function.update s.owned i (s'.owned i) := by
  funext j
  rw [Function.update_apply]
  split
  · next same => rw [same]
  · next other => exact step.owned_others other

/-- The handle of a step is stale if the call says so that the thread is in then. -/
theorem SlotStep.stale_self (step : SlotStep s s' thread i info new) :
    s'.Stale i ↔ new = some (.clearing i) := by
  constructor
  · rintro ⟨reader, taken⟩
    rw [step.calls, Function.update_apply] at taken
    split at taken
    · exact taken
    · next other => exact absurd rfl (step.alone reader _ other taken)
  · intro clearing
    exact ⟨thread, by rw [step.calls, Function.update_self, clearing]⟩

/-- What the handle of a step owns after it. -/
theorem SlotStep.owned_self (step : SlotStep s s' thread i info new)
    (going_on : new ≠ some (.clearing i)) : s'.owned i = info.descriptor := by
  have fresh : ¬ s'.Stale i := fun stale => going_on (step.stale_self.mp stale)
  unfold HandleState.owned
  rw [if_neg fresh, step.slot]
  rfl

/-- What the handle of a step owned before it. -/
theorem owned_slot (fresh : ¬ s.Stale i) (slot : s.table.hFiles[i]? = some info) :
    s.owned i = info.descriptor := by
  unfold HandleState.owned
  rw [if_neg fresh, slot]
  rfl

/-- The descriptor of a handle is in use, and not one that the process has for something else. -/
theorem HandlesConsistent.open_of_owned (consistent : HandlesConsistent foreign s) {d : Nat}
    (owned : s.owned i = some d) : foreign d = none ∧ (s.host.descriptors d).isSome :=
  consistent.owns.inUse owned

/-- What a step leaves of a consistent state, apart from the host. -/
theorem SlotStep.consistent (step : SlotStep s s' thread i info new)
    (consistent : HandlesConsistent foreign s) (owns : Owns s'.owned (s'.uses foreign))
    (kept : ∀ d path, foreign d = some path → s'.host.descriptors d = some path) :
    HandlesConsistent foreign s' := by
  have length : s'.table.hFiles.length = s.table.hFiles.length := by
    rw [step.table]
    exact List.length_set
  have slots : s'.table.maxHFiles = s.table.maxHFiles := by
    rw [step.table]
    rfl
  -- Another thread is in the call that it was in, which is about another handle.
  have elsewhere : ∀ {reader call}, reader ≠ thread → s'.calls reader = some call →
      s.calls reader = some call ∧ call.handle ≠ i := by
    intro reader call other taken
    rw [step.calls, Function.update_of_ne other] at taken
    exact ⟨taken, step.alone reader call other taken⟩
  have own : s'.calls thread = new := by rw [step.calls, Function.update_self]
  refine ⟨⟨length.trans (consistent.sized.slots.trans slots.symm), ?_⟩, ?_, ?_, ?_, owns, kept⟩
  · rw [slots]
    exact consistent.sized.fits
  · intro j marked read negative unusual
    by_cases same : j = i
    · subst same
      rw [step.slot] at read
      cases read
      obtain ⟨call, taken, reserves⟩ := step.mark negative unusual
      exact ⟨thread, call, own.trans taken, (step.after call taken).1, reserves⟩
    · rw [step.others same] at read
      obtain ⟨reader, call, taken, handle, reserves⟩ :=
        consistent.marked j marked read negative unusual
      have other : reader ≠ thread := by
        rintro rfl
        exact same (handle.symm.trans (step.before call taken))
      refine ⟨reader, call, ?_, handle, reserves⟩
      rw [step.calls, Function.update_of_ne other, taken]
  · intro reader call taken
    by_cases same : reader = thread
    · subst same
      exact (step.after call (own.symm.trans taken)).2
    · obtain ⟨before, other⟩ := elsewhere same taken
      exact (consistent.held reader call before).congr (step.others other) (Nat.le_of_eq length.symm)
  · intro reader other call also taken taken' same
    by_cases first : reader = thread
    · by_cases second : other = thread
      · rw [first, second]
      · subst first
        exact absurd (same.symm.trans (step.after call (own.symm.trans taken)).1)
          (elsewhere second taken').2
    · by_cases second : other = thread
      · subst second
        exact absurd (same.trans (step.after also (own.symm.trans taken')).1) (elsewhere first taken).2
      · exact consistent.alone (elsewhere first taken).1 (elsewhere second taken').1 same

/-- A step that leaves the descriptors as they are, and what its handle owns. -/
theorem SlotStep.idle (step : SlotStep s s' thread i info new)
    (consistent : HandlesConsistent foreign s) (host : s'.host.descriptors = s.host.descriptors)
    (owned : s'.owned i = s.owned i) : HandlesConsistent foreign s' ∧ s'.file = s.file := by
  have same : s'.owned = s.owned := by
    rw [step.owned_update, owned]
    exact Function.update_eq_self i s.owned
  refine ⟨step.consistent consistent ?_ (host ▸ consistent.kept), ?_⟩
  · rw [same]
    exact consistent.owns.congr fun d => by rw [HandleState.uses, HandleState.uses, host]
  · unfold HandleState.file
    rw [same, host]

/-- A step that opens a descriptor for its handle. -/
theorem SlotStep.acquires (step : SlotStep s s' thread i info new)
    (consistent : HandlesConsistent foreign s) {d : Nat} {path : String}
    (unused : s.host.descriptors d = none)
    (host : s'.host.descriptors = Function.update s.host.descriptors d (some path))
    (idle : s.owned i = none) (owned : s'.owned i = some d) :
    HandlesConsistent foreign s' ∧ s'.file = Function.update s.file i (some path) := by
  have unknown : foreign d = none := by
    by_contra known
    obtain ⟨other, also⟩ := Option.ne_none_iff_exists'.mp known
    rw [consistent.kept d other also] at unused
    cases unused
  have unowned : ¬ s.uses foreign d := fun uses => by
    have opened := uses.2
    rw [unused] at opened
    cases opened
  have owners := step.owned_update
  rw [owned] at owners
  refine ⟨step.consistent consistent ?_ ?_, ?_⟩
  · rw [owners]
    refine (consistent.owns.acquire idle unowned).congr fun e => ?_
    unfold HandleState.uses
    rw [host, Function.update_apply]
    split
    · next same => simp [same, unknown]
    · next other => simp [other]
  · intro e other known
    have away : e ≠ d := by
      rintro rfl
      rw [known] at unknown
      cases unknown
    rw [host, Function.update_of_ne away, consistent.kept e other known]
  · funext j
    unfold HandleState.file
    rw [owners, host, Function.update_apply, Function.update_apply]
    split
    · exact Function.update_self _ _ _
    · -- The descriptor of another handle was open, and so is not the new one.
      cases held : s.owned j with
      | none => rfl
      | some e =>
        have away : e ≠ d := by
          rintro rfl
          have opened := (consistent.open_of_owned held).2
          rw [unused] at opened
          cases opened
        exact Function.update_of_ne away _ _

/-- A step that closes the descriptor of its handle. -/
theorem SlotStep.releases (step : SlotStep s s' thread i info new)
    (consistent : HandlesConsistent foreign s) {d : Nat} (owned : s.owned i = some d)
    (host : s'.host.descriptors = Function.update s.host.descriptors d none)
    (idle : s'.owned i = none) :
    HandlesConsistent foreign s' ∧ s'.file = Function.update s.file i none := by
  have unknown := (consistent.open_of_owned owned).1
  have owners := step.owned_update
  rw [idle] at owners
  refine ⟨step.consistent consistent ?_ ?_, ?_⟩
  · rw [owners]
    refine (consistent.owns.release owned).congr fun e => ?_
    unfold HandleState.uses
    rw [host, Function.update_apply]
    split
    · next same => simp [same]
    · next other => simp [other]
  · intro e other known
    have away : e ≠ d := by
      rintro rfl
      rw [known] at unknown
      cases unknown
    rw [host, Function.update_of_ne away, consistent.kept e other known]
  · funext j
    unfold HandleState.file
    rw [owners, host, Function.update_apply, Function.update_apply]
    split
    · rfl
    · next other =>
      cases held : s.owned j with
      | none => rfl
      | some e =>
        have away : e ≠ d := by
          rintro rfl
          exact other (consistent.owns.apart held owned)
        exact Function.update_of_ne away _ _

end Steps

section Opening

variable {a : OpenArgs} {access : Access} {path : String} {next hf : Nat} {info : HFileInfo}
  {h k : Host} {t : HandleTable}

/-- An open call of the host opens the descriptor that it uses next on a file that is there. -/
theorem openPath_descriptors {flags : OpenFlags} {mode fd : Nat}
    (opened : openPath path flags mode next h = .ok (k, fd)) :
    fd = next ∧ k.descriptors = Function.update h.descriptors next (some path) ∧
      ∃ file, k.files path = some file := by
  unfold openPath at opened
  cases found : h.files path with
  | some file =>
    simp only [found] at opened
    split at opened
    · cases opened
    · cases opened
      exact ⟨rfl, rfl, _, Function.update_self _ _ _⟩
  | none =>
    simp only [found] at opened
    split at opened
    · cases opened
      exact ⟨rfl, rfl, _, Function.update_self _ _ _⟩
    · cases opened

/-- Whatever the second try is for, a file that is opened counts as one that existed. -/
theorem openTwice_opened {existed : Bool} {fd : Nat}
    (opened : openTwice a access path next h = (existed, .ok (k, fd))) :
    existed = true ∧ fd = next ∧
      k.descriptors = Function.update h.descriptors next (some path) ∧
      ∃ file, k.files path = some file := by
  unfold openTwice at opened
  dsimp only at opened
  cases first : openPath path (a.flags access) a.mode next h with
  | ok answer =>
    rw [first] at opened
    cases opened
    exact ⟨rfl, openPath_descriptors first⟩
  | error err =>
    rw [first] at opened
    dsimp only at opened
    split at opened
    · obtain ⟨rfl, second⟩ := Prod.mk.inj opened
      exact ⟨rfl, openPath_descriptors second⟩
    · cases opened

/-- Closing the only descriptor that was opened. -/
theorem closeFd_opened (unused : h.descriptors next = none)
    (opened : k.descriptors = Function.update h.descriptors next (some path)) :
    (closeFd next k).descriptors = h.descriptors := by
  unfold closeFd
  rw [opened, Function.update_idem, ← unused]
  exact Function.update_eq_self next h.descriptors

/-- A size that is to be set is set through the mark of the slot, which opens nothing. -/
def OpenArgs.resizes (a : OpenArgs) : Prop := a.isReplacing ∧ 0 < a.cbFile

/--
An open call ends with its slot free and no descriptor opened, or with a descriptor in its slot; the
answer tells these apart, unless a file was to be replaced by one with a size.
-/
theorem openReserved_ends (unused : h.descriptors next = none)
    (out : Opened) (ends : openReserved a access path next hf info h t = out) :
    ∃ written, out.table = t.setSlot hf written ∧
      ((written.fd = -1 ∧ out.host.descriptors = h.descriptors ∧
          (out.ret = .noError → a.resizes)) ∨
        (written.fd = next ∧ ¬ a.resizes ∧ out.ret = .noError ∧ out.pHf = some hf ∧
          out.host.descriptors = Function.update h.descriptors next (some path))) := by
  unfold openReserved at ends
  cases called : openTwice a access path next h with
  | mk existed answer =>
  rw [called] at ends
  cases answer with
  | error err =>
    subst ends
    exact ⟨_, rfl, .inl ⟨rfl, rfl, fun succeeds => absurd succeeds (openError_ne err)⟩⟩
  | ok opened =>
    obtain ⟨k, fd⟩ := opened
    obtain ⟨rfl, rfl, descriptors, file, found⟩ := openTwice_opened called
    dsimp only at ends
    split at ends
    · subst ends
      exact ⟨_, rfl, .inl ⟨rfl, closeFd_opened unused descriptors, fun succeeds => by cases succeeds⟩⟩
    · simp only [not_true_eq_false, false_or, ftruncate_reserved] at ends
      by_cases resizes : a.resizes
      · -- The size cannot be set, so the descriptor is closed again.
        rw [if_pos (show a.isReplacing = true ∧ 0 < a.cbFile from resizes),
          initHFileInfo_closed] at ends
        subst ends
        exact ⟨_, rfl, .inl ⟨rfl, closeFd_opened unused descriptors, fun _ => resizes⟩⟩
      · have leads : k.descriptors fd = some path := by rw [descriptors, Function.update_self]
        rw [if_neg (show ¬ (a.isReplacing = true ∧ 0 < a.cbFile) from resizes),
          initHFileInfo_open leads found] at ends
        subst ends
        exact ⟨_, rfl, .inr ⟨rfl, resizes, rfl, rfl, descriptors⟩⟩

end Opening

section Actions

/-- No thread is about to write to the slot that a search for a free one ends at. -/
def HandleState.Undisturbed (s : HandleState) : Prop :=
  ∀ thread hFile i, s.calls thread = some (.duplicating false hFile i) → s.table.freeSlot ≠ some i

/-- No thread keeps the place of a slot, which moves when the table grows. -/
def HandleState.Unopening (s : HandleState) : Prop :=
  ∀ thread a access unixpath hf info, s.calls thread ≠ some (.opening a access unixpath hf info)

/--
The steps that can come, of a program that keeps its threads apart where the library does not: no
slot is taken that another thread duplicates a handle to, no handle is closed twice, and the table
does not grow while a file is opened. The host opens no descriptor that is open, and a duplicate is
made of a handle in range.
-/
def HandleAction.Issued (s : HandleState) : HandleAction → Prop
  | .beginOpen thread _ _ => s.calls thread = none ∧ s.Undisturbed
  | .endOpen thread next =>
    (∃ a access unixpath hf info, s.calls thread = some (.opening a access unixpath hf info)) ∧
      s.host.descriptors next = none
  | .beginDup thread hFile pHfile => s.calls thread = none ∧ hFile < s.table.maxHFiles ∧
      if pHfile = anyHandle then s.Undisturbed
      else pHfile < s.table.maxHFiles ∧
        ∀ other source, s.calls other ≠ some (.duplicating false source pHfile)
  | .endDup thread => ∃ reserved hFile i, s.calls thread = some (.duplicating reserved hFile i)
  | .beginClose thread hFile => s.calls thread = none ∧
      ∀ other, (∀ fd, s.calls other ≠ some (.closing hFile fd)) ∧ s.calls other ≠ some (.clearing hFile)
  | .closeDescriptor thread => ∃ hFile fd, s.calls thread = some (.closing hFile fd)
  | .endClose thread => ∃ hFile, s.calls thread = some (.clearing hFile)
  | .setMax _ _ => s.Unopening
  | .setRelMax _ _ => s.Unopening

/-- Growing the table does not wrap its size, and growing it by a number loses no handle. -/
def HandleAction.Harmless (s : HandleState) : HandleAction → Prop
  | .setMax _ cFH => cFH < 2 ^ 28
  | .setRelMax memory pincr =>
    ∀ incr, pincr = some incr → 0 < incr → RelGrowthHarmless memory incr.toNat s.table
  | _ => True

/-- The file that a handle leads to when its open call has answered. -/
noncomputable def openedFile (a : OpenArgs) (unixpath : Except PathError String) (hf : Nat)
    (answer : Option HandleAnswer) : Option String :=
  open Classical in
  match unixpath with
  | .error _ => none
  | .ok path => if answer = some ⟨.noError, some hf⟩ ∧ ¬ a.resizes then some path else none

/--
What a step does to the files that handles lead to: at the end of an open call and of a duplicate
the new handle leads to its file, a handle leads nowhere from the moment its descriptor is closed,
and nothing else changes where a handle leads.
-/
def HandlesChange (limit : Nat) (s s' : HandleState) (answer : Option HandleAnswer) :
    HandleAction → Prop
  | .endOpen thread _ => ∀ a access unixpath hf info,
      s.calls thread = some (.opening a access unixpath hf info) → s.file hf = none ∧
        s'.file = Function.update s.file hf (openedFile a unixpath hf answer)
  | .endDup thread => ∀ reserved hFile i, s.calls thread = some (.duplicating reserved hFile i) →
      s.file i = none ∧ ∃ got, s'.file = Function.update s.file i got ∧
        (¬ s.Stale hFile → (∃ next < limit, s.host.descriptors next = none) → got = s.file hFile)
  | .closeDescriptor thread => ∀ hFile fd, s.calls thread = some (.closing hFile fd) →
      s'.file = Function.update s.file hFile none
  | _ => s'.file = s.file

variable {foreign : Nat → Option String} {limit : Nat} {s : HandleState} {thread i : Nat}
  {info : HFileInfo}

/-- A step that is good: it ends in a consistent state, and does to the files what it has to. -/
def Progresses (limit : Nat) (foreign : Nat → Option String) (s : HandleState)
    (action : HandleAction) : Prop :=
  ∃ s' answer, stepHandles limit s action = some (s', answer) ∧
    HandlesChange limit s s' answer action ∧ HandlesConsistent foreign s'

/-- A slot without a descriptor is not stale, and owns none. -/
theorem HandlesConsistent.unowned (consistent : HandlesConsistent foreign s)
    (slot : s.table.hFiles[i]? = some info) (negative : info.fd < 0) :
    ¬ s.Stale i ∧ s.owned i = none := by
  have fresh : ¬ s.Stale i := by
    rintro ⟨reader, taken⟩
    obtain ⟨stored, read, positive⟩ := consistent.held reader _ taken
    cases slot.symm.trans read
    omega
  exact ⟨fresh, (owned_slot fresh slot).trans (descriptor_negative negative)⟩

/-- The only call that another thread can be in about a free slot is a duplicate to it. -/
theorem HandlesConsistent.free_call (consistent : HandlesConsistent foreign s)
    (slot : s.table.hFiles[i]? = some info) (free : info.fd = -1) {call : HandleCall}
    (taken : s.calls thread = some call) (handle : call.handle = i) :
    ∃ hFile, call = .duplicating false hFile i := by
  have held := consistent.held thread call taken
  cases call with
  | opening a access unixpath hf before =>
    obtain rfl : hf = i := handle
    obtain ⟨stored, read, mark⟩ := held
    cases slot.symm.trans read
    omega
  | duplicating reserved hFile target =>
    obtain rfl : target = i := handle
    obtain ⟨_, stored, read, mark⟩ := held
    cases slot.symm.trans read
    cases reserved with
    | true =>
      rw [if_pos rfl] at mark
      omega
    | false => exact ⟨hFile, rfl⟩
  | closing hFile fd =>
    obtain rfl : hFile = i := handle
    obtain ⟨stored, read, mark, positive⟩ := held
    cases slot.symm.trans read
    omega
  | clearing hFile =>
    obtain rfl : hFile = i := handle
    obtain ⟨stored, read, mark⟩ := held
    cases slot.symm.trans read
    omega

/-- A slot that is free is not marked while no call is about it. -/
theorem freeSlot_alone (consistent : HandlesConsistent foreign s) (undisturbed : s.Undisturbed)
    (search : s.table.freeSlot = some i) :
    ∀ other call, other ≠ thread → s.calls other = some call → call.handle ≠ i := by
  intro other call _ taken handle
  obtain ⟨stored, slot, free⟩ := freeSlot_spec search
  obtain ⟨hFile, rfl⟩ := consistent.free_call slot free taken handle
  exact undisturbed other hFile i taken search

/-- A thread that is not in a call takes a free slot, and marks it. -/
theorem reserve_step (consistent : HandlesConsistent foreign s) (idle : s.calls thread = none)
    (undisturbed : s.Undisturbed) (search : s.table.freeSlot = some i)
    (slot : s.table.hFiles[i]? = some info) (call : HandleCall) (handle : call.handle = i)
    (reserves : call.reserves = true)
    (held : call.Held (s.table.setSlot i { info with fd := -2 })) :
    HandlesConsistent foreign (HandleState.goesOn
        { s with table := s.table.setSlot i { info with fd := -2 } } thread (some call)) ∧
      HandleState.file (HandleState.goesOn
        { s with table := s.table.setSlot i { info with fd := -2 } } thread (some call)) = s.file := by
  obtain ⟨stored, read, free⟩ := freeSlot_spec search
  cases slot.symm.trans read
  obtain ⟨inside, _⟩ := List.getElem?_eq_some_iff.mp slot
  have step : SlotStep s (HandleState.goesOn
      { s with table := s.table.setSlot i { info with fd := -2 } } thread (some call)) thread i
      { info with fd := -2 } (some call) := by
    refine ⟨rfl, rfl, inside, ?_, ?_, freeSlot_alone consistent undisturbed search, ?_⟩
    · intro before taken
      rw [idle] at taken
      cases taken
    · intro after taken
      cases taken
      exact ⟨handle, held⟩
    · exact fun _ _ => ⟨call, rfl, reserves⟩
  refine step.idle consistent rfl ?_
  have going_on : some call ≠ some (.clearing i) := by
    rintro same
    cases same
    cases reserves
  rw [step.owned_self going_on, (consistent.unowned slot (by omega)).2]
  exact descriptor_negative (show (-2 : Int) < 0 by decide)

/-- An open call begins. -/
theorem beginOpen_progresses (consistent : HandlesConsistent foreign s) {a : OpenArgs}
    {unixpath : Except PathError String}
    (issued : (HandleAction.beginOpen thread a unixpath).Issued s) :
    Progresses limit foreign s (.beginOpen thread a unixpath) := by
  obtain ⟨idle, undisturbed⟩ := issued
  cases accepted : a.accepted with
  | error code =>
    have stepped : stepHandles limit s (.beginOpen thread a unixpath) = some (s, some ⟨code, none⟩) := by
      simp only [stepHandles, accepted]
    exact ⟨s, _, stepped, rfl, consistent⟩
  | ok access =>
    cases search : s.table.freeSlot with
    | none =>
      have stepped : stepHandles limit s (.beginOpen thread a unixpath) =
          some (s, some ⟨.errorTooManyOpenFiles, none⟩) := by
        simp only [stepHandles, accepted, search]
      exact ⟨s, _, stepped, rfl, consistent⟩
    | some hf =>
      obtain ⟨info, slot, free⟩ := freeSlot_spec search
      have done := reserve_step consistent idle undisturbed search slot
        (.opening a access unixpath hf info) rfl rfl ⟨_, setSlot_get slot _, rfl⟩
      have stepped : stepHandles limit s (.beginOpen thread a unixpath) =
          some (HandleState.goesOn
            { s with table := s.table.setSlot hf { info with fd := -2 } } thread
            (some (.opening a access unixpath hf info)), none) := by
        simp only [stepHandles, accepted, search, slot]
      exact ⟨_, _, stepped, done.2, done.1⟩

/-- An open call ends. -/
theorem endOpen_progresses (consistent : HandlesConsistent foreign s) {next : Nat}
    (issued : (HandleAction.endOpen thread next).Issued s) :
    Progresses limit foreign s (.endOpen thread next) := by
  obtain ⟨⟨a, access, unixpath, hf, info, taken⟩, unused⟩ := issued
  obtain ⟨reserved, slot, mark⟩ := consistent.held thread _ taken
  obtain ⟨inside, _⟩ := List.getElem?_eq_some_iff.mp slot
  have unowned := consistent.unowned slot (by omega)
  have no_file : s.file hf = none := by
    unfold HandleState.file
    rw [unowned.2]
    rfl
  have alone : ∀ other call, other ≠ thread → s.calls other = some call → call.handle ≠ hf :=
    fun other call away also same => away (consistent.alone also taken same)
  -- Whatever the slot says afterwards, only this step writes it.
  have writes : ∀ host written, (written.fd < 0 → written.fd = -1) →
      SlotStep s (HandleState.goesOn { s with host, table := s.table.setSlot hf written } thread none)
        thread hf written none := by
    intro host written marks
    refine ⟨rfl, rfl, inside, ?_, ?_, alone, fun negative unusual => absurd (marks negative) unusual⟩
    · intro call before
      cases taken.symm.trans before
      rfl
    · intro call after
      cases after
  have owns : ∀ host written, (written.fd < 0 → written.fd = -1) → HandleState.owned
      (HandleState.goesOn { s with host, table := s.table.setSlot hf written } thread none) hf =
        written.descriptor :=
    fun host written marks => (writes host written marks).owned_self (by simp)
  have stepped : stepHandles limit s (.endOpen thread next) =
      some (HandleState.goesOn
          { s with
            host := (openRest a access unixpath next hf info s.host s.table).host
            table := (openRest a access unixpath next hf info s.host s.table).table } thread none,
        some ⟨(openRest a access unixpath next hf info s.host s.table).ret,
          (openRest a access unixpath next hf info s.host s.table).pHf⟩) := by
    simp only [stepHandles, taken]
  refine ⟨_, _, stepped, ?_⟩
  suffices done : HandlesConsistent foreign _ ∧
      _ = Function.update s.file hf (openedFile a unixpath hf _) by
    refine ⟨?_, done.1⟩
    intro a' access' unixpath' hf' info' also
    cases taken.symm.trans also
    exact ⟨no_file, done.2⟩
  cases unixpath with
  | error e =>
    have marks : ({ info with fd := -1 } : HFileInfo).fd < 0 → ({ info with fd := -1 } : HFileInfo).fd = -1 :=
      fun _ => rfl
    have done := (writes s.host { info with fd := -1 } marks).idle consistent rfl (by
      rw [owns s.host _ marks, unowned.2]
      exact descriptor_negative (show (-1 : Int) < 0 by decide))
    refine ⟨done.1, done.2.trans ?_⟩
    show s.file = Function.update s.file hf none
    rw [← no_file, Function.update_eq_self]
  | ok path =>
    dsimp only [openRest]
    cases ended : openReserved a access path next hf info s.host s.table with
    | mk host table ret action handle =>
    obtain ⟨written, rfl, freed | opened⟩ := openReserved_ends unused _ ended
    · obtain ⟨mark', host', answered⟩ := freed
      dsimp only at mark' host' answered
      have done := (writes host written fun _ => mark').idle consistent host' (by
        rw [owns host written fun _ => mark', unowned.2]
        exact descriptor_negative (by omega))
      have nowhere : openedFile a (.ok path) hf (some ⟨ret, handle⟩) = none := by
        refine if_neg ?_
        rintro ⟨same, sizeless⟩
        cases same
        exact sizeless (answered rfl)
      refine ⟨done.1, done.2.trans ?_⟩
      show s.file = Function.update s.file hf (openedFile a (.ok path) hf (some ⟨ret, handle⟩))
      rw [nowhere, ← no_file, Function.update_eq_self]
    · obtain ⟨mark', sizeless, answer, handed, host'⟩ := opened
      dsimp only at mark' answer handed host'
      have marks : written.fd < 0 → written.fd = -1 := fun negative => by omega
      have done := (writes host written marks).acquires consistent unused host' unowned.2
        ((owns host written marks).trans (descriptor_of_nat mark'))
      have leads : openedFile a (.ok path) hf (some ⟨ret, handle⟩) = some path := by
        refine if_pos ⟨?_, sizeless⟩
        rw [answer, handed]
      refine ⟨done.1, done.2.trans ?_⟩
      show _ = Function.update s.file hf (openedFile a (.ok path) hf (some ⟨ret, handle⟩))
      rw [leads]

/-- A step that begins a call and leaves the table as it is. -/
theorem begin_step (consistent : HandlesConsistent foreign s) (idle : s.calls thread = none)
    (slot : s.table.hFiles[i]? = some info) (call : HandleCall) (handle : call.handle = i)
    (held : call.Held s.table) (going_on : call ≠ .clearing i)
    (unmarked : info.fd < 0 → info.fd = -1) (fresh : ¬ s.Stale i)
    (alone : ∀ other also, other ≠ thread → s.calls other = some also → also.handle ≠ i) :
    HandlesConsistent foreign (s.goesOn thread (some call)) ∧
      (s.goesOn thread (some call)).file = s.file := by
  obtain ⟨inside, _⟩ := List.getElem?_eq_some_iff.mp slot
  have step : SlotStep s (s.goesOn thread (some call)) thread i info (some call) := by
    refine ⟨(setSlot_same slot).symm, rfl, inside, ?_, ?_, alone, ?_⟩
    · intro before taken
      rw [idle] at taken
      cases taken
    · intro after taken
      cases taken
      exact ⟨handle, held⟩
    · exact fun negative unusual => absurd (unmarked negative) unusual
  refine step.idle consistent rfl ?_
  rw [step.owned_self fun same => going_on (Option.some.inj same), owned_slot fresh slot]

/-- A duplicate begins. -/
theorem beginDup_progresses (consistent : HandlesConsistent foreign s) {hFile pHfile : Nat}
    (issued : (HandleAction.beginDup thread hFile pHfile).Issued s) :
    Progresses limit foreign s (.beginDup thread hFile pHfile) := by
  obtain ⟨idle, source, apart⟩ := issued
  have inside : hFile < s.table.hFiles.length := consistent.sized.slots ▸ source
  by_cases any : pHfile = anyHandle
  · rw [if_pos any] at apart
    cases search : s.table.freeSlot with
    | none =>
      have stepped : stepHandles limit s (.beginDup thread hFile pHfile) =
          some (s, some ⟨.errorTooManyOpenFiles, none⟩) := by
        simp only [stepHandles, if_pos any, search]
      exact ⟨s, _, stepped, rfl, consistent⟩
    | some i =>
      obtain ⟨info, slot, free⟩ := freeSlot_spec search
      have length : hFile < (s.table.setSlot i { info with fd := -2 }).hFiles.length := by
        rw [HandleTable.setSlot, List.length_set]
        exact inside
      have done := reserve_step consistent idle apart search slot (.duplicating true hFile i) rfl rfl
        ⟨length, _, setSlot_get slot _, rfl⟩
      have stepped : stepHandles limit s (.beginDup thread hFile pHfile) =
          some (HandleState.goesOn { s with table := s.table.setSlot i { info with fd := -2 } } thread
            (some (.duplicating true hFile i)), none) := by
        simp only [stepHandles, if_pos any, search, slot]
      exact ⟨_, _, stepped, done.2, done.1⟩
  · rw [if_neg any] at apart
    obtain ⟨info, slot⟩ : ∃ info, s.table.hFiles[pHfile]? = some info :=
      ⟨_, List.getElem?_eq_getElem (consistent.sized.slots ▸ apart.1)⟩
    by_cases free : info.fd = -1
    · have done := begin_step consistent idle slot (.duplicating false hFile pHfile) rfl
        ⟨inside, info, slot, free⟩ (by simp) (fun _ => free) (consistent.unowned slot (by omega)).1
        (fun other also _ taken handle => by
          obtain ⟨from_there, rfl⟩ := consistent.free_call slot free taken handle
          exact apart.2 other from_there taken)
      have stepped : stepHandles limit s (.beginDup thread hFile pHfile) =
          some (s.goesOn thread (some (.duplicating false hFile pHfile)), none) := by
        simp only [stepHandles, if_neg any, slot, if_neg (not_not.mpr free)]
      exact ⟨_, _, stepped, done.2, done.1⟩
    · have stepped : stepHandles limit s (.beginDup thread hFile pHfile) =
          some (s, some ⟨.errorInvalidTargetHandle, none⟩) := by
        simp only [stepHandles, if_neg any, slot]
        exact if_pos free
      exact ⟨s, _, stepped, rfl, consistent⟩

/-- Closing a handle begins. -/
theorem beginClose_progresses (consistent : HandlesConsistent foreign s) {hFile : Nat}
    (issued : (HandleAction.beginClose thread hFile).Issued s) :
    Progresses limit foreign s (.beginClose thread hFile) := by
  obtain ⟨idle, apart⟩ := issued
  by_cases invalid : getHFileUnixDescriptor s.table hFile = -1
  · have stepped : stepHandles limit s (.beginClose thread hFile) =
        some (s, some ⟨.errorInvalidHandle, none⟩) := by
      simp only [stepHandles, if_pos invalid]
    exact ⟨s, _, stepped, rfl, consistent⟩
  by_cases standard : getHFileUnixDescriptor s.table hFile ≤ 2
  · have stepped : stepHandles limit s (.beginClose thread hFile) = some (s, some ⟨.noError, none⟩) := by
      simp only [stepHandles, if_neg invalid, if_pos standard]
    exact ⟨s, _, stepped, rfl, consistent⟩
  · -- The handle is one of the table, and its slot has the descriptor.
    obtain ⟨info, slot, same⟩ : ∃ info, s.table.hFiles[hFile]? = some info ∧
        getHFileUnixDescriptor s.table hFile = info.fd := by
      by_cases range : hFile < s.table.maxHFiles
      · have slot := List.getElem?_eq_getElem (consistent.sized.slots ▸ range)
        exact ⟨_, slot, (descriptor_of_slot consistent.sized slot).2⟩
      · rw [getHFileUnixDescriptor, if_neg range] at invalid
        exact absurd rfl invalid
    rw [same] at invalid standard
    have number : info.fd = (info.fd.toNat : Int) := by omega
    have alone : ∀ other also, other ≠ thread → s.calls other = some also → also.handle ≠ hFile := by
      intro other also _ taken handle
      have held := consistent.held other also taken
      cases also with
      | opening a access unixpath hf before =>
        obtain rfl : hf = hFile := handle
        obtain ⟨stored, read, mark⟩ := held
        cases slot.symm.trans read
        omega
      | duplicating reserved source target =>
        obtain rfl : target = hFile := handle
        obtain ⟨_, stored, read, mark⟩ := held
        cases slot.symm.trans read
        cases reserved <;> simp at mark <;> omega
      | closing target fd =>
        obtain rfl : target = hFile := handle
        exact (apart other).1 fd taken
      | clearing target =>
        obtain rfl : target = hFile := handle
        exact (apart other).2 taken
    have fresh : ¬ s.Stale hFile := by
      intro stale
      obtain ⟨other, taken⟩ := stale
      exact (apart other).2 taken
    have done := begin_step consistent idle slot (.closing hFile info.fd.toNat) rfl
      ⟨info, slot, number, by omega⟩ (by simp) (by omega) fresh alone
    have stepped : stepHandles limit s (.beginClose thread hFile) =
        some (s.goesOn thread (some (.closing hFile info.fd.toNat)), none) := by
      simp only [stepHandles, same, if_neg invalid, if_neg standard]
    exact ⟨_, _, stepped, done.2, done.1⟩

/-- The descriptor of a handle is closed, which its slot does not say yet. -/
theorem closeDescriptor_progresses (consistent : HandlesConsistent foreign s)
    (issued : (HandleAction.closeDescriptor thread).Issued s) :
    Progresses limit foreign s (.closeDescriptor thread) := by
  obtain ⟨hFile, fd, taken⟩ := issued
  obtain ⟨info, slot, number, above⟩ := consistent.held thread _ taken
  obtain ⟨inside, _⟩ := List.getElem?_eq_some_iff.mp slot
  have alone : ∀ other call, other ≠ thread → s.calls other = some call → call.handle ≠ hFile :=
    fun other call away also same => away (consistent.alone also taken same)
  have fresh : ¬ s.Stale hFile := by
    rintro ⟨other, clearing⟩
    obtain rfl := consistent.alone taken clearing rfl
    cases taken.symm.trans clearing
  have owned : s.owned hFile = some fd := (owned_slot fresh slot).trans (descriptor_of_nat number)
  have opened := (consistent.open_of_owned owned).2
  have stepped : stepHandles limit s (.closeDescriptor thread) =
      some (HandleState.goesOn { s with host := closeFd fd s.host } thread
        (some (.clearing hFile)), none) := by
    simp only [stepHandles, taken, if_pos opened]
  have step : SlotStep s (HandleState.goesOn { s with host := closeFd fd s.host } thread
      (some (.clearing hFile))) thread hFile info (some (.clearing hFile)) := by
    refine ⟨(setSlot_same slot).symm, rfl, inside, ?_, ?_, alone, fun negative => by omega⟩
    · intro call before
      cases taken.symm.trans before
      rfl
    · intro call after
      cases after
      exact ⟨rfl, info, slot, by omega⟩
  have idle : HandleState.owned (HandleState.goesOn { s with host := closeFd fd s.host } thread
      (some (.clearing hFile))) hFile = none := by
    unfold HandleState.owned
    exact if_pos (step.stale_self.mpr rfl)
  have done := step.releases consistent owned rfl idle
  refine ⟨_, _, stepped, ?_, done.1⟩
  intro hFile' fd' also
  cases taken.symm.trans also
  exact done.2

/-- Closing a handle ends. -/
theorem endClose_progresses (consistent : HandlesConsistent foreign s)
    (issued : (HandleAction.endClose thread).Issued s) :
    Progresses limit foreign s (.endClose thread) := by
  obtain ⟨hFile, taken⟩ := issued
  obtain ⟨info, slot, positive⟩ := consistent.held thread _ taken
  obtain ⟨inside, _⟩ := List.getElem?_eq_some_iff.mp slot
  have alone : ∀ other call, other ≠ thread → s.calls other = some call → call.handle ≠ hFile :=
    fun other call away also same => away (consistent.alone also taken same)
  have stepped : stepHandles limit s (.endClose thread) =
      some (HandleState.goesOn
        { s with table := s.table.setSlot hFile { info with fd := -1, type := 0, attr := 0 } }
        thread none, some ⟨.noError, none⟩) := by
    simp only [stepHandles, taken, slot]
  have step : SlotStep s (HandleState.goesOn
      { s with table := s.table.setSlot hFile { info with fd := -1, type := 0, attr := 0 } }
      thread none) thread hFile { info with fd := -1, type := 0, attr := 0 } none := by
    refine ⟨rfl, rfl, inside, ?_, ?_, alone, fun _ unusual => absurd rfl unusual⟩
    · intro call before
      cases taken.symm.trans before
      rfl
    · intro call after
      cases after
  have before : s.owned hFile = none := by
    unfold HandleState.owned
    exact if_pos ⟨thread, taken⟩
  have done := step.idle consistent rfl (by
    rw [step.owned_self (by simp), before]
    exact descriptor_negative (show (-1 : Int) < 0 by decide))
  exact ⟨_, _, stepped, done.2, done.1⟩

/-- The path behind the descriptor of a slot. -/
theorem descriptor_path (info : HFileInfo) (h : Host) :
    info.descriptor.bind h.descriptors = pathOf info.fd h := by
  unfold HFileInfo.descriptor pathOf
  split <;> rfl

/-- A duplicate ends. -/
theorem endDup_progresses (consistent : HandlesConsistent foreign s)
    (issued : (HandleAction.endDup thread).Issued s) :
    Progresses limit foreign s (.endDup thread) := by
  obtain ⟨reserved, hFile, i, taken⟩ := issued
  obtain ⟨source, info, slot, mark⟩ := consistent.held thread _ taken
  obtain ⟨inside, _⟩ := List.getElem?_eq_some_iff.mp slot
  have negative : info.fd < 0 := by
    rw [mark]
    cases reserved <;> decide
  have unowned := consistent.unowned slot negative
  have no_file : s.file i = none := by
    unfold HandleState.file
    rw [unowned.2]
    rfl
  have alone : ∀ other call, other ≠ thread → s.calls other = some call → call.handle ≠ i :=
    fun other call away also same => away (consistent.alone also taken same)
  have writes : ∀ host written, (written.fd < 0 → written.fd = -1) →
      SlotStep s (HandleState.goesOn { s with host, table := s.table.setSlot i written } thread none)
        thread i written none := by
    intro host written marks
    refine ⟨rfl, rfl, inside, ?_, ?_, alone, fun negative unusual => absurd (marks negative) unusual⟩
    · intro call before
      cases taken.symm.trans before
      rfl
    · intro call after
      cases after
  have read := List.getElem?_eq_getElem source
  -- Unless it is stale, the old handle leads to the file behind its slot.
  have leads : ¬ s.Stale hFile → s.file hFile = pathOf (s.table.hFiles[hFile]).fd s.host := by
    intro fresh
    unfold HandleState.file
    rw [owned_slot fresh read, descriptor_path]
  cases copied : dup (s.table.hFiles[hFile]).fd limit s.host with
  | ok answer =>
    obtain ⟨host, fd⟩ := answer
    obtain ⟨path_same, opened, unused, _, others⟩ := dup_spec copied
    obtain ⟨path, behind⟩ := Option.isSome_iff_exists.mp opened
    have host' : host.descriptors = Function.update s.host.descriptors fd (some path) := by
      funext other
      rw [Function.update_apply]
      split
      · next same =>
        rw [same, ← behind, ← path_same]
        exact (if_pos (Int.natCast_nonneg fd)).symm
      · next away => exact others other away
    have stepped : stepHandles limit s (.endDup thread) = some (HandleState.goesOn
        { s with host, table := s.table.setSlot i { s.table.hFiles[hFile] with fd := fd } } thread none,
          some ⟨.noError, some i⟩) := by
      simp only [stepHandles, taken, copySlot_inside read inside, copied, Option.map_some]
    have marks : ({ s.table.hFiles[hFile] with fd := fd } : HFileInfo).fd < 0 →
        ({ s.table.hFiles[hFile] with fd := fd } : HFileInfo).fd = -1 :=
      fun negative => absurd negative (Int.not_lt.mpr (Int.natCast_nonneg fd))
    have done := (writes host _ marks).acquires consistent unused host' unowned.2
      (((writes host _ marks).owned_self (by simp)).trans (descriptor_of_nat rfl))
    refine ⟨_, _, stepped, ?_, done.1⟩
    intro reserved' hFile' i' also
    cases taken.symm.trans also
    exact ⟨no_file, some path, done.2, fun fresh _ => (behind.symm.trans (leads fresh).symm)⟩
  | error err =>
    have stepped : stepHandles limit s (.endDup thread) = some (HandleState.goesOn
        { s with table := s.table.setSlot i { s.table.hFiles[hFile] with fd := -1 } } thread none,
          some ⟨.noError, some i⟩) := by
      simp only [stepHandles, taken, copySlot_inside read inside, copied, Option.map_some]
    have done := (writes s.host { s.table.hFiles[hFile] with fd := -1 } fun _ => rfl).idle consistent rfl
      (by
        rw [(writes s.host { s.table.hFiles[hFile] with fd := -1 } fun _ => rfl).owned_self (by simp),
          unowned.2]
        exact descriptor_negative (show (-1 : Int) < 0 by decide))
    refine ⟨_, _, stepped, ?_, done.1⟩
    intro reserved' hFile' i' also
    cases taken.symm.trans also
    refine ⟨no_file, none, ?_, fun fresh room => ?_⟩
    · rw [← no_file, Function.update_eq_self]
      exact done.2
    · -- With a descriptor left, the old handle was not open.
      rw [leads fresh]
      by_contra opened
      have both : (pathOf (s.table.hFiles[hFile]).fd s.host).isSome :=
        Option.isSome_iff_ne_none.mpr fun none_there => opened none_there.symm
      obtain ⟨answer, works⟩ := (dup_ok_iff _ limit s.host).mpr ⟨both, room⟩
      rw [copied] at works
      cases works

/-- A table that keeps its slots and gets free ones behind them leaves everything as it is. -/
theorem grown_consistent (consistent : HandlesConsistent foreign s) {u : HandleTable} {incr : Nat}
    (grown : TableGrown incr s.table u) (sized : u.Sized) :
    HandlesConsistent foreign { s with table := u } ∧
      HandleState.file { s with table := u } = s.file := by
  have old : ∀ {j}, j < s.table.hFiles.length → u.hFiles[j]? = s.table.hFiles[j]? :=
    fun inside => grown.kept _ (consistent.sized.slots ▸ inside)
  have added : ∀ {j info}, ¬ j < s.table.hFiles.length → u.hFiles[j]? = some info → info.fd = -1 := by
    intro j info outside read
    obtain ⟨inside, _⟩ := List.getElem?_eq_some_iff.mp read
    rw [sized.slots, grown.grown] at inside
    rw [consistent.sized.slots] at outside
    obtain ⟨free, read', unused⟩ := grown.added j (by omega) inside
    cases read.symm.trans read'
    exact unused
  have longer : s.table.hFiles.length ≤ u.hFiles.length := by
    rw [sized.slots, consistent.sized.slots, grown.grown]
    omega
  have held : ∀ thread call, s.calls thread = some call → call.Held u := by
    intro thread call taken
    have before := consistent.held thread call taken
    have inside : call.handle < s.table.hFiles.length := by
      cases call with
      | opening a access unixpath hf info =>
        obtain ⟨stored, read, _⟩ := before
        exact (List.getElem?_eq_some_iff.mp read).1
      | duplicating reserved hFile i =>
        obtain ⟨_, stored, read, _⟩ := before
        exact (List.getElem?_eq_some_iff.mp read).1
      | closing hFile fd =>
        obtain ⟨stored, read, _⟩ := before
        exact (List.getElem?_eq_some_iff.mp read).1
      | clearing hFile =>
        obtain ⟨stored, read, _⟩ := before
        exact (List.getElem?_eq_some_iff.mp read).1
    exact before.congr (old inside) longer
  have owned : HandleState.owned { s with table := u } = s.owned := by
    funext j
    have same : u.hFiles[j]?.bind HFileInfo.descriptor =
        s.table.hFiles[j]?.bind HFileInfo.descriptor := by
      by_cases inside : j < s.table.hFiles.length
      · rw [old inside]
      · rw [List.getElem?_eq_none (Nat.not_lt.mp inside)]
        cases read : u.hFiles[j]? with
        | none => rfl
        | some info =>
          have unused := added inside read
          exact descriptor_negative (by omega)
    unfold HandleState.owned
    by_cases stale : s.Stale j
    · exact (if_pos stale).trans (if_pos stale).symm
    · exact (if_neg stale).trans (same.trans (if_neg stale).symm)
  refine ⟨⟨sized, ?_, held, consistent.alone, ?_, consistent.kept⟩, ?_⟩
  · intro j info read negative unusual
    by_cases inside : j < s.table.hFiles.length
    · exact consistent.marked j info ((old inside).symm.trans read) negative unusual
    · exact absurd (added inside read) unusual
  · rw [owned]
    exact consistent.owns
  · unfold HandleState.file
    rw [owned]

/-- The length of a list that has the places up to some number. -/
theorem length_of_places {block : List HFileInfo} {n : Nat} (inside : ∀ j < n, (block[j]?).isSome)
    (outside : block[n]? = none) : block.length = n := by
  refine Nat.le_antisymm (List.getElem?_eq_none_iff.mp outside) ?_
  by_contra short
  have last := inside block.length (Nat.lt_of_not_le short)
  rw [List.getElem?_eq_none (Nat.le_refl _)] at last
  cases last

/-- Setting the size of the table leaves everything as it is. -/
theorem setMax_consistent (consistent : HandlesConsistent foreign s)
    (memory : Option (Nat → HFileInfo)) {cFH : Nat} (small : cFH < 2 ^ 28) :
    ∃ u ret, DosSetMaxFH memory cFH s.table = some (u, ret) ∧
      HandlesConsistent foreign { s with table := u } ∧
      HandleState.file { s with table := u } = s.file := by
  by_cases shrinks : cFH < s.table.maxHFiles
  · exact ⟨s.table, .errorInvalidParameter, if_pos shrinks, consistent, rfl⟩
  by_cases same : cFH = s.table.maxHFiles
  · refine ⟨s.table, .noError, ?_, consistent, rfl⟩
    rw [DosSetMaxFH, if_neg shrinks, if_pos same]
  cases memory with
  | none =>
    have some_bytes : tableBytes cFH ≠ 0 := by
      rw [tableBytes_slots, Nat.mod_eq_of_lt small, sizeofHFileInfo]
      omega
    refine ⟨s.table, .noError, ?_, consistent, rfl⟩
    simp only [DosSetMaxFH, if_neg shrinks, if_neg same, reallocHFiles, if_neg some_bytes]
  | some contents =>
    obtain ⟨incr, rfl⟩ : ∃ incr, cFH = s.table.maxHFiles + incr :=
      ⟨cFH - s.table.maxHFiles, by omega⟩
    obtain ⟨block, set, slots⟩ := @DosSetMaxFH_moved contents incr s.table (by omega) small
    have grown := tableGrown_of_slots consistent.sized.slots slots
    have length : block.length = s.table.maxHFiles + incr := by
      refine length_of_places (fun j inside => ?_) ?_
      · rw [slots j]
        split
        · rfl
        · rw [grownBlock_get inside]
          rfl
      · rw [slots, if_neg (by omega), List.getElem?_eq_none (by simp)]
    have sized : HandleTable.Sized ⟨block, s.table.maxHFiles + incr⟩ := by
      refine ⟨length, ?_⟩
      show sizeofHFileInfo * (s.table.maxHFiles + incr) < 2 ^ 32
      unfold sizeofHFileInfo
      omega
    exact ⟨_, _, set, grown_consistent consistent grown sized⟩

/-- Setting the size of the table. -/
theorem setMax_progresses (consistent : HandlesConsistent foreign s)
    (memory : Option (Nat → HFileInfo)) {cFH : Nat} (small : cFH < 2 ^ 28) :
    Progresses limit foreign s (.setMax memory cFH) := by
  obtain ⟨u, ret, set, kept, files⟩ := setMax_consistent consistent memory small
  have stepped : stepHandles limit s (.setMax memory cFH) =
      some ({ s with table := u }, some ⟨ret, none⟩) := by
    simp only [stepHandles, set, Option.map_some]
  exact ⟨_, _, stepped, files, kept⟩

/-- Growing the table by a number that is harmless to grow it by. -/
theorem setRelMax_progresses (consistent : HandlesConsistent foreign s)
    {memory : Option (Nat → HFileInfo)} {pincr : Option Int}
    (harmless : (HandleAction.setRelMax memory pincr).Harmless s) :
    Progresses limit foreign s (.setRelMax memory pincr) := by
  have stays : ∀ current, DosSetRelMaxFH memory pincr s.table = some (s.table, current) →
      Progresses limit foreign s (.setRelMax memory pincr) := by
    intro current set
    have stepped : stepHandles limit s (.setRelMax memory pincr) =
        some (s, some ⟨.noError, none⟩) := by
      simp only [stepHandles, set, Option.map_some]
    exact ⟨s, _, stepped, rfl, consistent⟩
  cases pincr with
  | none => exact stays _ rfl
  | some incr =>
    by_cases positive : 0 < incr
    · obtain ⟨n, rfl⟩ : ∃ n : Nat, incr = n := ⟨incr.toNat, by omega⟩
      have some_slots : 0 < n := by omega
      have condition : RelGrowthHarmless memory n s.table := harmless n rfl positive
      cases memory with
      | none =>
        -- Without memory nothing grows.
        obtain ⟨u, current, ret, rel, _, same, _⟩ := (growsAlike_none_iff some_slots).mpr condition
        rw [same rfl] at rel
        exact stays current rel
      | some contents =>
        obtain ⟨u, current, ret, rel, absolute, _⟩ :=
          (growsAlike_moved_iff consistent.sized.slots some_slots condition.1).mpr condition.2
        obtain ⟨v, ret', set, kept, files⟩ :=
          setMax_consistent consistent (some contents) condition.1
        cases absolute.symm.trans set
        have stepped : stepHandles limit s (.setRelMax (some contents) (some n)) =
            some ({ s with table := u }, some ⟨.noError, none⟩) := by
          simp only [stepHandles, rel, Option.map_some]
        exact ⟨_, _, stepped, files, kept⟩
    · exact stays s.table.maxHFiles (if_pos positive)

/-- Every step that comes, and is harmless, is good. -/
theorem step_progresses (consistent : HandlesConsistent foreign s) {action : HandleAction}
    (issued : action.Issued s) (harmless : action.Harmless s) :
    Progresses limit foreign s action := by
  cases action with
  | beginOpen thread a unixpath => exact beginOpen_progresses consistent issued
  | endOpen thread next => exact endOpen_progresses consistent issued
  | beginDup thread hFile pHfile => exact beginDup_progresses consistent issued
  | endDup thread => exact endDup_progresses consistent issued
  | beginClose thread hFile => exact beginClose_progresses consistent issued
  | closeDescriptor thread => exact closeDescriptor_progresses consistent issued
  | endClose thread => exact endClose_progresses consistent issued
  | setMax memory cFH => exact setMax_progresses consistent memory harmless
  | setRelMax memory pincr => exact setRelMax_progresses consistent harmless

end Actions

section Uninterrupted

variable {limit thread : Nat} {s : HandleState}

/-- A thread that ends its call is in none. -/
theorem goesOn_back (idle : s.calls thread = none) (host : Host) (table : HandleTable)
    (first : HandleTable) (call : HandleCall) :
    HandleState.goesOn { HandleState.goesOn { s with table := first } thread (some call) with
      host, table } thread none = { s with host, table } := by
  unfold HandleState.goesOn
  rw [Function.update_idem, ← idle, Function.update_eq_self]

/-- An open call that nothing comes between, and that gets as far as a slot. -/
theorem open_uninterrupted (idle : s.calls thread = none) {a : OpenArgs} {access : Access}
    (passes : a.accepted = .ok access) {hf : Nat} (search : s.table.freeSlot = some hf)
    (unixpath : Except PathError String) (next : Nat) :
    runFrom (stepHandles limit) s [.beginOpen thread a unixpath, .endOpen thread next] =
      some { s with
        host := (doDosOpen a unixpath next s.host s.table).host
        table := (doDosOpen a unixpath next s.host s.table).table } := by
  obtain ⟨info, slot, _⟩ := freeSlot_spec search
  have whole : doDosOpen a unixpath next s.host s.table = openRest a access unixpath next hf info
      s.host (s.table.setSlot hf { info with fd := -2 }) := by
    cases unixpath with
    | error error => simp only [doDosOpen, openRest, passes, search, slot]
    | ok path => simp only [doDosOpen, openRest, passes, search, slot]
  have begins : stepHandles limit s (.beginOpen thread a unixpath) = some (HandleState.goesOn
      { s with table := s.table.setSlot hf { info with fd := -2 } } thread
        (some (.opening a access unixpath hf info)), none) := by
    simp only [stepHandles, passes, search, slot]
  have taken : (HandleState.goesOn { s with table := s.table.setSlot hf { info with fd := -2 } }
      thread (some (.opening a access unixpath hf info))).calls thread =
        some (.opening a access unixpath hf info) := Function.update_self _ _ _
  simp only [runFrom, begins]
  rw [stepHandles, taken]
  dsimp only
  rw [goesOn_back idle, whole]
  rfl

/-- A duplicate that nothing comes between, and that has a slot. -/
theorem dup_uninterrupted (sized : s.table.Sized) (idle : s.calls thread = none)
    {hFile pHfile slot : Nat} (target : targetSlot s.table pHfile = some slot) :
    runFrom (stepHandles limit) s [.beginDup thread hFile pHfile, .endDup thread] =
      (DosDupHandle limit hFile pHfile s.host s.table).map fun out =>
        { s with host := out.host, table := out.table } := by
  obtain ⟨info, read, free⟩ := targetSlot_spec sized target
  rw [dupHandle_slot sized target, Option.map_map]
  -- Whether the slot was reserved makes no difference to the copy.
  have ends : ∀ first reserved, copySlot limit hFile slot s.host first =
      copySlot limit hFile slot s.host s.table →
        runFrom (stepHandles limit) (HandleState.goesOn { s with table := first } thread
          (some (.duplicating reserved hFile slot))) [.endDup thread] =
            (copySlot limit hFile slot s.host s.table).map fun copied =>
              { s with host := copied.1, table := copied.2 } := by
    intro first reserved same
    have taken : (HandleState.goesOn { s with table := first } thread
        (some (.duplicating reserved hFile slot))).calls thread =
          some (.duplicating reserved hFile slot) := Function.update_self _ _ _
    have ended : stepHandles limit (HandleState.goesOn { s with table := first } thread
        (some (.duplicating reserved hFile slot))) (.endDup thread) =
          (copySlot limit hFile slot s.host s.table).map fun copied =>
            ({ s with host := copied.1, table := copied.2 }, some ⟨.noError, some slot⟩) := by
      rw [stepHandles, taken, ← same]
      refine congrArg (Option.map · _) (funext fun copied => ?_)
      exact Prod.ext (goesOn_back idle copied.1 copied.2 first _) rfl
    simp only [runFrom, ended]
    cases copySlot limit hFile slot s.host s.table <;> rfl
  unfold targetSlot at target
  split at target
  · next any =>
    have begins : stepHandles limit s (.beginDup thread hFile pHfile) = some (HandleState.goesOn
        { s with table := s.table.setSlot slot { info with fd := -2 } } thread
          (some (.duplicating true hFile slot)), none) := by
      simp only [stepHandles, if_pos any, target, read]
    rw [runFrom, begins]
    exact ends _ true (copySlot_reserved read free)
  · next certain =>
    split at target
    · cases target
      have begins : stepHandles limit s (.beginDup thread hFile pHfile) = some (HandleState.goesOn
          { s with table := s.table } thread (some (.duplicating false hFile pHfile)), none) := by
        simp only [stepHandles, if_neg certain, read, if_neg (not_not.mpr free)]
      rw [runFrom, begins]
      exact ends s.table false rfl
    · cases target

end Uninterrupted

section Runs

/-- The host with the table that the library starts with, and no thread in a call. -/
def startHandles (h : Host) : HandleState := ⟨h, initialTable h, fun _ => none⟩

/-- The descriptors that a process has at first, besides standard input and output. -/
def inherited (h : Host) (d : Nat) : Option String := if d ≤ 2 then none else h.descriptors d

/-- Standard input and output lead to files, so far as they are open. -/
def StandardFiles (h : Host) : Prop :=
  ∀ d ≤ 2, ∀ path, h.descriptors d = some path → (h.files path).isSome

variable {h : Host} {s : HandleState} {foreign : Nat → Option String}

/-- The first slots have standard input and output, so far as they are open. -/
theorem initHFileInfo_standard (standard : StandardFiles h) {d : Nat} (low : d ≤ 2) :
    (initHFileInfoFromUnixFd d h).descriptor = (h.descriptors d).map fun _ => d := by
  cases opened : h.descriptors d with
  | none =>
    have closed : initHFileInfoFromUnixFd d h = .unused := by
      have stat : fstat d h = none := by simp [fstat, pathOf, opened]
      simp [initHFileInfoFromUnixFd, stat]
    rw [closed]
    rfl
  | some path =>
    obtain ⟨file, found⟩ := Option.isSome_iff_exists.mp (standard d low path opened)
    rw [initHFileInfo_open opened found]
    exact descriptor_of_nat rfl

/-- The slots of the first table. -/
theorem initialTable_slots (h : Host) (i : Nat) :
    (initialTable h).hFiles[i]? =
      if i ≤ 2 then some (initHFileInfoFromUnixFd i h)
      else if i < defaultMaxHFiles then some .unused else none := by
  unfold initialTable
  by_cases low : i ≤ 2
  · rw [if_pos low, List.getElem?_append_left (by simp; omega), List.getElem?_map,
      List.getElem?_range (by omega)]
    rfl
  · rw [if_neg low, List.getElem?_append_right (by simp; omega), List.length_map, List.length_range,
      List.getElem?_replicate]
    refine if_congr ?_ rfl rfl
    unfold defaultMaxHFiles
    omega

/-- What handles own at first. -/
theorem startHandles_owned (standard : StandardFiles h) (i : Nat) :
    (startHandles h).owned i = if i ≤ 2 then (h.descriptors i).map fun _ => i else none := by
  have fresh : ¬ (startHandles h).Stale i := fun ⟨thread, taken⟩ => by cases taken
  have slot := initialTable_slots h i
  unfold HandleState.owned
  rw [if_neg fresh]
  show (initialTable h).hFiles[i]?.bind _ = _
  rw [slot]
  split
  · next low => exact initHFileInfo_standard standard low
  · split
    · rfl
    · rfl

/-- The state that the library starts with is consistent. -/
theorem startHandles_consistent (standard : StandardFiles h) :
    HandlesConsistent (inherited h) (startHandles h) := by
  have sized : (startHandles h).table.Sized :=
    ⟨rfl, show sizeofHFileInfo * defaultMaxHFiles < 2 ^ 32 by decide⟩
  refine ⟨sized, ?_, ?_, ?_, ⟨?_, ?_⟩, ?_⟩
  · intro i info slot negative unusual
    have slots := (initialTable_slots h i).symm.trans slot
    -- Whatever is recorded at first is a descriptor, or a free slot.
    have mark : info.fd = -1 := by
      split at slots
      · cases slots
        unfold initHFileInfoFromUnixFd at negative ⊢
        split
        · next stat =>
          rw [stat] at negative
          exact absurd negative (Int.not_lt.mpr (Int.natCast_nonneg i))
        · rfl
      · split at slots
        · cases slots
          rfl
        · cases slots
    exact absurd mark unusual
  · exact fun thread call taken => by cases taken
  · exact fun taken => by cases taken
  · intro i j d first second
    rw [startHandles_owned standard] at first second
    split at first
    · obtain ⟨_, _, rfl⟩ := Option.map_eq_some_iff.mp first
      split at second
      · obtain ⟨_, _, same⟩ := Option.map_eq_some_iff.mp second
        exact same.symm
      · cases second
    · cases first
  · intro d
    show (inherited h d = none ∧ (h.descriptors d).isSome) ↔ _
    constructor
    · rintro ⟨unknown, opened⟩
      have low : d ≤ 2 := by
        by_contra high
        rw [inherited, if_neg high] at unknown
        rw [unknown] at opened
        cases opened
      obtain ⟨path, leads⟩ := Option.isSome_iff_exists.mp opened
      refine ⟨d, ?_⟩
      rw [startHandles_owned standard, if_pos low, leads]
      rfl
    · rintro ⟨i, owned⟩
      rw [startHandles_owned standard] at owned
      split at owned
      · next low =>
        obtain ⟨path, leads, rfl⟩ := Option.map_eq_some_iff.mp owned
        exact ⟨if_pos low, Option.isSome_iff_exists.mpr ⟨path, leads⟩⟩
      · cases owned
  · intro d path known
    unfold inherited at known
    split at known
    · cases known
    · exact known

/-- Opening a file that exists, to read it. -/
def readingArgs : OpenArgs := { fsOpenFlags := openActionOpenIfExists }

/-- A host on which every file exists, with standard input and output. -/
def readingHost : Host where
  files _ := some {}
  descriptors d := if d ≤ 2 then some "con" else none

/-- One thread opens a file while another one opens a file and closes it again. -/
def readingActions : List HandleAction :=
  [.beginOpen 0 readingArgs (.ok "a"), .beginOpen 1 readingArgs (.ok "b"), .endOpen 1 3,
    .beginClose 1 4, .endOpen 0 4, .closeDescriptor 1, .endClose 1]

/-- These threads are kept apart. -/
theorem readingActions_issued :
    Each (stepHandles 20) (fun s action => action.Issued s) (startHandles readingHost)
      readingActions := by
  refine .cons rfl ⟨rfl, fun _ _ _ taken => nomatch taken⟩ (.cons rfl ⟨rfl, ?_⟩
    (.cons rfl ⟨⟨_, _, _, _, _, rfl⟩, rfl⟩ (.cons rfl ⟨rfl, ?_⟩
      (.cons rfl ⟨⟨_, _, _, _, _, rfl⟩, rfl⟩ (.cons rfl ⟨_, _, rfl⟩ (.cons rfl ⟨_, rfl⟩ trivial))))))
  · -- The other thread opens a file, and duplicates no handle.
    intro thread hFile i taken
    change Function.update _ 0 _ thread = _ at taken
    rw [Function.update_apply] at taken
    split at taken <;> cases taken
  · -- No thread closes a handle yet.
    intro thread
    have opening : ∀ call, call.reserves = false →
        (Function.update (Function.update (Function.update (fun _ => none) 0
          (some (.opening readingArgs .rdonly (.ok "a") 3 .unused))) 1
            (some (.opening readingArgs .rdonly (.ok "b") 4 .unused))) 1 none :
              Nat → Option HandleCall) thread ≠ some call := by
      intro call unreserved taken
      simp only [Function.update_apply] at taken
      split at taken
      · cases taken
      · split at taken
        · cases taken
          exact Bool.noConfusion unreserved
        · cases taken
    exact ⟨fun fd => opening (.closing 4 fd) rfl, opening (.clearing 4) rfl⟩

/-- Nothing that these threads do makes the table grow. -/
theorem readingActions_harmless :
    Each (stepHandles 20) (fun s action => action.Harmless s) (startHandles readingHost)
      readingActions :=
  .cons rfl trivial (.cons rfl trivial (.cons rfl trivial (.cons rfl trivial (.cons rfl trivial
    (.cons rfl trivial (.cons rfl trivial trivial))))))

/-- Every file of the host exists. -/
theorem readingHost_standard : StandardFiles readingHost := fun _ _ _ _ => rfl

/-- Closing the descriptors of slots closes those above standard input and output, and no others. -/
theorem closeSlots_descriptors (slots : List HFileInfo) (h : Host) (d : Nat) :
    (closeSlots slots h).descriptors d =
      if 2 < d ∧ ∃ info ∈ slots, info.fd = d then none else h.descriptors d := by
  induction slots generalizing h with
  | nil => simp [closeSlots]
  | cons info rest ih =>
    rw [closeSlots, ih]
    by_cases later : 2 < d ∧ ∃ info ∈ rest, info.fd = d
    · obtain ⟨above, other, member, same⟩ := later
      rw [if_pos ⟨above, other, member, same⟩,
        if_pos ⟨above, other, List.mem_cons_of_mem _ member, same⟩]
    rw [if_neg later]
    by_cases here : 2 < d ∧ info.fd = d
    · have closes : 2 < info.fd := by omega
      rw [if_pos closes, if_pos ⟨here.1, info, List.mem_cons_self, here.2⟩]
      have number : info.fd.toNat = d := by omega
      rw [number]
      exact Function.update_self _ _ _
    · have stays : ¬ (2 < d ∧ ∃ other ∈ info :: rest, other.fd = d) := by
        rintro ⟨above, other, member, same⟩
        rcases List.mem_cons.mp member with rfl | behind
        · exact here ⟨above, same⟩
        · exact later ⟨above, other, behind, same⟩
      rw [if_neg stays]
      split
      · refine Function.update_of_ne ?_ _ _
        omega
      · rfl

/-- With no thread in a call, the slots of the table have the descriptors that handles own. -/
theorem slots_owned (consistent : HandlesConsistent foreign s) (idle : ∀ thread, s.calls thread = none)
    (d : Nat) : (∃ info ∈ s.table.hFiles.take s.table.maxHFiles, info.fd = d) ↔
      s.uses foreign d := by
  have whole : s.table.hFiles.take s.table.maxHFiles = s.table.hFiles := by
    rw [← consistent.sized.slots, List.take_length]
  have fresh : ∀ i, ¬ s.Stale i := by
    rintro i ⟨thread, taken⟩
    rw [idle thread] at taken
    cases taken
  rw [whole, consistent.owns.used_iff]
  constructor
  · rintro ⟨info, member, same⟩
    obtain ⟨i, slot⟩ := List.mem_iff_getElem?.mp member
    exact ⟨i, (owned_slot (fresh i) slot).trans (descriptor_of_nat same)⟩
  · rintro ⟨i, owned⟩
    cases slot : s.table.hFiles[i]? with
    | none =>
      unfold HandleState.owned at owned
      rw [if_neg (fresh i), slot] at owned
      cases owned
    | some info =>
      rw [owned_slot (fresh i) slot] at owned
      refine ⟨info, List.mem_of_getElem? slot, ?_⟩
      unfold HFileInfo.descriptor at owned
      split at owned
      · cases owned
        omega
      · cases owned

end Runs

end TwoIne
