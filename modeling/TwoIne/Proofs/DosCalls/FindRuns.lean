import TwoIne.Lib.Runs
import TwoIne.Proofs.DosCalls.FindAccounts

/-!
Runs of searches: what is returned is what there is, exactly if every call has room for what is due.
-/

namespace TwoIne

/-- A search that has a directory open. -/
def FindState.Searches (s : FindState) (ref : FinderRef) (dirf : DirFinder) (dirp : DirStream) :
    Prop :=
  s.finder ref = some dirf ∧ dirf.dirp = some dirp

/-- No search is in memory that is not taken yet. -/
def FindState.Fresh (s : FindState) : Prop :=
  ∀ id dirf, s.finder (.block id) = some dirf → id < s.allocated

/--
The state of the searches, with the entries that each search is for and those that were returned,
by the number of the directory that it has open.
-/
structure FindRun where
  state : FindState := {}
  due : Nat → List DirEntry := fun _ => []
  returned : Nat → List DirEntry := fun _ => []

/-- The calls on searches, and what the host does during them. -/
inductive SearchCall where
  | look (host : FindHost) (call : FindCall)
  | close (hDir : Hdir)

/-- The number of the directory that a call looks through. -/
def FindCall.directory (s : FindState) : FindCall → Nat
  | .first _ => s.opened
  | .next args =>
    match args.hDir with
    | .finder ref => (((s.finder ref).bind DirFinder.dirp).map DirStream.id).getD 0
    | _ => 0

/-- A directory that is opened has all entries due that its search is for. -/
def FindRun.enter (r : FindRun) (q : Search) : FindCall → FindRun
  | .first _ =>
    { r with
        due := Function.update r.due r.state.opened (wantedEntries q.attr q.pattern q.entries)
        returned := Function.update r.returned r.state.opened [] }
  | .next _ => r

/-- Returning entries of a directory. -/
def FindRun.return (r : FindRun) (id : Nat) (found : List Found) : FindRun :=
  { r with
      returned := Function.update r.returned id (r.returned id ++ found.map Found.entry) }

/-- One call. -/
def findRunStep (r : FindRun) : SearchCall → Option (FindRun × FindAnswer)
  | .look host call =>
    (call.make host r.state).map fun (t, out) =>
      match call.search host r.state with
      | none => ({ r with state := t }, out)
      | some q =>
        ({ (r.enter q call).return (call.directory r.state) out.found with state := t }, out)
  | .close hDir => (DosFindClose hDir r.state).map fun (t, out) => ({ r with state := t }, out)

/-- A handle is one of the numbers with a meaning, or a search that was started and not given up. -/
def Hdir.Valid (s : FindState) : Hdir → Prop
  | .wild => False
  | .finder ref => ∃ dirf level, s.finder ref = some dirf ∧ dirf.level = some level
  | _ => True

/-- A call uses a handle that it was given. -/
def SearchCall.May (r : FindRun) : SearchCall → Prop
  | .look _ (.first args) => ∀ hdir, args.phdir = some hdir → hdir.Valid r.state
  | .look _ (.next args) => args.hDir.Valid r.state
  | .close hDir => hDir.Valid r.state

/--
What is returned and what is still to be read make up what is due, for every directory that is open,
and every directory that was opened is either open for one search or was closed once.
-/
structure FindRun.Good (r : FindRun) : Prop where
  opened : ∀ ref dirf dirp, r.state.Searches ref dirf dirp →
    dirp.id < r.state.opened ∧ dirp.id ∉ r.state.closed
  level : ∀ ref dirf dirp, r.state.Searches ref dirf dirp →
    dirf.level = some .standard ∨ dirf.level = some .sixteen
  complete : ∀ ref dirf dirp, r.state.Searches ref dirf dirp →
    r.returned dirp.id ++ wantedEntries dirf.attr dirf.pattern dirp.entries = r.due dirp.id
  apart : ∀ ref dirf dirp other dirg dirq, r.state.Searches ref dirf dirp →
    r.state.Searches other dirg dirq → dirp.id = dirq.id → ref = other
  once : r.state.closed.Nodup
  closed : ∀ id ∈ r.state.closed, id < r.state.opened
  held : ∀ id < r.state.opened, id ∉ r.state.closed →
    ∃ ref dirf dirp, r.state.Searches ref dirf dirp ∧ dirp.id = id
  fresh : r.state.Fresh

/--
What a call has to do: its records are in its buffer and separate, it reports how many they are, and
if it says that there are no more then all that was due was returned, and its directory is closed.
-/
def SearchCall.Right (r : FindRun) (call : SearchCall) (t : FindRun) (out : FindAnswer) : Prop :=
  match call with
  | .look host call =>
    ∀ q, call.search host r.state = some q →
      Separate q.level call.cbBuf out.found ∧ out.count = some out.found.length ∧
        (out.ret = .errorNoMoreFiles →
          t.returned (call.directory r.state) = t.due (call.directory r.state) ∧
            call.directory r.state ∈ t.state.closed)
  | .close _ => True

/-- The condition: a call has room for all that is due. -/
def SearchCall.Cond (r : FindRun) : SearchCall → Prop
  | .look host call => ∀ q, call.search host r.state = some q → RoomForDue q call.cbBuf
  | .close _ => True

variable {s t : FindState} {ref : FinderRef} {dirf : DirFinder} {dirp : DirStream} {r : FindRun}

/-- A search that is changed is found as it is now, and the others as before. -/
theorem finder_setFinder (s : FindState) (ref other : FinderRef) (dirf : DirFinder) :
    (s.setFinder ref dirf).finder other = if other = ref then some dirf else s.finder other := by
  cases ref <;> cases other <;> simp [FindState.setFinder, FindState.finder, Function.update_apply]

/-- Giving up a search leaves the others as they are, and no directory open for it. -/
theorem searches_dropFinder (s : FindState) (ref other : FinderRef) (dirg : DirFinder)
    (dirq : DirStream) :
    (s.dropFinder ref).Searches other dirg dirq ↔ other ≠ ref ∧ s.Searches other dirg dirq := by
  cases ref <;> cases other <;>
    simp [FindState.dropFinder, FindState.finder, FindState.Searches, Function.update_apply] <;>
    aesop

/-- Changing a search changes only what it has open. -/
theorem searches_setFinder (s : FindState) (ref other : FinderRef) (dirf dirg : DirFinder)
    (dirq : DirStream) :
    (s.setFinder ref dirf).Searches other dirg dirq ↔
      (other = ref ∧ dirg = dirf ∧ dirf.dirp = some dirq) ∨
        (other ≠ ref ∧ s.Searches other dirg dirq) := by
  rw [FindState.Searches, finder_setFinder]
  by_cases same : other = ref
  · rw [if_pos same]
    simp only [same, ne_eq, not_true_eq_false, false_and, or_false, true_and, Option.some.injEq]
    constructor
    · intro both
      obtain ⟨rfl, opened⟩ := both
      exact ⟨rfl, opened⟩
    · intro both
      obtain ⟨rfl, opened⟩ := both
      exact ⟨rfl, opened⟩
  · rw [if_neg same]
    simp [same, FindState.Searches]

/-- Changing a search opens nothing. -/
@[simp] theorem setFinder_opened : (s.setFinder ref dirf).opened = s.opened := by
  cases ref <;> rfl

/-- Changing a search closes nothing. -/
@[simp] theorem setFinder_closed : (s.setFinder ref dirf).closed = s.closed := by
  cases ref <;> rfl

/-- Changing a search takes no memory. -/
@[simp] theorem setFinder_allocated : (s.setFinder ref dirf).allocated = s.allocated := by
  cases ref <;> rfl

/-- Giving up a search opens nothing. -/
@[simp] theorem dropFinder_opened : (s.dropFinder ref).opened = s.opened := by
  cases ref <;> rfl

/-- Giving up a search closes nothing. -/
@[simp] theorem dropFinder_closed : (s.dropFinder ref).closed = s.closed := by
  cases ref <;> rfl

/-- Giving up a search takes no memory. -/
@[simp] theorem dropFinder_allocated : (s.dropFinder ref).allocated = s.allocated := by
  cases ref <;> rfl

/-- Changing a search that is there takes no memory. -/
theorem FindState.Fresh.setFinder (fresh : s.Fresh) {before : DirFinder}
    (live : s.finder ref = some before) : (s.setFinder ref dirf).Fresh := by
  intro id dirg there
  rw [setFinder_allocated]
  rw [finder_setFinder] at there
  split at there
  · next same => exact fresh id before (same ▸ live)
  · exact fresh id dirg there

/-- Giving up a search takes no memory. -/
theorem FindState.Fresh.dropFinder (fresh : s.Fresh) : (s.dropFinder ref).Fresh := by
  intro id dirg there
  rw [dropFinder_allocated]
  cases ref with
  | hdir1 => exact fresh id dirg there
  | block other =>
    simp only [FindState.dropFinder, FindState.finder, Function.update_apply] at there
    split at there
    · cases there
    · exact fresh id dirg there

/-- A state where the same directories are open for the same searches is as good. -/
theorem FindRun.Good.congr (good : r.Good) {t : FindState}
    (same : ∀ ref dirf dirp, t.Searches ref dirf dirp ↔ r.state.Searches ref dirf dirp)
    (opened : t.opened = r.state.opened) (closed : t.closed = r.state.closed)
    (fresh : t.Fresh) : { r with state := t }.Good where
  opened ref dirf dirp searches := by
    rw [opened, closed]
    exact good.opened ref dirf dirp ((same ref dirf dirp).mp searches)
  level ref dirf dirp searches := good.level ref dirf dirp ((same ref dirf dirp).mp searches)
  complete ref dirf dirp searches := good.complete ref dirf dirp ((same ref dirf dirp).mp searches)
  apart ref dirf dirp other dirg dirq first second :=
    good.apart ref dirf dirp other dirg dirq ((same ..).mp first) ((same ..).mp second)
  once := closed ▸ good.once
  closed id member := by
    rw [opened]
    exact good.closed id (closed ▸ member)
  held id below open_still := by
    obtain ⟨ref, dirf, dirp, searches, named⟩ := good.held id (opened ▸ below) (closed ▸ open_still)
    exact ⟨ref, dirf, dirp, (same ref dirf dirp).mpr searches, named⟩
  fresh := fresh

/-- A search that stops has its directory closed, and the others go on. -/
theorem FindRun.Good.stop (good : r.Good) {t : FindState}
    (live : r.state.finder ref = some dirf)
    (others : ∀ other dirg dirq, t.Searches other dirg dirq ↔
      other ≠ ref ∧ r.state.Searches other dirg dirq)
    (opened : t.opened = r.state.opened)
    (closed : t.closed = (r.state.closedir dirf.dirp).closed) (fresh : t.Fresh) :
    { r with state := t }.Good := by
  -- The directory of the search, if it has one, is not closed before, and no other has it open.
  have closes : ∀ id, id ∈ t.closed ↔ id ∈ r.state.closed ∨ ∃ dirp, dirf.dirp = some dirp ∧
      dirp.id = id := by
    intro id
    rw [closed]
    cases dirf.dirp with
    | none => simp [FindState.closedir]
    | some dirp => simp [FindState.closedir, or_comm, eq_comm]
  constructor
  · intro other dirg dirq searches
    obtain ⟨different, before⟩ := (others other dirg dirq).mp searches
    obtain ⟨below, open_still⟩ := good.opened other dirg dirq before
    refine ⟨opened ▸ below, fun member => ?_⟩
    rcases (closes dirq.id).mp member with earlier | ⟨dirp, own, same⟩
    · exact open_still earlier
    · exact different (good.apart ref dirf dirp other dirg dirq ⟨live, own⟩ before same).symm
  · intro other dirg dirq searches
    exact good.level other dirg dirq ((others other dirg dirq).mp searches).2
  · intro other dirg dirq searches
    exact good.complete other dirg dirq ((others other dirg dirq).mp searches).2
  · intro one dirg dirq two dirh dirs first second
    exact good.apart one dirg dirq two dirh dirs ((others ..).mp first).2 ((others ..).mp second).2
  · show t.closed.Nodup
    rw [closed]
    cases own : dirf.dirp with
    | none => exact good.once
    | some dirp =>
      exact List.nodup_cons.mpr ⟨(good.opened ref dirf dirp ⟨live, own⟩).2, good.once⟩
  · intro id member
    show id < t.opened
    rw [opened]
    rcases (closes id).mp member with earlier | ⟨dirp, own, rfl⟩
    · exact good.closed id earlier
    · exact (good.opened ref dirf dirp ⟨live, own⟩).1
  · intro id below open_still
    have not_closed : id ∉ r.state.closed := fun member => open_still ((closes id).mpr (.inl member))
    obtain ⟨other, dirg, dirq, searches, named⟩ := good.held id (opened ▸ below) not_closed
    refine ⟨other, dirg, dirq, (others ..).mpr ⟨?_, searches⟩, named⟩
    rintro rfl
    -- The directory of the search itself is closed.
    obtain ⟨found, own⟩ := searches
    cases live.symm.trans found
    exact open_still ((closes id).mpr (.inr ⟨dirq, own, named⟩))
  · exact fresh

/-- A search that starts has all due that its directory has, and the others go on. -/
theorem FindRun.Good.start (good : r.Good) (ref : FinderRef) (dirf : DirFinder)
    (entries : List DirEntry) (t : FindState)
    (kind : dirf.level = some .standard ∨ dirf.level = some .sixteen)
    (free : ∀ dirg dirq, ¬ r.state.Searches ref dirg dirq)
    (searches_iff : ∀ other dirg dirq, t.Searches other dirg dirq ↔
      (other = ref ∧ dirg = dirf ∧ dirq = ⟨r.state.opened, entries⟩) ∨
        r.state.Searches other dirg dirq)
    (opened : t.opened = r.state.opened + 1) (closed : t.closed = r.state.closed)
    (fresh : t.Fresh) :
    FindRun.Good {
      state := t
      due := Function.update r.due r.state.opened
        (wantedEntries dirf.attr dirf.pattern entries)
      returned := Function.update r.returned r.state.opened [] } := by
  constructor
  · intro other dirg dirq searches
    show dirq.id < t.opened ∧ dirq.id ∉ t.closed
    rw [opened, closed]
    rcases (searches_iff other dirg dirq).mp searches with ⟨_, _, rfl⟩ | before
    · exact ⟨Nat.lt_succ_self _, fun member => Nat.lt_irrefl _ (good.closed _ member)⟩
    · obtain ⟨below, open_still⟩ := good.opened other dirg dirq before
      exact ⟨Nat.lt_succ_of_lt below, open_still⟩
  · intro other dirg dirq searches
    rcases (searches_iff other dirg dirq).mp searches with ⟨_, rfl, _⟩ | before
    · exact kind
    · exact good.level other dirg dirq before
  · intro other dirg dirq searches
    rcases (searches_iff other dirg dirq).mp searches with ⟨_, rfl, rfl⟩ | before
    · simp
    · -- The directories of the others were opened before.
      have below := (good.opened other dirg dirq before).1
      simp only [Function.update_of_ne (Nat.ne_of_lt below)]
      exact good.complete other dirg dirq before
  · intro one dirg dirq two dirh dirs first second same
    rcases (searches_iff ..).mp first with ⟨rfl, _, rfl⟩ | before <;>
      rcases (searches_iff ..).mp second with ⟨rfl, _, rfl⟩ | later
    · rfl
    · exact absurd same.symm (Nat.ne_of_lt (good.opened two dirh dirs later).1)
    · exact absurd same (Nat.ne_of_lt (good.opened one dirg dirq before).1)
    · exact good.apart one dirg dirq two dirh dirs before later same
  · show t.closed.Nodup
    exact closed ▸ good.once
  · intro id member
    show id < t.opened
    rw [opened]
    exact Nat.lt_succ_of_lt (good.closed id (closed ▸ member))
  · intro id below open_still
    rcases Nat.lt_succ_iff_lt_or_eq.mp (opened ▸ below) with earlier | rfl
    · obtain ⟨other, dirg, dirq, searches, named⟩ := good.held id earlier (closed ▸ open_still)
      exact ⟨other, dirg, dirq, (searches_iff ..).mpr (.inr searches), named⟩
    · exact ⟨ref, dirf, _, (searches_iff ..).mpr (.inl ⟨rfl, rfl, rfl⟩), rfl⟩
  · exact fresh

/-- A search that goes on has returned what it has read. -/
theorem FindRun.Good.proceed (good : r.Good) (searches : r.state.Searches ref dirf dirp)
    {found : List Found} {rest : List DirEntry}
    (whole : found.map Found.entry ++ wantedEntries dirf.attr dirf.pattern rest =
      wantedEntries dirf.attr dirf.pattern dirp.entries) :
    { r.return dirp.id found with
      state := r.state.setFinder ref
        { dirf with dirp := some { dirp with entries := rest } } }.Good := by
  have back : ∀ other dirg dirq, (r.state.setFinder ref
      { dirf with dirp := some { dirp with entries := rest } }).Searches other dirg dirq →
      (other = ref ∧ dirg = { dirf with dirp := some { dirp with entries := rest } } ∧
          dirq = { dirp with entries := rest }) ∨
        (other ≠ ref ∧ r.state.Searches other dirg dirq) := by
    intro other dirg dirq now
    rcases (searches_setFinder ..).mp now with ⟨same, rfl, own⟩ | before
    · exact .inl ⟨same, rfl, (Option.some.inj own).symm⟩
    · exact .inr before
  have forth : (r.state.setFinder ref { dirf with
      dirp := some { dirp with entries := rest } }).Searches ref
        { dirf with dirp := some { dirp with entries := rest } } { dirp with entries := rest } :=
    (searches_setFinder ..).mpr (.inl ⟨rfl, rfl, rfl⟩)
  constructor
  · intro other dirg dirq now
    rw [setFinder_opened, setFinder_closed]
    rcases back other dirg dirq now with ⟨_, _, rfl⟩ | ⟨_, before⟩
    · exact good.opened ref dirf dirp searches
    · exact good.opened other dirg dirq before
  · intro other dirg dirq now
    rcases back other dirg dirq now with ⟨_, rfl, _⟩ | ⟨_, before⟩
    · exact good.level ref dirf dirp searches
    · exact good.level other dirg dirq before
  · intro other dirg dirq now
    rcases back other dirg dirq now with ⟨_, rfl, rfl⟩ | ⟨different, before⟩
    · simp only [FindRun.return, Function.update_self, List.append_assoc, whole]
      exact good.complete ref dirf dirp searches
    · have other_id : dirq.id ≠ dirp.id := fun same =>
        different (good.apart other dirg dirq ref dirf dirp before searches same)
      simp only [FindRun.return, Function.update_of_ne other_id]
      exact good.complete other dirg dirq before
  · intro one dirg dirq two dirh dirs first second same
    rcases back one dirg dirq first with ⟨rfl, _, rfl⟩ | ⟨_, before⟩ <;>
      rcases back two dirh dirs second with ⟨rfl, _, rfl⟩ | ⟨_, later⟩
    · rfl
    · exact good.apart one dirf dirp two dirh dirs searches later same
    · exact good.apart one dirg dirq two dirf dirp before searches same
    · exact good.apart one dirg dirq two dirh dirs before later same
  · show (r.state.setFinder ref _).closed.Nodup
    rw [setFinder_closed]
    exact good.once
  · intro id member
    rw [setFinder_closed] at member
    rw [setFinder_opened]
    exact good.closed id member
  · intro id below open_still
    rw [setFinder_opened] at below
    rw [setFinder_closed] at open_still
    obtain ⟨other, dirg, dirq, before, named⟩ := good.held id below open_still
    by_cases same : other = ref
    · subst same
      obtain ⟨live, own⟩ := before
      cases searches.1.symm.trans live
      cases searches.2.symm.trans own
      exact ⟨other, _, _, forth, named⟩
    · exact ⟨other, dirg, dirq, (searches_setFinder ..).mpr (.inr ⟨same, before⟩), named⟩
  · exact good.fresh.setFinder searches.1

/-- Going on with a search that has nothing left stops it. -/
theorem FindRun.Good.finish (good : r.Good) (searches : r.state.Searches ref dirf dirp) :
    { r with
      state := (r.state.closedir (some dirp)).setFinder ref { dirf with dirp := none } }.Good := by
  have closed_live : (r.state.closedir (some dirp)).finder ref = some dirf := by
    rw [← searches.1]
    cases ref <;> rfl
  have closed_fresh : (r.state.closedir (some dirp)).Fresh := good.fresh
  refine good.stop searches.1 ?_ (by simp [FindState.closedir]) ?_
    (closed_fresh.setFinder closed_live)
  · intro other dirg dirq
    rw [searches_setFinder]
    simp [FindState.closedir, FindState.Searches, FindState.finder]
  · rw [setFinder_closed, searches.2]

/-- Returning nothing changes nothing. -/
theorem FindRun.return_nil (r : FindRun) (id : Nat) : r.return id [] = r := by
  simp [FindRun.return]

/--
Going on with a search does what it has to do, and leaves the searches good, exactly if it has room
for all that is due.
-/
theorem findNext_account_iff (host : FindHost) (good : r.Good)
    (searches : r.state.Searches ref dirf dirp) {level : InfoLevel} {cbBuf count : Nat}
    (small : cbBuf < 2 ^ 32) (started : dirf.level = some level) {t : FindState} {out : FindAnswer}
    (went : findNext host r.state ref dirf level cbBuf count = (t, out)) :
    ((Separate level cbBuf out.found ∧ out.count = some out.found.length ∧
          (out.ret = .errorNoMoreFiles →
            (r.return dirp.id out.found).returned dirp.id = r.due dirp.id ∧
              dirp.id ∈ t.closed)) ∧
        { r.return dirp.id out.found with state := t }.Good) ↔
      RoomForDue ⟨level, dirf.attr, dirf.pattern, count, dirp.entries⟩ cbBuf := by
  have kind : level = .standard ∨ level = .sixteen := by
    have known := good.level ref dirf dirp searches
    simpa [started] using known
  rw [← @search_account_iff host.localtime ⟨level, dirf.attr, dirf.pattern, count, dirp.entries⟩
    kind cbBuf small]
  have due := good.complete ref dirf dirp searches
  have least := @findEntries_length host.localtime level dirf.attr dirf.pattern ⟨0, cbBuf, 0⟩
    dirp.entries count
  have nothing := @findEntries_suffix host.localtime level dirf.attr dirf.pattern ⟨0, cbBuf, 0⟩
    dirp.entries count
  unfold findNext at went
  rw [searches.2] at went
  dsimp only at went ⊢
  generalize findEntries host.localtime level dirf.attr dirf.pattern count ⟨0, cbBuf, 0⟩
    dirp.entries = result at went least nothing
  split at went
  · -- Nothing was found, so the search stops.
    rename_i ended
    obtain ⟨none_found, asked⟩ := ended
    have empty := List.length_eq_zero_iff.mp none_found
    cases went
    rw [empty] at least ⊢
    have none_left := least.2 asked
    rw [FindRun.return_nil]
    constructor
    · intro both
      obtain ⟨⟨separate, _, spent⟩, _⟩ := both
      have all := due.trans (spent rfl).1.symm
      rw [List.append_right_eq_self] at all
      exact ⟨separate, by rw [all, none_left]; rfl⟩
    · intro both
      obtain ⟨separate, whole⟩ := both
      refine ⟨⟨separate, rfl, fun _ => ⟨?_, by simp [FindState.closedir]⟩⟩, good.finish searches⟩
      rw [List.map_nil, none_left] at whole
      rw [← due, ← whole]
      simp
  · cases went
    constructor
    · intro both
      obtain ⟨⟨separate, _⟩, after⟩ := both
      refine ⟨separate, ?_⟩
      -- What is due of the directory was split at the entries that were found.
      have now := after.complete ref { dirf with dirp := some { dirp with entries := result.2 } }
        { dirp with entries := result.2 } ((searches_setFinder ..).mpr (.inl ⟨rfl, rfl, rfl⟩))
      simp only [FindRun.return, Function.update_self] at now
      rw [← due, List.append_assoc] at now
      exact List.append_cancel_left now
    · intro both
      obtain ⟨separate, whole⟩ := both
      exact ⟨⟨separate, rfl, fun spent => by cases spent⟩, good.proceed searches whole⟩

/-- A search that is there is started again, in place of what it was. -/
theorem FindRun.Good.restart (good : r.Good) (live : r.state.finder ref = some dirf)
    {level : InfoLevel} (kind : level = .standard ∨ level = .sixteen) (attr : Nat)
    (pattern : List UInt8) (entries : List DirEntry) :
    FindRun.Good {
      state := FindState.setFinder
        { r.state.closedir dirf.dirp with opened := r.state.opened + 1 } ref
        { dirp := some { id := r.state.opened, entries }, attr, level := some level, pattern }
      due := Function.update r.due r.state.opened (wantedEntries attr pattern entries)
      returned := Function.update r.returned r.state.opened [] } := by
  have stays (other : FinderRef) :
      (r.state.closedir dirf.dirp).finder other = r.state.finder other := by
    cases dirf.dirp <;> cases other <;> rfl
  have same_opened : (r.state.closedir dirf.dirp).opened = r.state.opened := by
    cases dirf.dirp <;> rfl
  have same_allocated : (r.state.closedir dirf.dirp).allocated = r.state.allocated := by
    cases dirf.dirp <;> rfl
  have fresh : (r.state.closedir dirf.dirp).Fresh := by
    intro id dirg there
    rw [same_allocated]
    exact good.fresh id dirg (stays (.block id) ▸ there)
  -- First the search stops, and then it starts.
  have stopped : { r with state := (r.state.closedir dirf.dirp).dropFinder ref }.Good := by
    refine good.stop live ?_ (by rw [dropFinder_opened, same_opened]) (dropFinder_closed)
      fresh.dropFinder
    intro other dirg dirq
    rw [searches_dropFinder, FindState.Searches, stays]
    rfl
  have next_fresh : FindState.Fresh
      { r.state.closedir dirf.dirp with opened := r.state.opened + 1 } := fresh
  have next_live : FindState.finder
      { r.state.closedir dirf.dirp with opened := r.state.opened + 1 } ref = some dirf := by
    rw [← live, ← stays ref]
    cases ref <;> rfl
  have known : (some level = some .standard ∨ some level = some InfoLevel.sixteen) := by
    simpa using kind
  have opened : ((r.state.closedir dirf.dirp).dropFinder ref).opened = r.state.opened := by
    rw [dropFinder_opened, same_opened]
  have closed : ((r.state.closedir dirf.dirp).dropFinder ref).closed =
      (r.state.closedir dirf.dirp).closed := dropFinder_closed
  have started := stopped.start ref
    { dirp := some { id := r.state.opened, entries }, attr, level := some level, pattern } entries
    (FindState.setFinder { r.state.closedir dirf.dirp with opened := r.state.opened + 1 } ref
      { dirp := some { id := r.state.opened, entries }, attr, level := some level, pattern })
    known (fun dirg dirq now => ((searches_dropFinder ..).mp now).1 rfl) ?_
    (setFinder_opened.trans (congrArg (· + 1) opened.symm)) (setFinder_closed.trans
      closed.symm) (next_fresh.setFinder next_live)
  · rw [opened] at started
    exact started
  · intro other dirg dirq
    rw [searches_setFinder, opened, searches_dropFinder]
    simp only [Option.some.injEq]
    refine or_congr ?_ Iff.rfl
    constructor
    · intro all
      exact ⟨all.1, all.2.1, all.2.2.symm⟩
    · intro all
      exact ⟨all.1, all.2.1, all.2.2.symm⟩

/-- A search that a handle stands for is started in a directory. -/
theorem FindRun.Good.begin (good : r.Good) {hdir : Hdir} {s : FindState}
    (found : finderOf r.state hdir = some (s, ref, dirf)) {level : InfoLevel}
    (kind : level = .standard ∨ level = .sixteen) (attr : Nat) (pattern : List UInt8)
    (entries : List DirEntry) :
    FindRun.Good {
      state := FindState.setFinder { s.closedir dirf.dirp with opened := s.opened + 1 } ref
        { dirp := some { id := s.opened, entries }, attr, level := some level, pattern }
      due := Function.update r.due r.state.opened (wantedEntries attr pattern entries)
      returned := Function.update r.returned r.state.opened [] } := by
  cases hdir with
  | null => cases found
  | wild => cases found
  | system =>
    cases found
    exact good.restart rfl kind attr pattern entries
  | finder other =>
    obtain ⟨dirg, live, same⟩ := Option.map_eq_some_iff.mp found
    cases same
    exact good.restart live kind attr pattern entries
  | create =>
    cases found
    -- The search is new, and nothing is open for it.
    let s : FindState := {
      r.state with
      blocks := Function.update r.state.blocks r.state.allocated (some {})
      allocated := r.state.allocated + 1 }
    have finder_new (other : FinderRef) : s.finder other =
        if other = .block r.state.allocated then some {} else r.state.finder other := by
      cases other <;> simp [s, FindState.finder, Function.update_apply]
    have idle : ∀ dirg dirq, ¬ r.state.Searches (.block r.state.allocated) dirg dirq :=
      fun dirg dirq now => Nat.lt_irrefl _ (good.fresh _ dirg now.1)
    have taken : { r with state := s }.Good := by
      refine good.congr ?_ rfl rfl ?_
      · intro other dirg dirq
        rw [FindState.Searches, finder_new]
        by_cases same : other = .block r.state.allocated
        · subst same
          rw [if_pos rfl]
          refine iff_of_false ?_ (idle dirg dirq)
          intro both
          cases both.1
          cases both.2
        · rw [if_neg same]
          rfl
      · intro id dirg there
        rw [finder_new] at there
        split at there
        · next same =>
          cases same
          exact Nat.lt_succ_self _
        · exact Nat.lt_succ_of_lt (good.fresh id dirg there)
    have live : s.finder (.block r.state.allocated) = some {} := by
      rw [finder_new, if_pos rfl]
    exact taken.restart live kind attr pattern entries

/-- A handle that is valid stands for a search, or for none. -/
theorem finderOf_valid {hdir : Hdir} (valid : hdir.Valid s) (given : hdir ≠ .null) :
    ∃ t ref dirf, finderOf s hdir = some (t, ref, dirf) := by
  cases hdir with
  | null => exact absurd rfl given
  | wild => exact absurd valid id
  | system => exact ⟨_, _, _, rfl⟩
  | create => exact ⟨_, _, _, rfl⟩
  | finder ref =>
    obtain ⟨dirf, level, live, _⟩ := valid
    exact ⟨_, _, _, by rw [finderOf, live]; rfl⟩

/-- A search that found nothing has no directory open. -/
theorem findNext_failed (host : FindHost) (s : FindState) (ref : FinderRef) {level : InfoLevel}
    (cbBuf count : Nat) {t : FindState} {out : FindAnswer}
    (live : s.finder ref = some dirf)
    (went : findNext host s ref dirf level cbBuf count = (t, out)) (bad : out.ret ≠ .noError) :
    (∀ dirg dirq, ¬ t.Searches ref dirg dirq) ∧ out.ret = .errorNoMoreFiles ∧ out.found = [] := by
  unfold findNext at went
  split at went
  · next none_open =>
    cases went
    refine ⟨fun dirg dirq now => ?_, rfl, rfl⟩
    cases live.symm.trans now.1
    cases none_open.symm.trans now.2
  · dsimp only at went
    split at went
    · cases went
      refine ⟨fun dirg dirq now => ?_, rfl, rfl⟩
      rcases (searches_setFinder ..).mp now with ⟨_, _, own⟩ | ⟨other, _⟩
      · cases own
      · exact other rfl
    · cases went
      exact absurd rfl bad

/-- Going on with a search takes no memory. -/
theorem findNext_fresh (host : FindHost) (fresh : s.Fresh) {level : InfoLevel} (cbBuf count : Nat)
    {out : FindAnswer} (live : s.finder ref = some dirf)
    (went : findNext host s ref dirf level cbBuf count = (t, out)) : t.Fresh := by
  unfold findNext at went
  split at went
  · cases went
    exact fresh
  · rename_i dirp _
    have closed_fresh : (s.closedir (some dirp)).Fresh := fresh
    have closed_live : (s.closedir (some dirp)).finder ref = some dirf := by
      rw [← live]
      cases ref <;> rfl
    dsimp only at went
    split at went
    · cases went
      exact closed_fresh.setFinder closed_live
    · cases went
      exact fresh.setFinder live

/-- Giving up a search that has no directory open changes nothing that matters. -/
theorem good_dropFinder_iff (idle : ∀ dirg dirq, ¬ t.Searches ref dirg dirq) (fresh : t.Fresh) :
    { r with state := t.dropFinder ref }.Good ↔ { r with state := t }.Good := by
  have same (other : FinderRef) (dirg : DirFinder) (dirq : DirStream) :
      (t.dropFinder ref).Searches other dirg dirq ↔ t.Searches other dirg dirq := by
    rw [searches_dropFinder]
    refine and_iff_right_of_imp fun now => ?_
    rintro rfl
    exact idle dirg dirq now
  constructor
  · intro good
    exact good.congr (fun other dirg dirq => (same other dirg dirq).symm)
      dropFinder_opened.symm dropFinder_closed.symm fresh
  · intro good
    exact good.congr same dropFinder_opened dropFinder_closed fresh.dropFinder

/-- What a handle stands for opens no directory. -/
theorem finderOf_opened {hdir : Hdir} {s t : FindState}
    (found : finderOf s hdir = some (t, ref, dirf)) :
    t.opened = s.opened ∧ (hdir ≠ .create → t = s) := by
  cases hdir with
  | null => cases found
  | wild => cases found
  | system =>
    cases found
    exact ⟨rfl, fun _ => rfl⟩
  | create =>
    cases found
    exact ⟨rfl, fun other => absurd rfl other⟩
  | finder other =>
    obtain ⟨dirg, _, same⟩ := Option.map_eq_some_iff.mp found
    cases same
    exact ⟨rfl, fun _ => rfl⟩

/-- A step is the only one, so what it does is what it has to do or not. -/
theorem step_right_iff {call : SearchCall} {t : FindRun} {out : FindAnswer}
    (stepped : findRunStep r call = some (t, out)) :
    (∃ t out, findRunStep r call = some (t, out) ∧ call.Right r t out ∧ t.Good) ↔
      call.Right r t out ∧ t.Good := by
  constructor
  · intro some_step
    obtain ⟨u, answer, again, both⟩ := some_step
    cases stepped.symm.trans again
    exact both
  · intro both
    exact ⟨t, out, stepped, both⟩

/-- A call that starts a search does what it has to do exactly if it has room for what is due. -/
theorem first_exact (good : r.Good) (host : FindHost) (args : FindFirstArgs)
    (may : SearchCall.May r (.look host (.first args))) :
    (∃ t out, findRunStep r (.look host (.first args)) = some (t, out) ∧
        SearchCall.Right r (.look host (.first args)) t out ∧ t.Good) ↔
      SearchCall.Cond r (.look host (.first args)) := by
  obtain ⟨ret, _, nothing, called⟩ | ⟨q, hdir, searched, small, handle, given, kind, attr, called⟩ :=
    DosFindFirst_does host args r.state
  · -- The call is refused, and nothing happens.
    have search : FindCall.search host r.state (.first args) = none := nothing
    have stepped : findRunStep r (.look host (.first args)) = some (r, { ret }) := by
      simp [findRunStep, FindCall.make, called, search]
    refine iff_of_true ⟨r, { ret }, stepped, ?_, good⟩ ?_
    · intro q found
      cases search.symm.trans found
    · intro q found
      cases search.symm.trans found
  · have search : FindCall.search host r.state (.first args) = some q := searched
    obtain ⟨s, ref, dirf, found⟩ := finderOf_valid (may hdir given) handle
    have begun := good.begin found kind q.attr q.pattern q.entries
    rw [(finderOf_opened found).1] at begun
    rw [startSearch, found] at called
    dsimp only at called
    rw [← attr, (finderOf_opened found).1] at called
    generalize s_now : FindState.setFinder
      { s.closedir dirf.dirp with opened := r.state.opened + 1 } ref
      { dirp := some { id := r.state.opened, entries := q.entries }, attr := q.attr,
        level := some q.level, pattern := q.pattern } = now at begun called
    have searches : now.Searches ref
        { dirp := some { id := r.state.opened, entries := q.entries }, attr := q.attr,
          level := some q.level, pattern := q.pattern }
        { id := r.state.opened, entries := q.entries } := by
      rw [← s_now]
      exact (searches_setFinder ..).mpr (.inl ⟨rfl, rfl, rfl⟩)
    cases went : findNext host now ref
        { dirp := some { id := r.state.opened, entries := q.entries }, attr := q.attr,
          level := some q.level, pattern := q.pattern } q.level args.cbBuf q.count with
    | mk t out =>
      rw [went] at called
      dsimp only at called
      have account := findNext_account_iff host begun searches (by omega) rfl went
      have cond : SearchCall.Cond r (.look host (.first args)) ↔ RoomForDue q args.cbBuf := by
        simp [SearchCall.Cond, search, FindCall.cbBuf]
      rw [cond, ← account]
      have now_live := searches.1
      by_cases succeeded : out.ret = .noError
      · -- The handle of the search is returned.
        rw [if_neg (by simp [succeeded])] at called
        have stepped : findRunStep r (.look host (.first args)) =
            some ({ (r.enter q (.first args)).return r.state.opened out.found with state := t },
              { out with hdir := some (.finder ref) }) := by
          simp [findRunStep, FindCall.make, called, search, FindCall.directory]
        rw [step_right_iff stepped]
        refine and_congr ?_ Iff.rfl
        simp only [SearchCall.Right, search, Option.some.injEq, forall_eq']
        exact Iff.rfl
      · obtain ⟨idle, spent, nothing⟩ := findNext_failed host now ref args.cbBuf q.count now_live went
          succeeded
        have fresh := findNext_fresh host begun.fresh args.cbBuf q.count now_live went
        rw [if_pos succeeded] at called
        have stepped : findRunStep r (.look host (.first args)) =
            some ({ (r.enter q (.first args)).return r.state.opened out.found with
                state := if hdir = .create then t.dropFinder ref else t }, out) := by
          simp [findRunStep, FindCall.make, called, search, FindCall.directory]
        rw [step_right_iff stepped]
        refine and_congr ?_ ?_
        · simp only [SearchCall.Right, search, Option.some.injEq, forall_eq']
          by_cases new : hdir = .create
          · simp only [new, if_true, dropFinder_closed]
            exact Iff.rfl
          · simp only [new, if_false]
            exact Iff.rfl
        · by_cases new : hdir = .create
          · simp only [new, if_true]
            exact good_dropFinder_iff idle fresh
          · simp only [new, if_false]
            exact Iff.rfl

/-- A call that goes on with a search does what it has to do exactly if it has room for what is due. -/
theorem next_exact (good : r.Good) (host : FindHost) (args : FindNextArgs)
    (may : SearchCall.May r (.look host (.next args))) :
    (∃ t out, findRunStep r (.look host (.next args)) = some (t, out) ∧
        SearchCall.Right r (.look host (.next args)) t out ∧ t.Good) ↔
      SearchCall.Cond r (.look host (.next args)) := by
  obtain ⟨ret, count, _, nothing, called⟩ | ⟨_, unknown⟩ |
      ⟨q, ref, dirf, dirp, searched, goes, called⟩ :=
    DosFindNext_does host args r.state
  · have search : FindCall.search host r.state (.next args) = none := nothing
    have stepped : findRunStep r (.look host (.next args)) = some (r, { ret, count }) := by
      simp [findRunStep, FindCall.make, called, search]
    refine iff_of_true ⟨r, { ret, count }, stepped, ?_, good⟩ ?_
    · intro q found
      cases search.symm.trans found
    · intro q found
      cases search.symm.trans found
  · -- The handle that the call was given is a search that was started.
    have valid : args.hDir.Valid r.state := may
    rcases unknown with wild | ⟨ref, handle, unstarted⟩
    · rw [wild] at valid
      exact absurd valid id
    · rw [handle] at valid
      obtain ⟨dirf, level, live, started⟩ := valid
      cases (unstarted dirf live).symm.trans started
  · have search : FindCall.search host r.state (.next args) = some q := searched
    have id : FindCall.directory r.state (.next args) = dirp.id := by
      simp [FindCall.directory, goes.handle, goes.live, goes.started]
    cases went : findNext host r.state ref dirf q.level args.cbfindbuf q.count with
    | mk t out =>
      rw [went] at called
      have account := findNext_account_iff host good ⟨goes.live, goes.started⟩
        (Nat.lt_of_le_of_lt goes.small (by decide)) goes.level went
      have known : Search.mk q.level dirf.attr dirf.pattern q.count dirp.entries = q := by
        rw [goes.attr, goes.pattern, goes.entries]
      rw [known] at account
      have cond : SearchCall.Cond r (.look host (.next args)) ↔ RoomForDue q args.cbfindbuf := by
        simp [SearchCall.Cond, search, FindCall.cbBuf]
      have stepped : findRunStep r (.look host (.next args)) =
          some ({ r.return dirp.id out.found with state := t }, out) := by
        simp [findRunStep, FindCall.make, called, search, id, FindRun.enter]
      rw [cond, ← account, step_right_iff stepped]
      refine and_congr ?_ Iff.rfl
      simp only [SearchCall.Right, search, Option.some.injEq, forall_eq', id]
      exact Iff.rfl

/-- A call that ends a search closes its directory, and does what it has to do. -/
theorem close_exact (good : r.Good) (hDir : Hdir) (may : SearchCall.May r (.close hDir)) :
    (∃ t out, findRunStep r (.close hDir) = some (t, out) ∧
        SearchCall.Right r (.close hDir) t out ∧ t.Good) ↔
      SearchCall.Cond r (.close hDir) := by
  have valid : hDir.Valid r.state := may
  refine iff_of_true ?_ trivial
  cases hDir with
  | null => exact ⟨r, _, rfl, trivial, good⟩
  | system => exact ⟨r, _, rfl, trivial, good⟩
  | create => exact ⟨r, _, rfl, trivial, good⟩
  | wild => exact absurd valid id
  | finder ref =>
    obtain ⟨dirf, level, live, _⟩ := valid
    refine ⟨{ r with state := (r.state.closedir dirf.dirp).dropFinder ref }, { ret := .noError }, ?_,
      trivial, ?_⟩
    · simp only [findRunStep, DosFindClose, live]
      rfl
    · refine good.stop live ?_ ?_ dropFinder_closed ?_
      · intro other dirg dirq
        rw [searches_dropFinder]
        cases dirf.dirp <;> cases other <;> rfl
      · rw [dropFinder_opened]
        cases dirf.dirp <;> rfl
      · have fresh : (r.state.closedir dirf.dirp).Fresh := by
          cases dirf.dirp <;> exact good.fresh
        exact fresh.dropFinder

/-- A call does what it has to do exactly if it has room for what is due. -/
theorem findRunStep_exact (r : FindRun) (call : SearchCall) (good : r.Good) (may : call.May r) :
    (∃ t out, findRunStep r call = some (t, out) ∧ call.Right r t out ∧ t.Good) ↔
      call.Cond r := by
  cases call with
  | look host call =>
    cases call with
    | first args => exact first_exact good host args may
    | next args => exact next_exact good host args may
  | close hDir => exact close_exact good hDir may

/-- Nothing is open when a process starts. -/
theorem findRun_start : FindRun.Good {} where
  opened ref dirf dirp searches := by
    cases ref <;> obtain ⟨live, own⟩ := searches <;> cases live
    cases own
  level ref dirf dirp searches := by
    cases ref <;> obtain ⟨live, own⟩ := searches <;> cases live
    cases own
  complete ref dirf dirp searches := by
    cases ref <;> obtain ⟨live, own⟩ := searches <;> cases live
    cases own
  apart ref dirf dirp other dirg dirq searches := by
    cases ref <;> obtain ⟨live, own⟩ := searches <;> cases live
    cases own
  once := List.nodup_nil
  closed id member := by cases member
  held id below := absurd below (Nat.not_lt_zero id)
  fresh id dirf there := by cases there

/-- A host with one directory, where two files are called a and b. -/
def twoFilesHost : FindHost :=
  { oneFileHost with
      opendir := fun _ => .ok [⟨CStrings.ascii "a", some ⟨.regular, true, 0, 0, 1, 8⟩⟩,
        ⟨CStrings.ascii "b", some ⟨.regular, true, 0, 0, 1, 8⟩⟩] }

/-- Looking for two files in a buffer of some size. -/
def findTwoFiles (cbBuf : Nat) : SearchCall :=
  .look twoFilesHost (.first {
    pszFileSpec := CStrings.ascii "*"
    phdir := some .create
    flAttribute := 0
    cbBuf
    pcFileNames := some 2
    ulInfoLevel := 1 })

/-- Two files are looked for, and the search is closed. -/
def twoFilesRun : List SearchCall := [findTwoFiles 600, .close (.finder (.block 0))]

end TwoIne
