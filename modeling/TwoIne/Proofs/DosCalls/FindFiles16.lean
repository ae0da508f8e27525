import TwoIne.DosCalls.FindFiles16
import TwoIne.Proofs.DosCalls.FindRuns

/-! Runs of 16-bit searches: the table holds the searches that are live, and no others. -/

namespace TwoIne

variable {s t : FindState} {ref : FinderRef} {dirf : DirFinder}

/-- A search can be gone on with. -/
def FindState.Live (s : FindState) (ref : FinderRef) : Prop :=
  ∃ dirf level, s.finder ref = some dirf ∧ dirf.level = some level

/-- A search is kept: it is in memory of its own, or has a directory open. -/
def FindState.Kept (s : FindState) : FinderRef → Prop
  | .hdir1 => s.hdir1.dirp ≠ none
  | .block id => s.blocks id ≠ none

/-- What became of the search that is meant, while the others are as they were. -/
structure Touches (s t : FindState) (ref : FinderRef) (dirf : DirFinder) : Prop where
  here : t.finder ref = some dirf
  others : ∀ other, other ≠ ref → t.finder other = s.finder other
  same : t.allocated = s.allocated

/-- Changing a search touches no other one. -/
theorem touches_setFinder (s : FindState) (ref : FinderRef) (dirf : DirFinder) :
    Touches s (s.setFinder ref dirf) ref dirf where
  here := by rw [finder_setFinder, if_pos rfl]
  others other different := by rw [finder_setFinder, if_neg different]
  same := setFinder_allocated

/-- Going on with a search touches no other one, and has nothing open if it fails. -/
theorem findNext_touches (host : FindHost) {level : InfoLevel} (cbBuf count : Nat)
    {out : FindAnswer} (live : s.finder ref = some dirf)
    (went : findNext host s ref dirf level cbBuf count = (t, out)) :
    ∃ dirg, Touches s t ref dirg ∧ dirg.level = dirf.level ∧
      (dirf.dirp = none → dirg.dirp = none) ∧ (out.ret ≠ .noError → dirg.dirp = none) ∧
      (out.ret = .noError ∨ out.ret = .errorNoMoreFiles) := by
  unfold findNext at went
  split at went
  · next none_open =>
    cases went
    exact ⟨dirf, ⟨live, fun _ _ => rfl, rfl⟩, rfl, id, fun _ => none_open, .inr rfl⟩
  · rename_i dirp own
    dsimp only at went
    split at went
    · cases went
      have touched := touches_setFinder (s.closedir (some dirp)) ref { dirf with dirp := none }
      refine ⟨_, ⟨touched.here, fun other different => ?_, touched.same⟩, rfl, fun _ => rfl,
        fun _ => rfl, .inr rfl⟩
      rw [touched.others other different]
      cases other <;> rfl
    · cases went
      exact ⟨_, touches_setFinder s ref _, rfl, fun none_open => (nomatch own.symm.trans none_open),
        fun bad => absurd rfl bad, .inl rfl⟩

/-- A search finds something, or is not asked to. -/
def Search.findsSome (q : Search) (localtime : Int → BrokenTime) (cbBuf : Nat) : Prop :=
  (findEntries localtime q.level q.attr q.pattern q.count ⟨0, cbBuf, 0⟩ q.entries).1 ≠ [] ∨
    q.count = 0

/-- Going on with a search succeeds exactly if it finds something or is not asked to. -/
theorem findNext_ret (host : FindHost) {level : InfoLevel} (cbBuf count : Nat) {out : FindAnswer}
    {dirp : DirStream} (started : dirf.dirp = some dirp)
    (went : findNext host s ref dirf level cbBuf count = (t, out)) :
    out.ret = .noError ↔
      Search.findsSome ⟨level, dirf.attr, dirf.pattern, count, dirp.entries⟩ host.localtime
        cbBuf := by
  unfold findNext at went
  rw [started] at went
  dsimp only at went
  unfold Search.findsSome
  split at went
  · next ended =>
    cases went
    have nothing := List.length_eq_zero_iff.mp ended.1
    refine iff_of_false (by simp) (not_or.mpr ⟨?_, Nat.ne_of_gt ended.2⟩)
    simpa using nothing
  · next ended =>
    cases went
    refine iff_of_true rfl ?_
    rw [not_and_or] at ended
    rcases ended with found | asked
    · exact .inl fun nothing => found (List.length_eq_zero_iff.mpr nothing)
    · exact .inr (Nat.eq_zero_of_not_pos asked)

/-- What starting a search does to the search that is meant, and to no other one. -/
inductive FirstDoes (host : FindHost) (args : FindFirstArgs) (hdir : Hdir) (s now : FindState)
    (ref : FinderRef) : FindState → FindAnswer → Prop
  | refused {out : FindAnswer} (nothing : searchFirst host args = none)
    (bad : out.ret ≠ .noError ∧ out.ret ≠ .errorEasDidntFit) :
    FirstDoes host args hdir s now ref s out
  | started {q : Search} {t : FindState} {out : FindAnswer} {dirg : DirFinder}
    (searched : searchFirst host args = some q) (finds : q.findsSome host.localtime args.cbBuf)
    (good : out.ret = .noError) (answered : out.hdir = some (.finder ref))
    (touches : Touches now t ref dirg) (level : dirg.level = some q.level) :
    FirstDoes host args hdir s now ref t out
  | ended {q : Search} {t : FindState} {out : FindAnswer} {dirg : DirFinder}
    (searched : searchFirst host args = some q) (finds : ¬ q.findsSome host.localtime args.cbBuf)
    (bad : out.ret = .errorNoMoreFiles) (kept : hdir ≠ .create)
    (touches : Touches now t ref dirg) (level : dirg.level = some q.level)
    (idle : dirg.dirp = none) : FirstDoes host args hdir s now ref t out
  | freed {q : Search} {t : FindState} {out : FindAnswer}
    (searched : searchFirst host args = some q) (finds : ¬ q.findsSome host.localtime args.cbBuf)
    (bad : out.ret = .errorNoMoreFiles) (new : hdir = .create) (gone : t.finder ref = none)
    (others : ∀ other, other ≠ ref → t.finder other = now.finder other)
    (same : t.allocated = now.allocated) : FirstDoes host args hdir s now ref t out

/-- Giving up a search touches no other one. -/
theorem finder_dropFinder (s : FindState) {ref other : FinderRef} (different : other ≠ ref) :
    (s.dropFinder ref).finder other = s.finder other := by
  cases ref <;> cases other <;>
    simp_all [FindState.dropFinder, FindState.finder]

/-- A call that starts a search with a handle that stands for one. -/
theorem DosFindFirst_effect (host : FindHost) {args : FindFirstArgs} {hdir : Hdir}
    {now : FindState} (given : args.phdir = some hdir)
    (found : finderOf s hdir = some (now, ref, dirf)) :
    ∃ t out, DosFindFirst host args s = some (t, out) ∧
      FirstDoes host args hdir s now ref t out := by
  obtain ⟨ret, bad, nothing, called⟩ |
      ⟨q, handle, searched, small, _, same, kind, attr, called⟩ := DosFindFirst_does host args s
  · exact ⟨s, { ret }, called, .refused nothing bad⟩
  · cases given.symm.trans same
    rw [startSearch, found] at called
    dsimp only at called
    rw [← attr] at called
    generalize s_then : FindState.setFinder
      { now.closedir dirf.dirp with opened := now.opened + 1 } ref
      { dirp := some { id := now.opened, entries := q.entries }, attr := q.attr,
        level := some q.level, pattern := q.pattern } = begun at called
    have opens : Touches now begun ref
        { dirp := some { id := now.opened, entries := q.entries }, attr := q.attr,
          level := some q.level, pattern := q.pattern } := by
      have touched := touches_setFinder
        { now.closedir dirf.dirp with opened := now.opened + 1 } ref
        { dirp := some { id := now.opened, entries := q.entries }, attr := q.attr,
          level := some q.level, pattern := q.pattern }
      rw [s_then] at touched
      refine ⟨touched.here, fun other different => ?_, touched.same.trans ?_⟩
      · rw [touched.others other different]
        cases dirf.dirp <;> cases other <;> rfl
      · cases dirf.dirp <;> rfl
    cases went : findNext host begun ref
        { dirp := some { id := now.opened, entries := q.entries }, attr := q.attr,
          level := some q.level, pattern := q.pattern } q.level args.cbBuf q.count with
    | mk t out =>
      rw [went] at called
      dsimp only at called
      have finds := findNext_ret host args.cbBuf q.count rfl went
      obtain ⟨dirg, touched, level, _, idle, either⟩ :=
        findNext_touches host args.cbBuf q.count opens.here went
      have both : Touches now t ref dirg := {
        here := touched.here
        others := fun other different =>
          (touched.others other different).trans (opens.others other different)
        same := touched.same.trans opens.same }
      by_cases succeeded : out.ret = .noError
      · rw [if_neg (by simp [succeeded])] at called
        exact ⟨_, _, called, .started searched (finds.mp succeeded) succeeded rfl both level⟩
      · rw [if_pos succeeded] at called
        have nothing := fun some_found => succeeded (finds.mpr some_found)
        have spent := either.resolve_left succeeded
        by_cases new : hdir = .create
        · rw [if_pos new] at called
          refine ⟨_, _, called, .freed searched nothing spent new ?_ ?_ ?_⟩
          · -- The search is one in memory of its own.
            subst new
            cases found
            simp [FindState.dropFinder, FindState.finder]
          · intro other different
            rw [finder_dropFinder t different]
            exact both.others other different
          · rw [dropFinder_allocated]
            exact both.same
        · rw [if_neg new] at called
          exact ⟨_, _, called, .ended searched nothing spent new both level (idle succeeded)⟩

/-- The calls on the searches of 16-bit programs, and what the host does during them. -/
inductive Find16Call where
  | first (host : FindHost) (args : Find16Args)
  | next (host : FindHost) (args : Next16Args)
  | close (hDir : Nat)

/-- One call. -/
def find16Step (s : Find16State) : Find16Call → Option (Find16State × Find16Answer)
  | .first host args => Dos16FindFirst host args s
  | .next host args => Dos16FindNext host args s
  | .close hDir => Dos16FindClose hDir s

/-- Each place that is in use holds a search that is live and in no other one, and no search is lost. -/
structure Find16State.Good (s : Find16State) : Prop where
  live : ∀ i < hdir16Count, s.place i ≠ .null → ∃ ref, s.place i = .finder ref ∧ s.find.Live ref
  apart : ∀ i < hdir16Count, ∀ j < hdir16Count, s.place i ≠ .null → s.place i = s.place j → i = j
  kept : ∀ ref, s.find.Kept ref → ∃ i < hdir16Count, s.place i = .finder ref
  fresh : s.find.Fresh

/-- A handle is that of a search. -/
def Find16State.InUse (s : Find16State) (hdir : Int) : Prop :=
  0 ≤ hdir ∧ hdir < hdir16Count ∧ s.place hdir.toNat ≠ .null

/-- Whether a handle is in use can be looked up. -/
instance (s : Find16State) (hdir : Int) : Decidable (s.InUse hdir) :=
  inferInstanceAs (Decidable (_ ∧ _ ∧ _))

/-- There is a place for another search. -/
def Find16State.HasFree (s : Find16State) : Prop :=
  ∃ i < hdir16Count, s.place i = .null

/-- The places are as they were. -/
def Find16State.SamePlaces (s t : Find16State) : Prop :=
  ∀ i, t.place i = s.place i

/-- A call is refused, and changes nothing. -/
def Find16State.Rejects (s t : Find16State) (out : Find16Answer) : Prop :=
  out.ret ≠ .noError ∧ t.find = s.find ∧ s.SamePlaces t

/-- The search of a handle is started again in its place. -/
def Find16State.Restarts (s : Find16State) (host : FindHost) (args : Find16Args) (t : Find16State)
    (out : Find16Answer) : Prop :=
  s.SamePlaces t ∧ ∃ find answer,
    DosFindFirst host (args.first (s.place args.hdir.toNat)) s.find = some (find, answer) ∧
      if answer.ret = .noError then
        out.ret = .noError ∧ out.hdir = some args.hdir.toNat ∧ t.find = find
      else out.ret ≠ .noError

/-- A search is put into a free place, if there is one. -/
def Find16State.Begins (s : Find16State) (host : FindHost) (args : Find16Args) (t : Find16State)
    (out : Find16Answer) : Prop :=
  ∃ find answer, DosFindFirst host (args.first (hdir32 args.hdir)) s.find = some (find, answer) ∧
    ((answer.ret = .noError ∧ s.HasFree ∧ out.ret = .noError ∧ t.find = find ∧
        ∃ i < hdir16Count, s.place i = .null ∧ out.hdir = some i ∧
          some (t.place i) = answer.hdir ∧ ∀ j, j ≠ i → t.place j = s.place j) ∨
      (¬ (answer.ret = .noError ∧ s.HasFree) ∧ out.ret ≠ .noError ∧ s.SamePlaces t))

/-- The search of a handle goes on. -/
def Find16State.Proceeds (s : Find16State) (host : FindHost) (args : Next16Args) (t : Find16State)
    (out : Find16Answer) : Prop :=
  s.SamePlaces t ∧ ∃ answer,
    DosFindNext host (args.next (s.place args.hDir)) s.find = some (t.find, answer) ∧
      out.ret = answer.ret ∧ out.count = answer.count

/-- The search of a handle is ended, and its place is free. -/
def Find16State.Ends (s : Find16State) (hDir : Nat) (t : Find16State) (out : Find16Answer) : Prop :=
  out.ret = .noError ∧ t.place hDir = .null ∧ ∀ j, j ≠ hDir → t.place j = s.place j

/-- What a call has to do. -/
def Find16Call.Right (s : Find16State) (call : Find16Call) (t : Find16State)
    (out : Find16Answer) : Prop :=
  match call with
  | .first host args =>
    if s.InUse args.hdir then s.Restarts host args t out
    else if args.hdir = 1 ∨ args.hdir = -1 then s.Begins host args t out
    else s.Rejects t out
  | .next host args =>
    if s.InUse args.hDir then s.Proceeds host args t out else s.Rejects t out
  | .close hDir => if s.InUse hDir then s.Ends hDir t out else s.Rejects t out

/-- A call that starts a search finds something. -/
def FindFirstArgs.Starts (host : FindHost) (args : FindFirstArgs) : Prop :=
  ∃ q, searchFirst host args = some q ∧ q.findsSome host.localtime args.cbBuf

/--
The condition: the table is there and not left; a search that is to be started again finds nothing,
or does not come to open its directory where the handle would be taken for an address; the search of
the process is in no place yet, and a new one that finds something has a place.
-/
def Find16Call.Cond (s : Find16State) : Find16Call → Prop
  | .first host args =>
    if args.hdir = 0 ∨ args.hdir = 1 then
      if s.InUse args.hdir then ¬ (args.first .system).Starts host
      else args.hdir = 0 ∨ ¬ (args.first .system).Starts host ∨
        ∀ i < hdir16Count, s.place i ≠ .finder .hdir1
    else if args.hdir = -1 then ¬ (args.first .create).Starts host ∨ s.HasFree
    else searchFirst host (args.first .wild) = none
  | .next _ args => s.hdir16 ≠ none ∧ args.hDir < hdir16Count
  | .close hDir => hdir16Count < hDir ∨ (s.hdir16 ≠ none ∧ hDir < hdir16Count)

/-- What a handle stands for is live, and in memory that is taken. -/
theorem finderOf_now {hdir : Hdir} {now : FindState}
    (found : finderOf s hdir = some (now, ref, dirf)) (fresh : s.Fresh) :
    now.finder ref = some dirf ∧ now.Fresh ∧
      ∀ other, other ≠ ref → now.finder other = s.finder other := by
  cases hdir with
  | null => cases found
  | wild => cases found
  | system =>
    cases found
    exact ⟨rfl, fresh, fun _ _ => rfl⟩
  | create =>
    cases found
    refine ⟨by simp [FindState.finder], ?_, ?_⟩
    · intro id dirg there
      show id < s.allocated + 1
      by_cases newest : id = s.allocated
      · omega
      · simp only [FindState.finder, Function.update_of_ne newest] at there
        exact Nat.lt_succ_of_lt (fresh id dirg there)
    · intro other different
      cases other with
      | hdir1 => rfl
      | block id =>
        have older : id ≠ s.allocated := fun same => different (same ▸ rfl)
        simp [FindState.finder, Function.update_of_ne older]
  | finder other =>
    obtain ⟨dirg, live, same⟩ := Option.map_eq_some_iff.mp found
    cases same
    exact ⟨live, fresh, fun _ _ => rfl⟩

/-- Changing a search that is in memory takes no memory. -/
theorem Touches.fresh {dirg : DirFinder} (touches : Touches s t ref dirg) (fresh : s.Fresh)
    (live : s.finder ref = some dirf) : t.Fresh := by
  intro id dirh there
  rw [touches.same]
  by_cases same : FinderRef.block id = ref
  · subst same
    exact fresh id dirf live
  · rw [touches.others _ same] at there
    exact fresh id dirh there

/-- The other searches are as live as they were. -/
theorem live_of_same {other : FinderRef} (same : t.finder other = s.finder other) :
    t.Live other ↔ s.Live other := by
  simp only [FindState.Live, same]

/-- The other searches are kept as they were. -/
theorem kept_of_same {other : FinderRef} (same : t.finder other = s.finder other) :
    t.Kept other ↔ s.Kept other := by
  cases other with
  | hdir1 =>
    have same : t.hdir1 = s.hdir1 := Option.some.inj same
    simp only [FindState.Kept, same]
  | block id =>
    have same : t.blocks id = s.blocks id := same
    simp only [FindState.Kept, same]

variable {a b : Find16State}

/-- Changing a search that stays live, and that is kept in its place or not at all, is good. -/
theorem Find16State.Good.touched (good : a.Good) (ref : FinderRef) (places : a.SamePlaces b)
    (others : ∀ other, other ≠ ref → b.find.finder other = a.find.finder other)
    (live : (∃ i < hdir16Count, a.place i = .finder ref) → b.find.Live ref)
    (kept : b.find.Kept ref → ∃ i < hdir16Count, a.place i = .finder ref)
    (fresh : b.find.Fresh) : b.Good where
  live i inside used := by
    rw [places i] at used ⊢
    obtain ⟨other, held, lives⟩ := good.live i inside used
    refine ⟨other, held, ?_⟩
    by_cases same : other = ref
    · rw [same]
      exact live ⟨i, inside, same ▸ held⟩
    · exact (live_of_same (others other same)).mpr lives
  apart i inside j below used same := by
    rw [places i] at used
    rw [places i, places j] at same
    exact good.apart i inside j below used same
  kept other now := by
    by_cases same : other = ref
    · obtain ⟨i, inside, held⟩ := kept (same ▸ now)
      exact ⟨i, inside, (places i).trans (same ▸ held)⟩
    · obtain ⟨i, inside, held⟩ := good.kept other ((kept_of_same (others other same)).mp now)
      exact ⟨i, inside, (places i).trans held⟩
  fresh := fresh

/-- A state with the same searches in the same places is as good. -/
theorem Find16State.Good.same (good : a.Good) (places : a.SamePlaces b) (find : b.find = a.find) :
    b.Good where
  live i inside used := by
    rw [places i] at used ⊢
    rw [find]
    exact good.live i inside used
  apart i inside j below used same := by
    rw [places i] at used
    rw [places i, places j] at same
    exact good.apart i inside j below used same
  kept other now := by
    obtain ⟨i, inside, held⟩ := good.kept other (find ▸ now)
    exact ⟨i, inside, (places i).trans held⟩
  fresh := find ▸ good.fresh

/-- Nothing is left of a search that is given up. -/
theorem dropFinder_not_kept : ¬ (s.dropFinder ref).Kept ref := by
  cases ref with
  | hdir1 => exact fun kept => kept rfl
  | block id => exact fun kept => kept (Function.update_self ..)

/-- Ending the search of a place frees the place. -/
theorem Find16State.Good.ended (good : a.Good) {i : Nat} (inside : i < hdir16Count)
    (held : a.place i = .finder ref) {table : Nat → Hdir}
    (here : Find16State.place ⟨(a.find.closedir dirf.dirp).dropFinder ref, some table⟩ i = .null)
    (others : ∀ j, j ≠ i →
      Find16State.place ⟨(a.find.closedir dirf.dirp).dropFinder ref, some table⟩ j = a.place j) :
    Find16State.Good ⟨(a.find.closedir dirf.dirp).dropFinder ref, some table⟩ := by
  have same (other : FinderRef) (different : other ≠ ref) :
      ((a.find.closedir dirf.dirp).dropFinder ref).finder other = a.find.finder other := by
    rw [finder_dropFinder _ different]
    cases dirf.dirp <;> cases other <;> rfl
  constructor
  · intro j below used
    have different : j ≠ i := by
      rintro rfl
      exact used here
    rw [others j different] at used ⊢
    obtain ⟨other, holds, lives⟩ := good.live j below used
    have elsewhere : other ≠ ref := by
      rintro rfl
      exact different (good.apart j below i inside used (holds.trans held.symm))
    exact ⟨other, holds, (live_of_same (same other elsewhere)).mpr lives⟩
  · intro j below k within used both
    have first : j ≠ i := by
      rintro rfl
      exact used here
    have second : k ≠ i := by
      rintro rfl
      exact used (both.trans here)
    rw [others j first] at used
    rw [others j first, others k second] at both
    exact good.apart j below k within used both
  · intro other kept
    have elsewhere : other ≠ ref := by
      rintro rfl
      exact dropFinder_not_kept kept
    obtain ⟨j, below, holds⟩ := good.kept other ((kept_of_same (same other elsewhere)).mp kept)
    have different : j ≠ i := by
      rintro rfl
      cases holds.symm.trans held
      exact elsewhere rfl
    exact ⟨j, below, (others j different).trans holds⟩
  · have fresh : (a.find.closedir dirf.dirp).Fresh := by
      cases dirf.dirp <;> exact good.fresh
    exact fresh.dropFinder

/-- What the table holds once there is one is what it held before. -/
theorem getD_place (s : Find16State) (i : Nat) : s.hdir16.getD (fun _ => .null) i = s.place i := by
  unfold Find16State.place
  cases s.hdir16 <;> rfl

/-- A free place is one of the table, and there is one unless all are in use. -/
theorem freePlace_cases (s : Find16State) :
    (freePlace (s.hdir16.getD fun _ => .null) = none ∧ ¬ s.HasFree) ∨
      ∃ i < hdir16Count, s.place i = .null ∧
        freePlace (s.hdir16.getD fun _ => .null) = some i := by
  unfold freePlace
  cases found : (List.range hdir16Count).find? fun i =>
      s.hdir16.getD (fun _ => .null) i = .null with
  | none =>
    refine .inl ⟨rfl, fun free => ?_⟩
    obtain ⟨i, inside, null⟩ := free
    have used := List.find?_eq_none.mp found i (List.mem_range.mpr inside)
    rw [getD_place] at used
    simp [null] at used
  | some i =>
    have null := List.find?_some found
    rw [getD_place] at null
    exact .inr ⟨i, List.mem_range.mp (List.mem_of_find?_eq_some found), by simpa using null, rfl⟩

/-- What is searched for does not depend on the handle, unless that asks for memory or is none. -/
theorem searchFirst_handle (host : FindHost) (args : Find16Args) {hdir : Hdir}
    (given : hdir ≠ .null) (old : hdir ≠ .create) :
    searchFirst host (args.first hdir) = searchFirst host (args.first .system) := by
  have level : infoLevel 0xFFFFFFFF = some .sixteen := by decide
  -- Both are passed on or refused alike, and neither is new.
  unfold searchFirst checkFindFirst
  simp only [Find16Args.first, level, given, if_false, reduceCtorEq]
  cases host.makeUnixPath args.pszFileSpec <;> split_ifs <;> simp_all

/-- A search that is started again starts exactly if one of the process does. -/
theorem starts_handle (host : FindHost) (args : Find16Args) {hdir : Hdir}
    (given : hdir ≠ .null) (old : hdir ≠ .create) :
    (args.first hdir).Starts host ↔ (args.first .system).Starts host := by
  unfold FindFirstArgs.Starts
  rw [searchFirst_handle host args given old]
  rfl

/-- Starting a search succeeds exactly if it finds something. -/
theorem FirstDoes.ret_iff {host : FindHost} {args : FindFirstArgs} {hdir : Hdir} {now : FindState}
    {out : FindAnswer} (does : FirstDoes host args hdir s now ref t out) :
    out.ret = .noError ↔ args.Starts host := by
  cases does with
  | refused nothing bad =>
    refine iff_of_false bad.1 fun starts => ?_
    obtain ⟨q, searched, _⟩ := starts
    cases nothing.symm.trans searched
  | started searched finds good => exact iff_of_true good ⟨_, searched, finds⟩
  | ended searched finds bad =>
    refine iff_of_false (by simp [bad]) fun starts => ?_
    obtain ⟨q, again, found⟩ := starts
    cases searched.symm.trans again
    exact finds found
  | freed searched finds bad =>
    refine iff_of_false (by simp [bad]) fun starts => ?_
    obtain ⟨q, again, found⟩ := starts
    cases searched.symm.trans again
    exact finds found

/-- Starting a search never says that attributes did not fit. -/
theorem FirstDoes.ret_plain {host : FindHost} {args : FindFirstArgs} {hdir : Hdir}
    {now : FindState} {out : FindAnswer} (does : FirstDoes host args hdir s now ref t out) :
    out.ret ≠ .errorEasDidntFit := by
  cases does with
  | refused _ bad => exact bad.2
  | started _ _ good => simp [good]
  | ended _ _ bad => simp [bad]
  | freed _ _ bad => simp [bad]

/-- A handle that stands for no search is refused. -/
theorem DosFindFirst_null (host : FindHost) (args : Find16Args) (s : FindState) :
    ∃ ret, (ret ≠ .noError ∧ ret ≠ .errorEasDidntFit) ∧
      DosFindFirst host (args.first .null) s = some (s, { ret }) := by
  obtain ⟨ret, bad, _, called⟩ | ⟨_, hdir, _, _, handle, given, _⟩ :=
    DosFindFirst_does host (args.first .null) s
  · exact ⟨ret, bad, called⟩
  · cases given
    exact absurd rfl handle

/-- A handle that is no address is refused, or followed if the directory was opened. -/
theorem DosFindFirst_wild (host : FindHost) (args : Find16Args) (s : FindState) :
    (searchFirst host (args.first .wild) = none ∧
        ∃ ret, (ret ≠ .noError ∧ ret ≠ .errorEasDidntFit) ∧
          DosFindFirst host (args.first .wild) s = some (s, { ret })) ∨
      (searchFirst host (args.first .wild) ≠ none ∧
        DosFindFirst host (args.first .wild) s = none) := by
  obtain ⟨ret, bad, nothing, called⟩ | ⟨q, hdir, searched, _, _, given, _, _, called⟩ :=
    DosFindFirst_does host (args.first .wild) s
  · exact .inl ⟨nothing, ret, bad, called⟩
  · cases given
    exact .inr ⟨by simp [searched], called⟩

/-- A search that does not start is answered with its error, and the table is as it was. -/
theorem Dos16FindFirst_failed {host : FindHost} {args : Find16Args} {a : Find16State}
    {find : FindState} {answer : FindAnswer}
    (called : DosFindFirst host (args.first (hdir32 args.hdir)) a.find = some (find, answer))
    (bad : answer.ret ≠ .noError ∧ answer.ret ≠ .errorEasDidntFit) :
    ∃ b, find16Step a (.first host args) = some (b, { ret := answer.ret }) ∧ b.find = find ∧
      a.SamePlaces b := by
  refine ⟨{ find, hdir16 := some (a.hdir16.getD fun _ => .null) }, ?_, rfl, getD_place a⟩
  simp only [find16Step, Dos16FindFirst, called]
  rw [if_pos bad]

/-- A search that starts is put into a free place, or lost. -/
theorem Dos16FindFirst_started {host : FindHost} {args : Find16Args} {a : Find16State}
    {find : FindState} {answer : FindAnswer}
    (called : DosFindFirst host (args.first (hdir32 args.hdir)) a.find = some (find, answer))
    (good : answer.ret = .noError) (answered : answer.hdir = some (.finder ref)) :
    ∃ b out, find16Step a (.first host args) = some (b, out) ∧ b.find = find ∧
      ((¬ a.HasFree ∧ out.ret = .errorNoMoreFiles ∧ a.SamePlaces b) ∨
        ∃ i < hdir16Count, a.place i = .null ∧ out.ret = .noError ∧ out.hdir = some i ∧
          b.place i = .finder ref ∧ ∀ j, j ≠ i → b.place j = a.place j) := by
  simp only [find16Step, Dos16FindFirst, called]
  rw [if_neg (by simp [good])]
  obtain ⟨full, none_free⟩ | ⟨i, inside, free, found⟩ := freePlace_cases a
  · rw [full]
    exact ⟨_, _, rfl, rfl, .inl ⟨none_free, rfl, getD_place a⟩⟩
  · rw [found, answered]
    refine ⟨_, _, rfl, rfl, .inr ⟨i, inside, free, good, rfl, ?_, ?_⟩⟩
    · exact Function.update_self ..
    · intro j different
      exact (Function.update_of_ne different ..).trans (getD_place a j)

/-- A search that did not start leaves a good state good. -/
theorem Find16State.Good.failed (good : a.Good) {host : FindHost} {args : FindFirstArgs}
    {hdir : Hdir} {now : FindState} {out : FindAnswer} (fixed : hdir = .system ∨ hdir = .create)
    (found : finderOf a.find hdir = some (now, ref, dirf))
    (does : FirstDoes host args hdir a.find now ref b.find out) (bad : out.ret ≠ .noError)
    (places : a.SamePlaces b) : b.Good := by
  obtain ⟨live, fresh, before⟩ := finderOf_now found good.fresh
  generalize searched : b.find = t at does
  cases does with
  | refused _ _ => exact good.same places searched
  | started _ _ succeeded => exact absurd succeeded bad
  | ended _ _ _ old touches level idle =>
    -- The search of the process is at its end, whether it is in a place or not.
    obtain rfl := fixed.resolve_right old
    cases found
    refine good.touched .hdir1 places ?_ ?_ ?_ ?_
    · rw [searched]
      exact touches.others
    · exact fun _ => searched ▸ ⟨_, _, touches.here, level⟩
    · intro kept
      rw [searched] at kept
      have here : t.hdir1 = _ := Option.some.inj touches.here
      exact absurd (here ▸ idle) kept
    · rw [searched]
      exact touches.fresh fresh live
  | freed _ _ _ new gone others same =>
    subst new
    cases found
    refine good.touched (.block a.find.allocated) places ?_ ?_ ?_ ?_
    · intro other different
      rw [searched, others other different]
      exact before other different
    · intro held
      obtain ⟨i, inside, held⟩ := held
      obtain ⟨other, holds, _, _, there, _⟩ := good.live i inside (by simp [held])
      cases held.symm.trans holds
      exact absurd (good.fresh _ _ there) (Nat.lt_irrefl _)
    · intro kept
      rw [searched] at kept
      exact absurd gone kept
    · rw [searched]
      intro id dirg there
      rw [same]
      by_cases newest : FinderRef.block id = .block a.find.allocated
      · cases gone.symm.trans (newest ▸ there)
      · exact fresh id dirg (others _ newest ▸ there)

/-- A search that is live and in no place yet may be put into a free one, and no other may be. -/
theorem Find16State.Good.placed_iff (good : a.Good) {i : Nat} (inside : i < hdir16Count)
    (free : a.place i = .null) (here : b.place i = .finder ref)
    (places : ∀ j, j ≠ i → b.place j = a.place j)
    (others : ∀ other, other ≠ ref → b.find.finder other = a.find.finder other)
    (live : b.find.Live ref) (fresh : b.find.Fresh) :
    b.Good ↔ ∀ j < hdir16Count, a.place j ≠ .finder ref := by
  constructor
  · intro now j below held
    have different : j ≠ i := by
      rintro rfl
      cases held.symm.trans free
    have same : b.place i = b.place j := by rw [here, places j different, held]
    exact different (now.apart i inside j below (by simp [here]) same).symm
  · intro single
    constructor
    · intro j below used
      by_cases newest : j = i
      · exact ⟨ref, newest ▸ here, live⟩
      · rw [places j newest] at used ⊢
        obtain ⟨other, held, lives⟩ := good.live j below used
        have different : other ≠ ref := fun same => single j below (same ▸ held)
        exact ⟨other, held, (live_of_same (others other different)).mpr lives⟩
    · intro j below k within used same
      by_cases newest : j = i
      · by_cases newer : k = i
        · exact newest.trans newer.symm
        · rw [newest, here, places k newer] at same
          exact absurd same.symm (single k within)
      · by_cases newer : k = i
        · rw [newer, here, places j newest] at same
          exact absurd same (single j below)
        · rw [places j newest] at used
          rw [places j newest, places k newer] at same
          exact good.apart j below k within used same
    · intro other kept
      by_cases same : other = ref
      · exact ⟨i, inside, same ▸ here⟩
      · obtain ⟨j, below, held⟩ := good.kept other ((kept_of_same (others other same)).mp kept)
        have different : j ≠ i := by
          rintro rfl
          cases held.symm.trans free
        exact ⟨j, below, (places j different).trans held⟩
    · exact fresh

/-- Starting the search of a place again succeeds exactly if one of the process would. -/
theorem Find16State.Good.again (good : a.Good) (host : FindHost) {args : Find16Args}
    (used : a.InUse args.hdir) :
    ∃ find answer, DosFindFirst host (args.first (a.place args.hdir.toNat)) a.find =
        some (find, answer) ∧
      (answer.ret = .noError ↔ (args.first .system).Starts host) := by
  have inside : args.hdir.toNat < hdir16Count := by
    have bound := used.2.1
    unfold hdir16Count at bound ⊢
    omega
  obtain ⟨ref, held, dirf, level, live, started⟩ := good.live _ inside used.2.2
  have found : finderOf a.find (a.place args.hdir.toNat) = some (a.find, ref, dirf) := by
    rw [held, finderOf, live]
    rfl
  have given : (args.first (a.place args.hdir.toNat)).phdir = some (a.place args.hdir.toNat) := rfl
  obtain ⟨find, answer, called, does⟩ := DosFindFirst_effect host given found
  refine ⟨find, answer, called, does.ret_iff.trans (starts_handle host args used.2.2 ?_)⟩
  simp [held]

/-- A call that starts no search has restarted none exactly if there was none to start. -/
theorem Find16State.Good.restarts_iff (good : a.Good) {host : FindHost} {args : Find16Args}
    {out : Find16Answer} (used : a.InUse args.hdir) (places : a.SamePlaces b)
    (bad : out.ret ≠ .noError) :
    a.Restarts host args b out ↔ ¬ (args.first .system).Starts host := by
  obtain ⟨find, answer, called, succeeds⟩ := good.again host used
  rw [← succeeds]
  constructor
  · intro restarts succeeded
    obtain ⟨_, _, _, same, answered⟩ := restarts
    cases called.symm.trans same
    rw [if_pos succeeded] at answered
    exact bad answered.1
  · intro failed
    refine ⟨places, find, answer, called, ?_⟩
    rw [if_neg failed]
    exact bad

/-- A step is the only one, so it keeps to what has to be done or not. -/
theorem step16_iff {call : Find16Call} {out : Find16Answer}
    (stepped : find16Step a call = some (b, out)) :
    (∃ b out, find16Step a call = some (b, out) ∧ call.Right a b out ∧ b.Good) ↔
      call.Right a b out ∧ b.Good := by
  constructor
  · intro some_step
    obtain ⟨c, answer, again, both⟩ := some_step
    cases stepped.symm.trans again
    exact both
  · intro both
    exact ⟨b, out, stepped, both⟩

/-- A call with a handle that is the null address is refused. -/
theorem first_null_exact (good : a.Good) (host : FindHost) {args : Find16Args}
    (handle : args.hdir = 0) :
    (∃ b out, find16Step a (.first host args) = some (b, out) ∧
        Find16Call.Right a (.first host args) b out ∧ b.Good) ↔
      Find16Call.Cond a (.first host args) := by
  have null : hdir32 args.hdir = .null := by simp [hdir32, handle]
  obtain ⟨ret, bad, called⟩ := DosFindFirst_null host args a.find
  rw [← null] at called
  obtain ⟨b, stepped, same, places⟩ := Dos16FindFirst_failed called bad
  have good_next : b.Good := good.same places same
  rw [step16_iff stepped, and_iff_left good_next]
  unfold Find16Call.Right Find16Call.Cond
  dsimp only
  rw [if_pos (show args.hdir = 0 ∨ args.hdir = 1 from .inl handle)]
  by_cases used : a.InUse args.hdir
  · rw [if_pos used, if_pos used]
    exact good.restarts_iff used places bad.1
  · rw [if_neg used, if_neg used, if_neg (by simp [handle])]
    exact iff_of_true ⟨bad.1, same, places⟩ (.inl handle)

/-- A call with a handle that is no address is refused, or faults. -/
theorem first_wild_exact (good : a.Good) (host : FindHost) {args : Find16Args}
    (high : args.hdir ≠ 0) (other : args.hdir ≠ 1) (old : args.hdir ≠ -1) :
    (∃ b out, find16Step a (.first host args) = some (b, out) ∧
        Find16Call.Right a (.first host args) b out ∧ b.Good) ↔
      Find16Call.Cond a (.first host args) := by
  have wild : hdir32 args.hdir = .wild := by simp [hdir32, high, other, old]
  have cond : Find16Call.Cond a (.first host args) ↔
      searchFirst host (args.first .wild) = none := by
    simp [Find16Call.Cond, high, other, old]
  rw [cond]
  obtain ⟨nothing, ret, bad, called⟩ | ⟨searched, called⟩ := DosFindFirst_wild host args a.find
  · refine iff_of_true ?_ nothing
    rw [← wild] at called
    obtain ⟨b, stepped, same, places⟩ := Dos16FindFirst_failed called bad
    refine ⟨b, _, stepped, ?_, good.same places same⟩
    unfold Find16Call.Right
    dsimp only
    by_cases used : a.InUse args.hdir
    · rw [if_pos used]
      refine (good.restarts_iff used places bad.1).mpr fun starts => ?_
      obtain ⟨q, found, _⟩ := starts
      rw [← searchFirst_handle host args (show Hdir.wild ≠ .null by simp) (by simp)] at found
      cases nothing.symm.trans found
    · rw [if_neg used, if_neg (by simp [other, old])]
      exact ⟨bad.1, same, places⟩
  · refine iff_of_false (fun some_step => ?_) searched
    obtain ⟨b, out, stepped, _⟩ := some_step
    rw [← wild] at called
    simp [find16Step, Dos16FindFirst, called] at stepped

/-- The condition of a call that begins a search. -/
theorem Find16State.Good.begins_failed (good : a.Good) {host : FindHost} {args : Find16Args}
    {now : FindState} {answer : FindAnswer}
    (fixed : hdir32 args.hdir = .system ∨ hdir32 args.hdir = .create)
    (found : finderOf a.find (hdir32 args.hdir) = some (now, ref, dirf)) {find : FindState}
    (called : DosFindFirst host (args.first (hdir32 args.hdir)) a.find = some (find, answer))
    (does : FirstDoes host (args.first (hdir32 args.hdir)) (hdir32 args.hdir) a.find now ref find
      answer) (bad : answer.ret ≠ .noError) :
    ∃ b out, find16Step a (.first host args) = some (b, out) ∧ out.ret ≠ .noError ∧
      a.SamePlaces b ∧ b.Good ∧ a.Begins host args b out := by
  obtain ⟨b, stepped, same, places⟩ := Dos16FindFirst_failed called ⟨bad, does.ret_plain⟩
  refine ⟨b, _, stepped, bad, places, ?_, find, answer, called, .inr ?_⟩
  · exact good.failed fixed found (same ▸ does) bad places
  · exact ⟨fun both => bad both.1, bad, places⟩

/-- What is left of a search that was started, in a place or not. -/
theorem FirstDoes.of_started {host : FindHost} {args : FindFirstArgs} {hdir : Hdir}
    {now : FindState} {answer : FindAnswer} (does : FirstDoes host args hdir s now ref t answer)
    (good : answer.ret = .noError) :
    answer.hdir = some (.finder ref) ∧ ∃ dirg, Touches now t ref dirg ∧ t.Live ref := by
  cases does with
  | refused _ bad => exact absurd good bad.1
  | started _ _ _ answered touches level =>
    exact ⟨answered, _, touches, _, _, touches.here, level⟩
  | ended _ _ bad => cases good.symm.trans bad
  | freed _ _ bad => cases good.symm.trans bad

/-- A call with the handle of the process. -/
theorem first_system_exact (good : a.Good) (host : FindHost) {args : Find16Args}
    (handle : args.hdir = 1) :
    (∃ b out, find16Step a (.first host args) = some (b, out) ∧
        Find16Call.Right a (.first host args) b out ∧ b.Good) ↔
      Find16Call.Cond a (.first host args) := by
  have system : hdir32 args.hdir = .system := by simp [hdir32, handle]
  have found : finderOf a.find (hdir32 args.hdir) = some (a.find, .hdir1, a.find.hdir1) := by
    rw [system]
    rfl
  have given : (args.first (hdir32 args.hdir)).phdir = some (hdir32 args.hdir) := rfl
  obtain ⟨find, answer, called, does⟩ := DosFindFirst_effect host given found
  have succeeds := does.ret_iff
  rw [show (args.first (hdir32 args.hdir)) = args.first .system by rw [system]] at succeeds
  have cond : Find16Call.Cond a (.first host args) ↔
      ¬ (args.first .system).Starts host ∨
        ¬ a.InUse args.hdir ∧ ∀ i < hdir16Count, a.place i ≠ .finder .hdir1 := by
    simp only [Find16Call.Cond]
    rw [if_pos (show args.hdir = 0 ∨ args.hdir = 1 from .inr handle)]
    by_cases used : a.InUse args.hdir
    · simp [used]
    · rw [if_neg used]
      simp only [handle, one_ne_zero, false_or]
      rw [handle] at used
      simp [used]
  rw [cond, ← succeeds]
  by_cases bad : answer.ret = .noError
  · obtain ⟨answered, dirg, touches, live⟩ := does.of_started bad
    obtain ⟨b, out, stepped, same, ⟨full, spent, places⟩ |
      ⟨i, inside, free, succeeded, named, here, places⟩⟩ :=
      Dos16FindFirst_started called bad answered
    · -- All places are in use, the one of this handle among them.
      have used : a.InUse args.hdir := by
        rw [handle]
        exact ⟨by decide, by decide, fun null => full ⟨1, by decide, null⟩⟩
      rw [step16_iff stepped]
      unfold Find16Call.Right
      dsimp only
      rw [if_pos used, good.restarts_iff used places (by simp [spent]), ← succeeds]
      simp [bad, used]
    · have placed := good.placed_iff inside free here places
        (by rw [same]; exact touches.others) (by rw [same]; exact live)
        (by rw [same]; exact touches.fresh good.fresh rfl)
      rw [step16_iff stepped, placed]
      simp only [bad, not_true_eq_false, false_or]
      refine and_congr ?_ Iff.rfl
      unfold Find16Call.Right
      dsimp only
      by_cases used : a.InUse args.hdir
      · -- The search goes to another place.
        rw [if_pos used]
        refine iff_of_false (fun restarts => ?_) (fun unused => unused used)
        obtain ⟨_, _, _, again, told⟩ := restarts
        obtain ⟨_, _, second, starts⟩ := good.again host used
        cases second.symm.trans again
        rw [if_pos (starts.mpr (succeeds.mp bad))] at told
        cases named.symm.trans told.2.1
        exact used.2.2 free
      · rw [if_neg used, if_pos (.inl handle)]
        refine iff_of_true ?_ used
        refine ⟨find, answer, called, .inl ⟨bad, ⟨i, inside, free⟩, succeeded, same, ?_⟩⟩
        exact ⟨i, inside, free, named, by rw [here, answered], places⟩
  · obtain ⟨b, out, stepped, failed, places, good_next, begins⟩ :=
      good.begins_failed (.inl system) found called does bad
    rw [step16_iff stepped, and_iff_left good_next]
    refine iff_of_true ?_ (.inl bad)
    unfold Find16Call.Right
    dsimp only
    by_cases used : a.InUse args.hdir
    · rw [if_pos used, good.restarts_iff used places failed, ← succeeds]
      exact bad
    · rw [if_neg used, if_pos (.inl handle)]
      exact begins

/-- A call with the handle that asks for memory. -/
theorem first_create_exact (good : a.Good) (host : FindHost) {args : Find16Args}
    (handle : args.hdir = -1) :
    (∃ b out, find16Step a (.first host args) = some (b, out) ∧
        Find16Call.Right a (.first host args) b out ∧ b.Good) ↔
      Find16Call.Cond a (.first host args) := by
  have create : hdir32 args.hdir = .create := by simp [hdir32, handle]
  obtain ⟨now, dirf, found⟩ : ∃ now dirf,
      finderOf a.find (hdir32 args.hdir) = some (now, .block a.find.allocated, dirf) := by
    rw [create]
    exact ⟨_, _, rfl⟩
  have given : (args.first (hdir32 args.hdir)).phdir = some (hdir32 args.hdir) := rfl
  obtain ⟨find, answer, called, does⟩ := DosFindFirst_effect host given found
  have succeeds := does.ret_iff
  rw [show (args.first (hdir32 args.hdir)) = args.first .create by rw [create]] at succeeds
  have unused : ¬ a.InUse args.hdir := by
    rw [handle]
    exact fun used => absurd used.1 (by decide)
  have cond : Find16Call.Cond a (.first host args) ↔
      ¬ (args.first .create).Starts host ∨ a.HasFree := by
    simp [Find16Call.Cond, handle]
  -- The memory is new, so no place holds the search.
  have new : ∀ j < hdir16Count, a.place j ≠ .finder (.block a.find.allocated) := by
    intro j below held
    obtain ⟨other, holds, _, _, there, _⟩ := good.live j below (by simp [held])
    cases held.symm.trans holds
    exact absurd (good.fresh _ _ there) (Nat.lt_irrefl _)
  obtain ⟨live_now, fresh_now, before⟩ := finderOf_now found good.fresh
  rw [cond, ← succeeds]
  by_cases bad : answer.ret = .noError
  · obtain ⟨answered, dirg, touches, live⟩ := does.of_started bad
    obtain ⟨b, out, stepped, same, ⟨full, spent, places⟩ |
      ⟨i, inside, free, succeeded, named, here, places⟩⟩ :=
      Dos16FindFirst_started called bad answered
    · -- The search is kept, and in no place.
      rw [step16_iff stepped]
      refine iff_of_false (fun both => ?_) (by simp [bad, full])
      have kept : b.find.Kept (.block a.find.allocated) := by
        rw [same]
        have there : find.blocks a.find.allocated = some dirg := touches.here
        simp [FindState.Kept, there]
      obtain ⟨j, below, held⟩ := both.2.kept _ kept
      exact new j below ((places j).symm.trans held)
    · have placed := good.placed_iff inside free here places
        (by
          intro other different
          rw [same, touches.others other different]
          exact before other different)
        (by rw [same]; exact live)
        (by rw [same]; exact touches.fresh fresh_now live_now)
      rw [step16_iff stepped, placed, and_iff_left new]
      refine iff_of_true ?_ (.inr ⟨i, inside, free⟩)
      unfold Find16Call.Right
      dsimp only
      rw [if_neg unused, if_pos (.inr handle)]
      refine ⟨find, answer, called, .inl ⟨bad, ⟨i, inside, free⟩, succeeded, same, ?_⟩⟩
      exact ⟨i, inside, free, named, by rw [here, answered], places⟩
  · obtain ⟨b, out, stepped, _, _, good_next, begins⟩ :=
      good.begins_failed (.inr create) found called does bad
    rw [step16_iff stepped, and_iff_left good_next]
    refine iff_of_true ?_ (.inl bad)
    unfold Find16Call.Right
    dsimp only
    rw [if_neg unused, if_pos (.inr handle)]
    exact begins

/-- A number is the handle of a search exactly if its place is. -/
theorem inUse_natCast (s : Find16State) (hDir : Nat) :
    s.InUse hDir ↔ hDir < hdir16Count ∧ s.place hDir ≠ .null := by
  simp [Find16State.InUse]

/-- Going on with a live search keeps it live and touches no other one. -/
theorem DosFindNext_touches (host : FindHost) {args : FindNextArgs}
    (handle : args.hDir = .finder ref) (live : s.Live ref) :
    ∃ t out dirg, DosFindNext host args s = some (t, out) ∧ Touches s t ref dirg ∧ t.Live ref ∧
      (t.Kept ref → s.Kept ref) := by
  obtain ⟨dirf, level, there, started⟩ := live
  obtain ⟨ret, count, _, _, called⟩ | ⟨_, unknown⟩ | ⟨q, other, dirg, dirp, _, goes, called⟩ :=
    DosFindNext_does host args s
  · exact ⟨s, _, dirf, called, ⟨there, fun _ _ => rfl, rfl⟩, ⟨_, _, there, started⟩, id⟩
  · -- The search is there, and has been started.
    rcases unknown with wild | ⟨other, same, unstarted⟩
    · cases handle.symm.trans wild
    · cases handle.symm.trans same
      cases (unstarted dirf there).symm.trans started
  · cases handle.symm.trans goes.handle
    cases went : findNext host s ref dirg q.level args.cbfindbuf q.count with
    | mk t out =>
      rw [went] at called
      obtain ⟨dirh, touches, same, _⟩ :=
        findNext_touches host args.cbfindbuf q.count goes.live went
      refine ⟨t, out, dirh, called, touches, ⟨_, _, touches.here, same.trans goes.level⟩, ?_⟩
      intro _
      cases ref with
      | hdir1 =>
        have here : s.hdir1 = dirg := Option.some.inj goes.live
        simp [FindState.Kept, here, goes.started]
      | block id =>
        have here : s.blocks id = some dirg := goes.live
        simp [FindState.Kept, here]

/-- A call that goes on with a search reads its place of the table, if there is one. -/
theorem next16_exact (good : a.Good) (host : FindHost) (args : Next16Args) :
    (∃ b out, find16Step a (.next host args) = some (b, out) ∧
        Find16Call.Right a (.next host args) b out ∧ b.Good) ↔
      Find16Call.Cond a (.next host args) := by
  cases table : a.hdir16 with
  | none =>
    refine iff_of_false (fun some_step => ?_) (by simp [Find16Call.Cond, table])
    obtain ⟨b, out, stepped, _⟩ := some_step
    simp [find16Step, Dos16FindNext, table] at stepped
  | some hdir16 =>
    have place : a.place args.hDir = hdir16 args.hDir := by
      simp only [Find16State.place, table]
    by_cases outside : hdir16Count ≤ args.hDir
    · refine iff_of_false (fun some_step => ?_) (by simp [Find16Call.Cond, outside])
      obtain ⟨b, out, stepped, _⟩ := some_step
      simp [find16Step, Dos16FindNext, table, outside] at stepped
    · have inside : args.hDir < hdir16Count := Nat.lt_of_not_le outside
      have stepped {t : FindState} {answer : FindAnswer}
          (called : DosFindNext host (args.next (a.place args.hDir)) a.find = some (t, answer)) :
          find16Step a (.next host args) =
            some ({ a with find := t }, { ret := answer.ret, count := answer.count }) := by
        rw [place] at called
        simp only [find16Step, Dos16FindNext, table, called, if_neg outside]
        rfl
      refine iff_of_true ?_ ⟨by simp [table], inside⟩
      by_cases free : a.place args.hDir = .null
      · -- The handle of no search is refused.
        have called : DosFindNext host (args.next (a.place args.hDir)) a.find =
            some (a.find, { ret := .errorInvalidHandle }) := by
          rw [free]
          rfl
        refine ⟨_, _, stepped called, ?_, good⟩
        unfold Find16Call.Right
        dsimp only
        rw [if_neg (by simp [inUse_natCast, free])]
        exact ⟨by simp, rfl, fun _ => rfl⟩
      · obtain ⟨ref, held, live⟩ := good.live _ inside free
        have handle : (args.next (a.place args.hDir)).hDir = .finder ref := held
        obtain ⟨t, answer, dirg, called, touches, lives, kept⟩ :=
          DosFindNext_touches host handle live
        obtain ⟨dirf, level, there, _⟩ := live
        refine ⟨_, _, stepped called, ?_, ?_⟩
        · unfold Find16Call.Right
          dsimp only
          rw [if_pos ((inUse_natCast ..).mpr ⟨inside, free⟩)]
          exact ⟨fun _ => rfl, answer, called, rfl, rfl⟩
        · refine good.touched ref (fun _ => rfl) touches.others (fun _ => lives) ?_
            (touches.fresh good.fresh there)
          exact fun now => good.kept ref (kept now)

/-- A call that ends a search frees its place. -/
theorem close16_exact (good : a.Good) (hDir : Nat) :
    (∃ b out, find16Step a (.close hDir) = some (b, out) ∧
        Find16Call.Right a (.close hDir) b out ∧ b.Good) ↔
      Find16Call.Cond a (.close hDir) := by
  by_cases far : hdir16Count < hDir
  · -- A handle far behind the table is refused.
    have unused : ¬ a.InUse hDir := fun used =>
      absurd ((inUse_natCast ..).mp used).1 (Nat.not_lt_of_gt far)
    have stepped : find16Step a (.close hDir) = some (a, { ret := .errorInvalidHandle }) := by
      simp [find16Step, Dos16FindClose, far]
    refine iff_of_true ⟨a, _, stepped, ?_, good⟩ (.inl far)
    unfold Find16Call.Right
    dsimp only
    rw [if_neg unused]
    exact ⟨by simp, rfl, fun _ => rfl⟩
  · cases table : a.hdir16 with
    | none =>
      refine iff_of_false (fun some_step => ?_) (by simp [Find16Call.Cond, table, far])
      obtain ⟨b, out, stepped, _⟩ := some_step
      simp [find16Step, Dos16FindClose, table, far] at stepped
    | some hdir16 =>
      have place (i : Nat) : a.place i = hdir16 i := by
        simp only [Find16State.place, table]
      by_cases outside : hdir16Count ≤ hDir
      · refine iff_of_false (fun some_step => ?_) (by simp [Find16Call.Cond, outside, far])
        obtain ⟨b, out, stepped, _⟩ := some_step
        simp [find16Step, Dos16FindClose, table, far, outside] at stepped
      · have inside : hDir < hdir16Count := Nat.lt_of_not_le outside
        have stepped {t : FindState} {answer : FindAnswer}
            (called : DosFindClose (a.place hDir) a.find = some (t, answer)) :
            find16Step a (.close hDir) =
              some ({ find := t, hdir16 := some (Function.update hdir16 hDir .null) },
                { ret := answer.ret }) := by
          rw [place] at called
          simp only [find16Step, Dos16FindClose, table, called, if_neg far, if_neg outside]
          rfl
        have others (t : FindState) (j : Nat) (different : j ≠ hDir) :
            Find16State.place ⟨t, some (Function.update hdir16 hDir .null)⟩ j = a.place j := by
          rw [place]
          exact Function.update_of_ne different ..
        have here (t : FindState) :
            Find16State.place ⟨t, some (Function.update hdir16 hDir .null)⟩ hDir = .null :=
          Function.update_self ..
        refine iff_of_true ?_ (.inr ⟨by simp [table], inside⟩)
        by_cases free : a.place hDir = .null
        · have called : DosFindClose (a.place hDir) a.find =
              some (a.find, { ret := .errorInvalidHandle }) := by
            rw [free]
            rfl
          have places : a.SamePlaces
              ⟨a.find, some (Function.update hdir16 hDir .null)⟩ := by
            intro j
            by_cases same : j = hDir
            · rw [same, here, free]
            · exact others _ j same
          refine ⟨_, _, stepped called, ?_, good.same places rfl⟩
          unfold Find16Call.Right
          dsimp only
          rw [if_neg (by simp [inUse_natCast, free])]
          exact ⟨by simp, rfl, places⟩
        · obtain ⟨ref, held, dirf, level, there, _⟩ := good.live _ inside free
          have called : DosFindClose (a.place hDir) a.find =
              some ((a.find.closedir dirf.dirp).dropFinder ref, { ret := .noError }) := by
            rw [held, DosFindClose, there]
            rfl
          refine ⟨_, _, stepped called, ?_, ?_⟩
          · unfold Find16Call.Right
            dsimp only
            rw [if_pos ((inUse_natCast ..).mpr ⟨inside, free⟩)]
            exact ⟨rfl, here _, others _⟩
          · exact good.ended inside held (here _) (others _)

/-- A call does what it has to do, and keeps the table, exactly under the condition. -/
theorem find16Step_exact (a : Find16State) (call : Find16Call) (good : a.Good) :
    (∃ b out, find16Step a call = some (b, out) ∧ call.Right a b out ∧ b.Good) ↔ call.Cond a := by
  cases call with
  | first host args =>
    -- The numbers with a meaning to the 32-bit call are taken apart from the others.
    by_cases null : args.hdir = 0
    · exact first_null_exact good host null
    · by_cases system : args.hdir = 1
      · exact first_system_exact good host system
      · by_cases create : args.hdir = -1
        · exact first_create_exact good host create
        · exact first_wild_exact good host null system create
  | next host args => exact next16_exact good host args
  | close hDir => exact close16_exact good hDir

/-- There is no search when a process starts. -/
theorem find16_start : Find16State.Good {} where
  live i inside used := absurd rfl used
  apart i inside j below used := absurd rfl used
  kept ref kept := by cases ref <;> exact absurd rfl kept
  fresh id dirf there := by cases there

/-- A search is started, and the place behind the table is closed. -/
def closeBehindTable : List Find16Call :=
  [.first oneFileHost {
      pszFileSpec := CStrings.ascii "*"
      hdir := -1
      flAttribute := 0
      cbBuf := 512
      pcFileNames := 1 },
    .close 10]

end TwoIne
