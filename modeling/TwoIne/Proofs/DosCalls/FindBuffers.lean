import Mathlib.Data.List.Chain
import TwoIne.DosCalls.FindFiles

/-! What a search writes: it keeps to its buffer exactly if there is room for whole records. -/

namespace TwoIne

/-- What a call that goes on with a search looks for. -/
structure Search where
  level : InfoLevel
  attr : Nat
  pattern : List UInt8
  count : Nat
  entries : List DirEntry

/-- The calls that look for files. -/
inductive FindCall where
  | first (args : FindFirstArgs)
  | next (args : FindNextArgs)

/-- Making a call. -/
def FindCall.make (host : FindHost) (s : FindState) : FindCall → Option (FindState × FindAnswer)
  | .first args => DosFindFirst host args s
  | .next args => DosFindNext host args s

/-- The size of the buffer that is passed to a call. -/
def FindCall.cbBuf : FindCall → Nat
  | .first args => args.cbBuf
  | .next args => args.cbfindbuf

/-- What a call that starts a search looks for, if it comes to that. -/
def searchFirst (host : FindHost) (args : FindFirstArgs) : Option Search :=
  match checkFindFirst args, host.makeUnixPath args.pszFileSpec with
  | .ok (hdir, count, level), .ok path =>
    let (directory, pattern) := splitPattern path
    if cchMaxPathComp ≤ pattern.length ∨ (hdir = .create ∧ host.room = false) then none
    else
      match host.opendir (directory.getD [fullStop]) with
      | .error _ => none
      | .ok entries =>
        some { level, attr := searchAttributes args.flAttribute, pattern, count, entries }
  | _, _ => none

/-- What a call that goes on with a search looks for, if it comes to that. -/
def searchNext (args : FindNextArgs) (s : FindState) : Option Search :=
  match args.pcFilenames, args.hDir with
  | some count, .finder ref =>
    if 0xFFFF < args.cbfindbuf ∨ (args.pfindbuf = false ∧ count ≠ 0) then none
    else
      match s.finder ref with
      | some { dirp := some dirp, attr, level := some level, pattern } =>
        if args.cbfindbuf < findNextSizeNeeded level count then none
        else some { level, attr, pattern, count, entries := dirp.entries }
      | _ => none
  | _, _ => none

/-- What a call looks for. -/
def FindCall.search (host : FindHost) (s : FindState) : FindCall → Option Search
  | .first args => searchFirst host args
  | .next args => searchNext args s

/-- What is known of an entry that a search is for. -/
def entryStat (attr : Nat) (pattern : List UInt8) (entry : DirEntry) : Option FileStat :=
  if mustHave attr &&& (fileHidden ||| fileSystem ||| fileArchived) ≠ 0 ∨
      cchMaxPathComp ≤ entry.name.length then none
  else entryWanted attr pattern entry

/-- The entries that a search is for. -/
def wantedEntries (attr : Nat) (pattern : List UInt8) (entries : List DirEntry) : List DirEntry :=
  entries.filter fun entry => (entryStat attr pattern entry).isSome

/-- There is room for the name of an entry, and for as much as the calls count besides. -/
def HasRoom (level : InfoLevel) (cbBuf : Nat) (entry : DirEntry) : Prop :=
  entry.name.length + findNextSizeNeeded level 1 < cbBuf

/-- How much is written from the place of a record on: it is cleared, and its name is copied. -/
def Found.extent (level : InfoLevel) (found : Found) : Nat :=
  max (if level = .sixteen then 0 else level.recordSize)
    (level.nameOffset + found.entry.name.length + 1)

/-- A search keeps to its buffer. -/
structure InBuffer (level : InfoLevel) (cbBuf : Nat) (found : List Found) : Prop where
  /-- What is written is written into the buffer. -/
  written : ∀ f ∈ found, f.cursor.offset + f.extent level ≤ cbBuf
  /-- What is subtracted from the size that is left is not more than that. -/
  counted : ∀ f ∈ found, level ≠ .sixteen → level.recordSize ≤ f.cursor.cbBuf
  /-- No record leads out of the buffer. -/
  linked : ∀ f ∈ found, ∀ next, f.record.oNextEntryOffset = some next →
    f.cursor.offset + next ≤ cbBuf
  /-- Every record leads to the next one. -/
  chained : found.IsChain fun f g => ∀ next, f.record.oNextEntryOffset = some next →
    g.cursor.offset = f.cursor.offset + next

/-- The records of a kind follow each other, and have all that they are made of. -/
def InfoLevel.advances (level : InfoLevel) : Prop := level = .standard ∨ level = .queryEaSize

/--
Whole records have room: as many as are asked for, or else what is left behind those is too small
for the name of any entry that would be next.
-/
def RecordsFit (q : Search) (cbBuf : Nat) : Prop :=
  q.level.advances →
    q.count * q.level.recordSize ≤ cbBuf ∨
      ∀ entry ∈ (wantedEntries q.attr q.pattern q.entries).drop (cbBuf / q.level.recordSize),
        ¬ HasRoom q.level (cbBuf % q.level.recordSize) entry

variable {localtime : Int → BrokenTime} {level : InfoLevel} {attr : Nat} {pattern : List UInt8}
  {cursor : FindCursor} {entries : List DirEntry}

/-- What a search for one entry comes to. -/
inductive FindOne (localtime : Int → BrokenTime) (level : InfoLevel) (attr : Nat)
    (pattern : List UInt8) (cursor : FindCursor) (entries : List DirEntry) :
    Option Found × List DirEntry → Prop
  /-- No entry that the search is for has room, and none is left. -/
  | nothing {rest : List DirEntry}
    (spent : level = .queryEasFromList ∨
      ∀ entry ∈ wantedEntries attr pattern entries, ¬ HasRoom level cursor.cbBuf entry)
    (ended : wantedEntries attr pattern rest = []) :
    FindOne localtime level attr pattern cursor entries (none, rest)
  /-- The first entry that the search is for and that has room is found. -/
  | one {front rest : List DirEntry} {entry : DirEntry} {statbuf : FileStat}
    (plain : level ≠ .queryEasFromList) (split : entries = front ++ entry :: rest)
    (passed : ∀ entry ∈ wantedEntries attr pattern front, ¬ HasRoom level cursor.cbBuf entry)
    (wanted : entryStat attr pattern entry = some statbuf)
    (room : HasRoom level cursor.cbBuf entry) :
    FindOne localtime level attr pattern cursor entries
      (some (fillRecord localtime level cursor entry statbuf), rest)

/-- An entry in front that is not returned changes nothing. -/
theorem FindOne.pass {entry : DirEntry} {out : Option Found × List DirEntry}
    (refused : ∀ statbuf, entryStat attr pattern entry = some statbuf →
      level = .queryEasFromList ∨ ¬ HasRoom level cursor.cbBuf entry)
    (one : FindOne localtime level attr pattern cursor entries out) :
    FindOne localtime level attr pattern cursor (entry :: entries) out := by
  have cons (plain : level ≠ .queryEasFromList) (tail : List DirEntry)
      (spent : ∀ e ∈ wantedEntries attr pattern tail, ¬ HasRoom level cursor.cbBuf e) :
      ∀ e ∈ wantedEntries attr pattern (entry :: tail), ¬ HasRoom level cursor.cbBuf e := by
    intro e member
    obtain ⟨among, some⟩ := List.mem_filter.mp member
    rcases List.mem_cons.mp among with rfl | later
    · obtain ⟨statbuf, known⟩ := Option.isSome_iff_exists.mp some
      exact (refused statbuf known).resolve_left plain
    · exact spent e (List.mem_filter.mpr ⟨later, some⟩)
  cases one with
  | nothing spent ended =>
    refine .nothing ?_ ended
    by_cases plain : level = .queryEasFromList
    · exact .inl plain
    · exact .inr (cons plain entries (spent.resolve_left plain))
  | one plain split passed wanted room =>
    exact .one plain (by rw [split]; rfl) (cons plain _ passed) wanted room

/-- Reading the entries of a directory finds the first one that the search is for and has room. -/
theorem nextWanted_one
    (known : mustHave attr &&& (fileHidden ||| fileSystem ||| fileArchived) = 0) :
    FindOne localtime level attr pattern cursor entries
      (nextWanted localtime level attr pattern cursor entries) := by
  fun_induction nextWanted localtime level attr pattern cursor entries with
  | case1 => exact .nothing (.inr (by simp [wantedEntries])) rfl
  | case2 entry rest long ih =>
    refine ih.pass fun statbuf wanted => ?_
    simp [entryStat, known, long] at wanted
  | case3 entry rest short full ih =>
    exact ih.pass fun statbuf wanted => .inr (Nat.not_lt.mpr full)
  | case4 entry rest short room unwanted ih =>
    refine ih.pass fun statbuf wanted => ?_
    simp [entryStat, known, short, unwanted] at wanted
  | case5 entry rest short room statbuf wanted plain ih =>
    exact ih.pass fun _ _ => .inl plain
  | case6 entry rest short room statbuf wanted plain =>
    have known : entryStat attr pattern entry = some statbuf := by
      simp [entryStat, known, short, wanted]
    have split : entry :: rest = [] ++ entry :: rest := rfl
    exact .one plain split (by simp [wantedEntries]) known (Nat.lt_of_not_le room)

/-- Looking for one entry finds the first one that the search is for and that has room. -/
theorem findNextOne_one (localtime : Int → BrokenTime) (level : InfoLevel) (attr : Nat)
    (pattern : List UInt8) (cursor : FindCursor) (entries : List DirEntry) :
    FindOne localtime level attr pattern cursor entries
      (findNextOne localtime level attr pattern cursor entries) := by
  unfold findNextOne
  by_cases known : mustHave attr &&& (fileHidden ||| fileSystem ||| fileArchived) = 0
  · rw [if_neg (by simpa using known)]
    exact nextWanted_one known
  · -- Nothing has an attribute that the host does not know.
    have none_wanted : wantedEntries attr pattern entries = [] := by
      rw [wantedEntries, List.filter_eq_nil_iff]
      intro entry _
      simp [entryStat, known]
    rw [if_pos known]
    exact .nothing (.inr (by simp [none_wanted])) none_wanted

/-- An entry that a search is for is among those that were read. -/
theorem wantedEntries_split (front rest : List DirEntry) {entry : DirEntry} {statbuf : FileStat}
    (wanted : entryStat attr pattern entry = some statbuf) :
    wantedEntries attr pattern (front ++ entry :: rest) =
      wantedEntries attr pattern front ++ entry :: wantedEntries attr pattern rest := by
  simp [wantedEntries, List.filter_append, wanted]

/-- The name of an entry that a search is for fits into a record. -/
theorem entryStat_short {entry : DirEntry} {statbuf : FileStat}
    (wanted : entryStat attr pattern entry = some statbuf) : entry.name.length < 256 := by
  unfold entryStat cchMaxPathComp at wanted
  split at wanted
  · cases wanted
  · omega

/-- The names of the entries that a search is for fit into a record. -/
theorem wantedEntries_short {entry : DirEntry} (member : entry ∈ wantedEntries attr pattern entries) :
    entry.name.length < 256 := by
  obtain ⟨statbuf, wanted⟩ := Option.isSome_iff_exists.mp (List.mem_filter.mp member).2
  exact entryStat_short wanted

/-- A record that is followed by others has room for every name. -/
theorem InfoLevel.advances.sizes (moves : level.advances) :
    level ≠ .sixteen ∧ level ≠ .queryEasFromList ∧
      findNextSizeNeeded level 1 + 256 = level.recordSize ∧
      level.nameOffset + 256 ≤ level.recordSize := by
  rcases moves with rfl | rfl <;> decide

/-- An entry has room where a whole record has. -/
theorem hasRoom_whole (moves : level.advances) {entry : DirEntry} {cbBuf : Nat}
    (short : entry.name.length < 256) (whole : level.recordSize ≤ cbBuf) :
    HasRoom level cbBuf entry := by
  obtain ⟨_, _, need, _⟩ := moves.sizes
  unfold HasRoom
  omega

/-- Where whole records have room, no entry that a search is for is passed over. -/
theorem passed_whole (moves : level.advances) {cbBuf : Nat} (whole : level.recordSize ≤ cbBuf)
    (passed : ∀ entry ∈ wantedEntries attr pattern entries, ¬ HasRoom level cbBuf entry) :
    wantedEntries attr pattern entries = [] := by
  rw [List.eq_nil_iff_forall_not_mem]
  intro entry member
  exact passed entry member (hasRoom_whole moves (wantedEntries_short member) whole)

/-- Looking for several entries ends, or goes on behind the first one. -/
theorem findEntries_step (localtime : Int → BrokenTime) (level : InfoLevel) (attr : Nat)
    (pattern : List UInt8) (left : Nat) (cursor : FindCursor) (entries : List DirEntry) :
    (∃ rest, findEntries localtime level attr pattern (left + 1) cursor entries = ([], rest) ∧
        (level = .queryEasFromList ∨
          ∀ entry ∈ wantedEntries attr pattern entries, ¬ HasRoom level cursor.cbBuf entry) ∧
        wantedEntries attr pattern rest = []) ∨
      ∃ front rest entry statbuf, level ≠ .queryEasFromList ∧ entries = front ++ entry :: rest ∧
        (∀ entry ∈ wantedEntries attr pattern front, ¬ HasRoom level cursor.cbBuf entry) ∧
        entryStat attr pattern entry = some statbuf ∧ HasRoom level cursor.cbBuf entry ∧
        findEntries localtime level attr pattern (left + 1) cursor entries =
          (fillRecord localtime level cursor entry statbuf ::
              (findEntries localtime level attr pattern left
                (FindCursor.advance level (fillRecord localtime level cursor entry statbuf))
                rest).1,
            (findEntries localtime level attr pattern left
              (FindCursor.advance level (fillRecord localtime level cursor entry statbuf))
              rest).2) := by
  have one := findNextOne_one localtime level attr pattern cursor entries
  rw [findEntries]
  generalize findNextOne localtime level attr pattern cursor entries = out at one
  cases one with
  | nothing spent ended => exact .inl ⟨_, rfl, spent, ended⟩
  | one plain split passed wanted room =>
    exact .inr ⟨_, _, _, _, plain, split, passed, wanted, room, rfl⟩

/-- The first record is put where the search is told to. -/
theorem findEntries_head {count : Nat} {f : Found} {more : List Found}
    (found : (findEntries localtime level attr pattern count cursor entries).1 = f :: more) :
    f.cursor = cursor := by
  cases count with
  | zero => cases found
  | succ left =>
    obtain ⟨rest, ended, _⟩ | ⟨front, rest, entry, statbuf, _, _, _, _, _, one⟩ :=
      findEntries_step localtime level attr pattern left cursor entries
    · rw [ended] at found
      cases found
    · rw [one] at found
      cases found
      rfl

/-- A cursor that moves on stays as far from the end as is left of the buffer. -/
theorem advance_moves (moves : level.advances) {entry : DirEntry} {statbuf : FileStat}
    (whole : level.recordSize ≤ cursor.cbBuf) (small : cursor.cbBuf < 2 ^ 32) :
    FindCursor.advance level (fillRecord localtime level cursor entry statbuf) =
      { offset := cursor.offset + level.recordSize, cbBuf := cursor.cbBuf - level.recordSize } := by
  have left : uint32Sub cursor.cbBuf level.recordSize = cursor.cbBuf - level.recordSize := by
    unfold uint32Sub
    omega
  rw [FindCursor.advance, if_neg moves.sizes.1, ← left]
  rfl

/-- A record that fits in front of others that keep to the buffer keeps to it as well. -/
theorem inBuffer_cons_iff (moves : level.advances) {total : Nat} {entry : DirEntry}
    {statbuf : FileStat} {more : List Found} (short : entry.name.length < 256)
    (sum : cursor.offset + cursor.cbBuf = total) (whole : level.recordSize ≤ cursor.cbBuf)
    (next : ∀ g rest, more = g :: rest → g.cursor.offset = cursor.offset + level.recordSize) :
    InBuffer level total (fillRecord localtime level cursor entry statbuf :: more) ↔
      InBuffer level total more := by
  obtain ⟨other, _, _, name⟩ := moves.sizes
  constructor
  · intro inside
    exact ⟨fun f member => inside.written f (List.mem_cons_of_mem _ member),
      fun f member => inside.counted f (List.mem_cons_of_mem _ member),
      fun f member => inside.linked f (List.mem_cons_of_mem _ member), inside.chained.tail⟩
  · intro inside
    have extent : (fillRecord localtime level cursor entry statbuf).extent level =
        level.recordSize := by
      simp only [Found.extent, fillRecord, other, if_false]
      omega
    have link : (fillRecord localtime level cursor entry statbuf).record.oNextEntryOffset =
        some level.recordSize := by
      simp [fillRecord, other]
    refine ⟨?_, ?_, ?_, ?_⟩
    · intro f member
      rcases List.mem_cons.mp member with rfl | later
      · rw [extent]
        exact (Nat.add_le_add_left whole _).trans_eq sum
      · exact inside.written f later
    · intro f member
      rcases List.mem_cons.mp member with rfl | later
      · exact fun _ => whole
      · exact inside.counted f later
    · intro f member
      rcases List.mem_cons.mp member with rfl | later
      · intro leads same
        rw [← Option.some.inj (link.symm.trans same)]
        exact (Nat.add_le_add_left whole _).trans_eq sum
      · exact inside.linked f later
    · cases more with
      | nil => exact .singleton _
      | cons g rest =>
        refine .cons_cons ?_ inside.chained
        intro leads same
        rw [← Option.some.inj (link.symm.trans same)]
        exact next g rest rfl

/-- Records that follow each other keep to their buffer exactly if there is room for all of them. -/
theorem findEntries_inBuffer_iff (moves : level.advances) (count : Nat) {total : Nat}
    (sum : cursor.offset + cursor.cbBuf = total) (small : cursor.cbBuf < 2 ^ 32) :
    InBuffer level total (findEntries localtime level attr pattern count cursor entries).1 ↔
      count * level.recordSize ≤ cursor.cbBuf ∨
        ∀ entry ∈ (wantedEntries attr pattern entries).drop (cursor.cbBuf / level.recordSize),
          ¬ HasRoom level (cursor.cbBuf % level.recordSize) entry := by
  obtain ⟨other, plain, need, name⟩ := moves.sizes
  have nothing : InBuffer level total [] := ⟨by simp, by simp, by simp, .nil⟩
  induction count generalizing cursor entries with
  | zero =>
    rw [findEntries]
    exact iff_of_true nothing (.inl (by omega))
  | succ left ih =>
    obtain ⟨rest, ended, spent, _⟩ | ⟨front, rest, entry, statbuf, _, split, passed, wanted, room, one⟩ :=
      findEntries_step localtime level attr pattern left cursor entries
    · -- Nothing is found, since nothing has room any more.
      rw [ended]
      refine iff_of_true nothing (.inr ?_)
      have spent := spent.resolve_left plain
      by_cases whole : level.recordSize ≤ cursor.cbBuf
      · rw [passed_whole moves whole spent]
        simp
      · rw [Nat.div_eq_of_lt (by omega), Nat.mod_eq_of_lt (by omega)]
        exact spent
    · rw [one, split, wantedEntries_split front rest wanted]
      by_cases whole : level.recordSize ≤ cursor.cbBuf
      · -- The record fits, and the rest of the buffer is for the others.
        rw [passed_whole moves whole passed, advance_moves moves whole small, List.nil_append]
        have later := @ih ⟨cursor.offset + level.recordSize, cursor.cbBuf - level.recordSize, 0⟩
          rest (by simp only; omega) (by simp only; omega)
        refine (inBuffer_cons_iff moves (entryStat_short wanted) sum whole fun g rest first =>
          congrArg FindCursor.offset (findEntries_head first)).trans (later.trans ?_)
        -- One record less is asked for, and one size less is there.
        have divided : cursor.cbBuf / level.recordSize =
            (cursor.cbBuf - level.recordSize) / level.recordSize + 1 :=
          Nat.div_eq_sub_div (by omega) whole
        rw [divided, List.drop_succ_cons, Nat.mod_eq_sub_mod whole, Nat.succ_mul,
          Nat.le_sub_iff_add_le whole]
      · -- The record is too large for what is left.
        refine iff_of_false ?_ ?_
        · intro inside
          have counted := inside.counted _ List.mem_cons_self other
          exact whole counted
        · intro fits
          rcases fits with enough | others
          · have more : level.recordSize ≤ (left + 1) * level.recordSize :=
              Nat.le_mul_of_pos_left _ (by omega)
            omega
          · rw [Nat.div_eq_of_lt (by omega), Nat.mod_eq_of_lt (by omega)] at others
            exact others entry (by simp) room

/-- What is found has the record of an entry that the search is for and that has room. -/
theorem findEntries_filled (count : Nat) {f : Found}
    (member : f ∈ (findEntries localtime level attr pattern count cursor entries).1) :
    ∃ statbuf, entryStat attr pattern f.entry = some statbuf ∧
      HasRoom level f.cursor.cbBuf f.entry ∧
      f = fillRecord localtime level f.cursor f.entry statbuf := by
  induction count generalizing cursor entries with
  | zero => cases member
  | succ left ih =>
    obtain ⟨rest, ended, _⟩ | ⟨front, rest, entry, statbuf, _, _, _, wanted, room, one⟩ :=
      findEntries_step localtime level attr pattern left cursor entries
    · rw [ended] at member
      cases member
    · rw [one] at member
      rcases List.mem_cons.mp member with rfl | later
      · exact ⟨statbuf, wanted, room, rfl⟩
      · exact ih later

/-- The records of the 16-bit calls are all put in one place. -/
theorem findEntries_sixteen (count : Nat) {f : Found}
    (member : f ∈ (findEntries localtime .sixteen attr pattern count cursor entries).1) :
    f.cursor.offset = cursor.offset ∧ f.cursor.cbBuf = cursor.cbBuf := by
  induction count generalizing cursor entries with
  | zero => cases member
  | succ left ih =>
    obtain ⟨rest, ended, _⟩ | ⟨front, rest, entry, statbuf, _, _, _, _, _, one⟩ :=
      findEntries_step localtime .sixteen attr pattern left cursor entries
    · rw [ended] at member
      cases member
    · rw [one] at member
      rcases List.mem_cons.mp member with rfl | later
      · exact ⟨rfl, rfl⟩
      · have placed := ih later
        exact placed

/-- The records of the 16-bit calls keep to their buffer. -/
theorem findEntries_sixteen_inBuffer (count cbBuf : Nat) :
    InBuffer .sixteen cbBuf
      (findEntries localtime .sixteen attr pattern count ⟨0, cbBuf, 0⟩ entries).1 := by
  have unlinked : ∀ f ∈ (findEntries localtime .sixteen attr pattern count ⟨0, cbBuf, 0⟩ entries).1,
      f.record.oNextEntryOffset = none := by
    intro f member
    obtain ⟨statbuf, _, _, filled⟩ := findEntries_filled count member
    rw [filled]
    rfl
  refine ⟨?_, fun f _ other => absurd rfl other, ?_, ?_⟩
  · intro f member
    obtain ⟨statbuf, _, room, _⟩ := findEntries_filled count member
    obtain ⟨place, left⟩ := findEntries_sixteen count member
    simp only [HasRoom, findNextSizeNeeded, InfoLevel.recordSize, cchMaxPathComp] at room
    simp only [Found.extent, InfoLevel.nameOffset, place, left] at room ⊢
    simp only [if_true]
    omega
  · intro f member next leads
    rw [unlinked f member] at leads
    cases leads
  · rw [List.isChain_iff_getElem]
    intro i inside next leads
    rw [unlinked _ (List.getElem_mem _)] at leads
    cases leads

/-- Nothing is found at the level that is not written yet. -/
theorem findEntries_unwritten (count : Nat) :
    (findEntries localtime .queryEasFromList attr pattern count cursor entries).1 = [] := by
  cases count with
  | zero => rfl
  | succ left =>
    obtain ⟨rest, ended, _⟩ | ⟨_, _, _, _, plain, _⟩ :=
      findEntries_step localtime .queryEasFromList attr pattern left cursor entries
    · rw [ended]
    · exact absurd rfl plain

/-- A search keeps to its buffer exactly if there is room for whole records. -/
theorem search_inBuffer_iff (q : Search) {cbBuf : Nat} (small : cbBuf < 2 ^ 32) :
    InBuffer q.level cbBuf
        (findEntries localtime q.level q.attr q.pattern q.count ⟨0, cbBuf, 0⟩ q.entries).1 ↔
      RecordsFit q cbBuf := by
  unfold RecordsFit
  by_cases moves : q.level.advances
  · rw [findEntries_inBuffer_iff moves q.count (Nat.zero_add cbBuf) small]
    simp only [moves, true_imp_iff]
  · refine iff_of_true ?_ fun advances => absurd advances moves
    cases other : q.level with
    | standard => exact absurd (.inl other) moves
    | queryEaSize => exact absurd (.inr other) moves
    | sixteen => exact findEntries_sixteen_inBuffer q.count cbBuf
    | queryEasFromList =>
      rw [findEntries_unwritten]
      exact ⟨by simp, by simp, by simp, .nil⟩

/-- What going on with a search finds. -/
theorem findNext_found (host : FindHost) (s : FindState) (ref : FinderRef) (dirf : DirFinder)
    (cbBuf count : Nat) {dirp : DirStream} (started : dirf.dirp = some dirp) :
    (findNext host s ref dirf level cbBuf count).2.found =
      (findEntries host.localtime level dirf.attr dirf.pattern count ⟨0, cbBuf, 0⟩
        dirp.entries).1 := by
  unfold findNext
  rw [started]
  dsimp only
  split
  · next nothing => exact (List.length_eq_zero_iff.mp nothing.1).symm
  · rfl

/-- The parameters that a call which starts a search passes on. -/
theorem checkFindFirst_ok {args : FindFirstArgs} {hdir : Hdir} {count : Nat}
    (checked : checkFindFirst args = .ok (hdir, count, level)) :
    args.cbBuf ≤ 0xFFFF ∧ hdir ≠ .null ∧ args.phdir = some hdir ∧
      (level = .standard ∨ level = .sixteen) := by
  unfold checkFindFirst at checked
  -- Every check but the last refuses the call.
  repeat' split at checked
  all_goals cases checked
  refine ⟨by omega, ?_, ?_, ?_⟩ <;> assumption

/-- Parameters are refused with an error. -/
theorem checkFindFirst_error {args : FindFirstArgs} {ret : ApiRet}
    (checked : checkFindFirst args = .error ret) : ret ≠ .noError ∧ ret ≠ .errorEasDidntFit := by
  unfold checkFindFirst at checked
  repeat' split at checked
  all_goals cases checked
  all_goals simp

/-- A directory that does not open is an error. -/
theorem opendirError_ne (errno : OpendirError) :
    opendirError errno ≠ .noError ∧ opendirError errno ≠ .errorEasDidntFit := by
  cases errno <;> simp [opendirError]

/-- A call that starts a search is refused, or starts the search that it is for. -/
theorem DosFindFirst_does (host : FindHost) (args : FindFirstArgs) (s : FindState) :
    (∃ ret, (ret ≠ .noError ∧ ret ≠ .errorEasDidntFit) ∧ searchFirst host args = none ∧
        DosFindFirst host args s = some (s, { ret })) ∨
      ∃ q hdir, searchFirst host args = some q ∧ args.cbBuf ≤ 0xFFFF ∧ hdir ≠ .null ∧
        args.phdir = some hdir ∧ (q.level = .standard ∨ q.level = .sixteen) ∧
        q.attr = searchAttributes args.flAttribute ∧
        DosFindFirst host args s = startSearch host args s hdir q.count q.level q.pattern q.entries := by
  unfold DosFindFirst searchFirst
  cases checked : checkFindFirst args with
  | error ret => exact .inl ⟨ret, checkFindFirst_error checked, rfl, rfl⟩
  | ok parameters =>
    obtain ⟨hdir, count, level⟩ := parameters
    obtain ⟨small, handle, given, kind⟩ := checkFindFirst_ok checked
    cases made : host.makeUnixPath args.pszFileSpec with
    | error ret =>
      have bad : ret ≠ .noError ∧ ret ≠ .errorEasDidntFit := by
        rcases host.refuses _ ret made with rfl | rfl <;> simp
      exact .inl ⟨ret, bad, rfl, rfl⟩
    | ok path =>
      dsimp only
      by_cases long : cchMaxPathComp ≤ (splitPattern path).2.length
      · exact .inl ⟨.errorFilenameExcedRange, by simp, by simp [long], by simp [long]⟩
      · by_cases full : hdir = .create ∧ host.room = false
        · exact .inl ⟨.errorNotEnoughMemory, by simp, by simp [full], by simp [long, full]⟩
        · simp only [long, full, or_self, if_false]
          cases opened : host.opendir ((splitPattern path).1.getD [fullStop]) with
          | error errno => exact .inl ⟨opendirError errno, opendirError_ne errno, rfl, rfl⟩
          | ok entries =>
            exact .inr ⟨_, hdir, rfl, small, handle, given, kind, rfl, rfl⟩

/-- The handle of a search that was started stands for it. -/
structure Continues (args : FindNextArgs) (s : FindState) (q : Search) (ref : FinderRef)
    (dirf : DirFinder) (dirp : DirStream) : Prop where
  handle : args.hDir = .finder ref
  live : s.finder ref = some dirf
  started : dirf.dirp = some dirp
  level : dirf.level = some q.level
  attr : dirf.attr = q.attr
  pattern : dirf.pattern = q.pattern
  entries : dirp.entries = q.entries
  small : args.cbfindbuf ≤ 0xFFFF

/-- A call that goes on with a search is refused, faults, or goes on with the search. -/
theorem DosFindNext_does (host : FindHost) (args : FindNextArgs) (s : FindState) :
    (∃ ret count, ret ≠ .noError ∧ searchNext args s = none ∧
        DosFindNext host args s = some (s, { ret, count })) ∨
      (DosFindNext host args s = none ∧ (args.hDir = .wild ∨
        ∃ ref, args.hDir = .finder ref ∧ ∀ dirf, s.finder ref = some dirf → dirf.level = none)) ∨
      ∃ q ref dirf dirp, searchNext args s = some q ∧ Continues args s q ref dirf dirp ∧
        DosFindNext host args s =
          some (findNext host s ref dirf q.level args.cbfindbuf q.count) := by
  unfold DosFindNext searchNext
  by_cases reserved : args.hDir = .null ∨ args.hDir = .system ∨ args.hDir = .create
  · -- These numbers are no searches.
    refine .inl ⟨.errorInvalidHandle, none, by simp, ?_, by simp [reserved]⟩
    rcases reserved with handle | handle | handle <;> cases args.pcFilenames <;> simp [handle]
  · rw [if_neg reserved]
    by_cases large : 0xFFFF < args.cbfindbuf
    · refine .inl ⟨.errorInvalidParameter, none, by simp, ?_, by simp [large]⟩
      cases args.pcFilenames <;> cases args.hDir <;> simp [large]
    · rw [if_neg large]
      cases asked : args.pcFilenames with
      | none => exact .inl ⟨.errorInvalidParameter, none, by simp, by simp, rfl⟩
      | some count =>
        dsimp only
        by_cases missing : args.pfindbuf = false ∧ count ≠ 0
        · refine .inl ⟨.errorInvalidParameter, none, by simp, ?_, by rw [if_pos missing]⟩
          cases args.hDir <;> simp [missing]
        · rw [if_neg missing]
          cases handle : args.hDir with
          | null => exact absurd (.inl handle) reserved
          | system => exact absurd (.inr (.inl handle)) reserved
          | create => exact absurd (.inr (.inr handle)) reserved
          | wild => exact .inr (.inl ⟨rfl, .inl rfl⟩)
          | finder ref =>
            dsimp only
            rw [if_neg (by simp [large, missing])]
            cases live : s.finder ref with
            | none => exact .inr (.inl ⟨rfl, .inr ⟨ref, rfl, by simp [live]⟩⟩)
            | some dirf =>
              obtain ⟨dirp, attr, level, pattern⟩ := dirf
              cases level with
              | none => exact .inr (.inl ⟨rfl, .inr ⟨ref, rfl, by simp [live]⟩⟩)
              | some level =>
                dsimp only
                by_cases full : args.cbfindbuf < findNextSizeNeeded level count
                · refine .inl ⟨.errorBufferOverflow, none, by simp, ?_, by rw [if_pos full]⟩
                  cases dirp <;> simp [full]
                · rw [if_neg full]
                  cases dirp with
                  | none => exact .inl ⟨.errorNoMoreFiles, some 0, by simp, rfl, rfl⟩
                  | some dirp =>
                    refine .inr (.inr ⟨_, ref, _, dirp, by simp only [full, if_false]; rfl, ?_, rfl⟩)
                    exact ⟨handle, live, rfl, rfl, rfl, rfl, rfl, by omega⟩

/-- What a search that is started finds. -/
theorem startSearch_found {host : FindHost} {args : FindFirstArgs} {s t : FindState} {hdir : Hdir}
    {count : Nat} {out : FindAnswer}
    (started : startSearch host args s hdir count level pattern entries = some (t, out)) :
    out.found = (findEntries host.localtime level (searchAttributes args.flAttribute) pattern count
      ⟨0, args.cbBuf, 0⟩ entries).1 := by
  unfold startSearch at started
  split at started
  · cases started
  · rename_i opened ref dirf _
    have found := @findNext_found level host
      (({ opened.closedir dirf.dirp with opened := opened.opened + 1 }).setFinder ref
        { dirp := some { id := opened.opened, entries },
          attr := searchAttributes args.flAttribute, level := some level, pattern })
      ref { dirp := some { id := opened.opened, entries },
            attr := searchAttributes args.flAttribute, level := some level, pattern }
      args.cbBuf count _ rfl
    dsimp only at started
    split at started <;> cases started <;> exact found

/-- What a call finds is what its search finds. -/
theorem call_found {host : FindHost} {s t : FindState} {call : FindCall} {out : FindAnswer}
    (called : call.make host s = some (t, out)) :
    (call.search host s = none ∧ out.found = []) ∨
      ∃ q, call.search host s = some q ∧ call.cbBuf ≤ 0xFFFF ∧
        out.found = (findEntries host.localtime q.level q.attr q.pattern q.count
          ⟨0, call.cbBuf, 0⟩ q.entries).1 := by
  cases call with
  | first args =>
    obtain ⟨ret, _, nothing, same⟩ | ⟨q, hdir, found, small, _, _, _, attr, same⟩ :=
      DosFindFirst_does host args s
    · cases called.symm.trans same
      exact .inl ⟨nothing, rfl⟩
    · refine .inr ⟨q, found, small, ?_⟩
      rw [attr]
      exact startSearch_found (same.symm.trans called)
  | next args =>
    obtain ⟨ret, count, _, nothing, same⟩ | ⟨fault, _⟩ | ⟨q, ref, dirf, dirp, found, goes, same⟩ :=
      DosFindNext_does host args s
    · cases called.symm.trans same
      exact .inl ⟨nothing, rfl⟩
    · cases called.symm.trans fault
    · refine .inr ⟨q, found, goes.small, ?_⟩
      have answer := congrArg (fun result => result.2.found)
        (Option.some.inj (called.symm.trans same))
      rw [← goes.attr, ← goes.pattern, ← goes.entries]
      exact answer.trans (findNext_found host s ref dirf args.cbfindbuf q.count goes.started)

/-- A call writes only into its buffer, and what it writes leads nowhere else. -/
def WritesInside (host : FindHost) (s : FindState) (call : FindCall) (out : FindAnswer) : Prop :=
  ∀ q, call.search host s = some q → InBuffer q.level call.cbBuf out.found

/-- A host with one directory, where one file is called a. -/
def oneFileHost : FindHost where
  makeUnixPath := fun _ => .ok (CStrings.ascii "/d/*")
  refuses := fun _ _ refused => by cases refused
  opendir := fun _ => .ok [⟨CStrings.ascii "a", some ⟨.regular, true, 0, 0, 1, 8⟩⟩]
  localtime := fun _ => ⟨0, 0, 0, 1, 0, 100⟩

/-- Looking for one file in a buffer of some size. -/
def findOneFile (cbBuf : Nat) : FindCall :=
  .first {
    pszFileSpec := CStrings.ascii "*"
    phdir := some .create
    flAttribute := 0
    cbBuf
    pcFileNames := some 1
    ulInfoLevel := 1 }

end TwoIne
