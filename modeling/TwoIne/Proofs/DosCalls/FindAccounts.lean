import TwoIne.Proofs.DosCalls.FindBuffers

/-! What a search finds, leaves for later and loses of the entries that it is for. -/

namespace TwoIne

variable {localtime : Int → BrokenTime} {level : InfoLevel} {attr : Nat} {pattern : List UInt8}
  {cursor : FindCursor} {entries : List DirEntry}

/-- The records of what was found are in the buffer, and none is written over another one. -/
structure Separate (level : InfoLevel) (cbBuf : Nat) (found : List Found) : Prop where
  inside : ∀ f ∈ found, f.cursor.offset + f.extent level ≤ cbBuf
  apart : found.Pairwise fun f g => f.cursor.offset + f.extent level ≤ g.cursor.offset

/-- The number of entries that a search may find. -/
def Search.due (q : Search) : Nat :=
  min q.count (wantedEntries q.attr q.pattern q.entries).length

/--
There is room for all that a search may find: for whole records, and in the 16-bit calls, whose
records are all put in one place, for the name of a single one.
-/
def RoomForDue (q : Search) (cbBuf : Nat) : Prop :=
  if q.level = .sixteen then
    q.due ≤ 1 ∧
      ∀ entry ∈ (wantedEntries q.attr q.pattern q.entries).take q.due, HasRoom q.level cbBuf entry
  else q.due * q.level.recordSize ≤ cbBuf

/-- What is left of a directory is the end of what there was. -/
theorem findEntries_suffix (count : Nat) :
    wantedEntries attr pattern entries = [] →
      (findEntries localtime level attr pattern count cursor entries).1 = [] ∧
        wantedEntries attr pattern
          (findEntries localtime level attr pattern count cursor entries).2 = [] := by
  intro none_wanted
  cases count with
  | zero => exact ⟨rfl, none_wanted⟩
  | succ left =>
    obtain ⟨rest, ended, _, spent⟩ | ⟨front, rest, entry, statbuf, _, split, _, wanted, _, _⟩ :=
      findEntries_step localtime level attr pattern left cursor entries
    · rw [ended]
      exact ⟨rfl, spent⟩
    · rw [split, wantedEntries_split front rest wanted] at none_wanted
      simp at none_wanted

/-- A search that finds less than was asked for leaves nothing that it is for. -/
theorem findEntries_length (count : Nat) :
    (findEntries localtime level attr pattern count cursor entries).1.length ≤ count ∧
      ((findEntries localtime level attr pattern count cursor entries).1.length < count →
        wantedEntries attr pattern
          (findEntries localtime level attr pattern count cursor entries).2 = []) := by
  induction count generalizing cursor entries with
  | zero => exact ⟨Nat.le_refl 0, fun less => absurd less (Nat.not_lt_zero _)⟩
  | succ left ih =>
    obtain ⟨rest, ended, _, spent⟩ | ⟨front, rest, entry, statbuf, _, _, _, _, _, one⟩ :=
      findEntries_step localtime level attr pattern left cursor entries
    · rw [ended]
      exact ⟨Nat.zero_le _, fun _ => spent⟩
    · rw [one]
      have later := @ih
        (FindCursor.advance level (fillRecord localtime level cursor entry statbuf)) rest
      exact ⟨Nat.succ_le_succ later.1, fun less => later.2 (Nat.lt_of_succ_lt_succ less)⟩

/-- Where nothing is lost, a search finds as many entries as it may. -/
theorem found_due {count : Nat}
    (whole : (findEntries localtime level attr pattern count cursor entries).1.map Found.entry ++
        wantedEntries attr pattern
          (findEntries localtime level attr pattern count cursor entries).2 =
      wantedEntries attr pattern entries) :
    (findEntries localtime level attr pattern count cursor entries).1.length =
      min count (wantedEntries attr pattern entries).length := by
  obtain ⟨most, ended⟩ := @findEntries_length localtime level attr pattern cursor entries count
  have lengths := congrArg List.length whole
  rw [List.length_append, List.length_map] at lengths
  rcases Nat.lt_or_ge
      (findEntries localtime level attr pattern count cursor entries).1.length count with less | all
  · rw [ended less, List.length_nil] at lengths
    omega
  · omega

/-- Whole records that have room are all found in order. -/
theorem findEntries_whole (moves : level.advances) (count : Nat) (small : cursor.cbBuf < 2 ^ 32)
    (room : min count (wantedEntries attr pattern entries).length * level.recordSize ≤
      cursor.cbBuf) :
    (findEntries localtime level attr pattern count cursor entries).1.map Found.entry ++
        wantedEntries attr pattern
          (findEntries localtime level attr pattern count cursor entries).2 =
      wantedEntries attr pattern entries := by
  induction count generalizing cursor entries with
  | zero => rfl
  | succ left ih =>
    obtain ⟨rest, ended, spent, none_left⟩ |
        ⟨front, rest, entry, statbuf, _, split, passed, wanted, _, one⟩ :=
      findEntries_step localtime level attr pattern left cursor entries
    · rw [ended, none_left]
      have spent := spent.resolve_left moves.sizes.2.1
      -- An entry that is left out would have had room.
      cases wanted : wantedEntries attr pattern entries with
      | nil => rfl
      | cons entry others =>
        rw [wanted, List.length_cons, Nat.succ_min_succ, Nat.succ_mul] at room
        have member : entry ∈ wantedEntries attr pattern entries := by simp [wanted]
        exact absurd (hasRoom_whole moves (wantedEntries_short member) (by omega)) (spent entry member)
    · rw [split, wantedEntries_split front rest wanted, List.length_append, List.length_cons] at room
      have least : 1 ≤ min (left + 1) ((wantedEntries attr pattern front).length +
          ((wantedEntries attr pattern rest).length + 1)) := by omega
      have one_record : level.recordSize ≤ cursor.cbBuf :=
        (Nat.le_mul_of_pos_left _ least).trans room
      -- Nothing was passed over in front of the entry.
      have none_passed := passed_whole moves one_record passed
      rw [none_passed, List.length_nil, Nat.zero_add, Nat.succ_min_succ, Nat.succ_mul] at room
      rw [one, split, wantedEntries_split front rest wanted, none_passed,
        advance_moves moves one_record small]
      have later := @ih ⟨cursor.offset + level.recordSize, cursor.cbBuf - level.recordSize, 0⟩ rest
        (by simp only; omega) (by simp only; omega)
      exact congrArg (entry :: ·) later

/-- Parts that follow each other from a place on need as much room as all of them. -/
theorem pairwise_room {found : List Found} {size start total : Nat} (begins : start ≤ total)
    (large : ∀ f ∈ found, size ≤ f.extent level) (behind : ∀ f ∈ found, start ≤ f.cursor.offset)
    (separate : Separate level total found) : start + found.length * size ≤ total := by
  induction found generalizing start with
  | nil => simpa using begins
  | cons f rest ih =>
    have first := large f List.mem_cons_self
    have place := behind f List.mem_cons_self
    have fits := separate.inside f List.mem_cons_self
    obtain ⟨next, apart⟩ := List.pairwise_cons.mp separate.apart
    have later : start + size + rest.length * size ≤ total := by
      refine ih (by omega) (fun g member => large g (List.mem_cons_of_mem _ member)) ?_
        ⟨fun g member => separate.inside g (List.mem_cons_of_mem _ member), apart⟩
      intro g member
      have after := next g member
      omega
    rw [List.length_cons, Nat.succ_mul]
    omega

/-- Records that move on are put behind each other, whether there is room or not. -/
theorem findEntries_apart (moves : level.advances) (count : Nat) :
    (∀ f ∈ (findEntries localtime level attr pattern count cursor entries).1,
        cursor.offset ≤ f.cursor.offset) ∧
      (findEntries localtime level attr pattern count cursor entries).1.Pairwise fun f g =>
        f.cursor.offset + level.recordSize ≤ g.cursor.offset := by
  induction count generalizing cursor entries with
  | zero => exact ⟨by simp [findEntries], .nil⟩
  | succ left ih =>
    obtain ⟨rest, ended, _⟩ | ⟨front, rest, entry, statbuf, _, _, _, _, _, one⟩ :=
      findEntries_step localtime level attr pattern left cursor entries
    · rw [ended]
      exact ⟨by simp, .nil⟩
    · obtain ⟨behind, apart⟩ := @ih
        (FindCursor.advance level (fillRecord localtime level cursor entry statbuf)) rest
      have place : (FindCursor.advance level (fillRecord localtime level cursor entry
          statbuf)).offset = cursor.offset + level.recordSize := by
        rw [FindCursor.advance, if_neg moves.sizes.1]
        rfl
      rw [place] at behind
      rw [one]
      refine ⟨?_, List.pairwise_cons.mpr ⟨behind, apart⟩⟩
      intro f member
      rcases List.mem_cons.mp member with rfl | later
      · exact Nat.le_refl _
      · exact (Nat.le_add_right _ _).trans (behind f later)

/-- A record that moves on is written as a whole. -/
theorem extent_moves (moves : level.advances) {f : Found} (short : f.entry.name.length < 256) :
    f.extent level = level.recordSize := by
  obtain ⟨other, _, _, name⟩ := moves.sizes
  rw [Found.extent, if_neg other]
  omega

/-- Whole records are separate and complete exactly if there is room for all that are due. -/
theorem records_account_iff (moves : level.advances) (count : Nat) {cbBuf : Nat}
    (small : cbBuf < 2 ^ 32) :
    (Separate level cbBuf
          (findEntries localtime level attr pattern count ⟨0, cbBuf, 0⟩ entries).1 ∧
        (findEntries localtime level attr pattern count ⟨0, cbBuf, 0⟩ entries).1.map Found.entry ++
            wantedEntries attr pattern
              (findEntries localtime level attr pattern count ⟨0, cbBuf, 0⟩ entries).2 =
          wantedEntries attr pattern entries) ↔
      min count (wantedEntries attr pattern entries).length * level.recordSize ≤ cbBuf := by
  constructor
  · intro both
    obtain ⟨separate, whole⟩ := both
    have room := pairwise_room (Nat.zero_le cbBuf)
      (fun f _ => by rw [Found.extent, if_neg moves.sizes.1]; exact Nat.le_max_left ..)
      (fun f _ => Nat.zero_le _) separate
    rwa [found_due whole, Nat.zero_add] at room
  · intro room
    refine ⟨?_, findEntries_whole moves count small room⟩
    have short : ∀ f ∈ (findEntries localtime level attr pattern count ⟨0, cbBuf, 0⟩ entries).1,
        f.entry.name.length < 256 := by
      intro f member
      obtain ⟨statbuf, wanted, _⟩ := findEntries_filled count member
      exact entryStat_short wanted
    have inside : InBuffer level cbBuf
        (findEntries localtime level attr pattern count ⟨0, cbBuf, 0⟩ entries).1 := by
      rw [findEntries_inBuffer_iff moves count (Nat.zero_add cbBuf) small]
      rcases Nat.le_total count (wantedEntries attr pattern entries).length with few | many
      · exact .inl (by rwa [Nat.min_eq_left few] at room)
      · -- All entries are found, and none is left.
        rw [Nat.min_eq_right many] at room
        have positive : 0 < level.recordSize := by
          have name := moves.sizes.2.2.2
          omega
        rw [List.drop_eq_nil_of_le ((Nat.le_div_iff_mul_le positive).mpr room)]
        exact .inr (by simp)
    refine ⟨inside.written, ?_⟩
    refine (findEntries_apart moves count).2.imp_of_mem fun {f g} first _ behind => ?_
    rwa [extent_moves moves (short f first)]

/-- Records in one place are separate and complete exactly if one at most is due and has room. -/
theorem place_account_iff (count : Nat) {cbBuf : Nat} :
    (Separate .sixteen cbBuf
          (findEntries localtime .sixteen attr pattern count ⟨0, cbBuf, 0⟩ entries).1 ∧
        (findEntries localtime .sixteen attr pattern count ⟨0, cbBuf, 0⟩ entries).1.map
              Found.entry ++
            wantedEntries attr pattern
              (findEntries localtime .sixteen attr pattern count ⟨0, cbBuf, 0⟩ entries).2 =
          wantedEntries attr pattern entries) ↔
      min count (wantedEntries attr pattern entries).length ≤ 1 ∧
        ∀ entry ∈ (wantedEntries attr pattern entries).take
            (min count (wantedEntries attr pattern entries).length),
          HasRoom .sixteen cbBuf entry := by
  constructor
  · intro both
    obtain ⟨separate, whole⟩ := both
    have due := found_due whole
    have placed := fun f => @findEntries_sixteen localtime attr pattern ⟨0, cbBuf, 0⟩ entries count f
    have filled := fun f => @findEntries_filled localtime .sixteen attr pattern ⟨0, cbBuf, 0⟩
      entries count f
    generalize findEntries localtime .sixteen attr pattern count ⟨0, cbBuf, 0⟩ entries = out
      at separate whole due placed filled
    constructor
    · -- Two records would be written over each other.
      match found : out.1 with
      | [] => rw [← due, found]; exact Nat.zero_le 1
      | [f] => rw [← due, found]; exact Nat.le_refl 1
      | f :: g :: rest =>
        have second : g ∈ out.1 := by simp [found]
        have apart := separate.apart
        rw [found] at apart
        have behind := (List.pairwise_cons.mp apart).1 g List.mem_cons_self
        rw [(placed g second).1] at behind
        simp [Found.extent] at behind
    · intro entry member
      rw [← due, ← whole, List.take_left' (List.length_map _)] at member
      obtain ⟨f, found, rfl⟩ := List.mem_map.mp member
      obtain ⟨_, _, room, _⟩ := filled f found
      rwa [(placed f found).2] at room
  · intro both
    obtain ⟨least, room⟩ := both
    have inside := (@findEntries_sixteen_inBuffer localtime attr pattern entries count cbBuf).written
    cases count with
    | zero => exact ⟨⟨inside, .nil⟩, rfl⟩
    | succ left =>
      obtain ⟨rest, ended, spent, none_left⟩ |
          ⟨front, rest, entry, statbuf, _, split, passed, wanted, _, one⟩ :=
        findEntries_step localtime .sixteen attr pattern left ⟨0, cbBuf, 0⟩ entries
      · -- An entry that is left out would have had room.
        rw [ended, none_left]
        refine ⟨⟨by simp, .nil⟩, ?_⟩
        have spent := spent.resolve_left (by simp)
        cases wanted : wantedEntries attr pattern entries with
        | nil => rfl
        | cons entry others =>
          rw [wanted] at room spent
          have first := room entry (by simp)
          exact absurd first (spent entry List.mem_cons_self)
      · -- The first entry that the search is for is found, and no other one is due.
        have known := wantedEntries_split front rest wanted
        rw [← split] at known
        rw [known] at room least ⊢
        have none_passed : wantedEntries attr pattern front = [] := by
          rw [List.eq_nil_iff_forall_not_mem]
          intro skipped member
          cases others : wantedEntries attr pattern front with
          | nil => simp [others] at member
          | cons first more =>
            rw [others] at room passed
            have has_room := room first (by simp)
            exact passed first List.mem_cons_self has_room
        rw [none_passed, List.nil_append] at least ⊢
        rw [one] at inside ⊢
        rw [List.length_cons, Nat.succ_min_succ] at least
        have later : (findEntries localtime .sixteen attr pattern left
              (FindCursor.advance .sixteen (fillRecord localtime .sixteen ⟨0, cbBuf, 0⟩ entry
                statbuf)) rest).1 = [] ∧
            wantedEntries attr pattern (findEntries localtime .sixteen attr pattern left
              (FindCursor.advance .sixteen (fillRecord localtime .sixteen ⟨0, cbBuf, 0⟩ entry
                statbuf)) rest).2 = wantedEntries attr pattern rest := by
          cases left with
          | zero => exact ⟨rfl, rfl⟩
          | succ others =>
            have none_due : wantedEntries attr pattern rest = [] := by
              rw [← List.length_eq_zero_iff]
              omega
            rw [none_due]
            exact findEntries_suffix _ none_due
        rw [later.2]
        simp only [later.1] at inside ⊢
        exact ⟨⟨inside, List.pairwise_singleton ..⟩, rfl⟩

/-- A search is separate and complete exactly if there is room for all that is due. -/
theorem search_account_iff (q : Search) (kind : q.level = .standard ∨ q.level = .sixteen)
    {cbBuf : Nat} (small : cbBuf < 2 ^ 32) :
    (Separate q.level cbBuf
          (findEntries localtime q.level q.attr q.pattern q.count ⟨0, cbBuf, 0⟩ q.entries).1 ∧
        (findEntries localtime q.level q.attr q.pattern q.count ⟨0, cbBuf, 0⟩ q.entries).1.map
              Found.entry ++
            wantedEntries q.attr q.pattern
              (findEntries localtime q.level q.attr q.pattern q.count ⟨0, cbBuf, 0⟩ q.entries).2 =
          wantedEntries q.attr q.pattern q.entries) ↔
      RoomForDue q cbBuf := by
  unfold RoomForDue
  rcases kind with level | level
  · rw [level, if_neg (by simp)]
    exact records_account_iff (.inl rfl) q.count small
  · rw [level, if_pos rfl]
    exact place_account_iff q.count

end TwoIne
