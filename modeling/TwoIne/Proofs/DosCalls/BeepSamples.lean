import TwoIne.DosCalls.Beep

/-!
The generator makes its samples in pieces, but the result is that of one sample at a time, so it does
not matter how the output is split into buffers.
-/

namespace TwoIne

variable {samplesFor : Nat → Nat → Nat} {freq : Nat} {info : DosBeepGeneratorInfo}

namespace DosBeepGeneratorInfo

/-- Taking the beep that is queued, where the one before is over. -/
def taken (samplesFor : Nat → Nat → Nat) (freq : Nat) (info : DosBeepGeneratorInfo) :
    DosBeepGeneratorInfo :=
  if info.samplesRemaining = 0 ∧ info.nextFreq ≠ 0 then info.startNext samplesFor freq else info

/-- Beginning another part of the wave within a beep, where the one before is over. -/
def turned (info : DosBeepGeneratorInfo) : DosBeepGeneratorInfo :=
  if info.samplesRemaining ≠ 0 ∧ info.squareRemaining = 0 then info.flip else info

/-- Getting ready for the next sample. -/
def settle (samplesFor : Nat → Nat → Nat) (freq : Nat) (info : DosBeepGeneratorInfo) :
    DosBeepGeneratorInfo :=
  (info.taken samplesFor freq).turned

/-- The state after a number of samples, and the samples, which are zero where there is no beep. -/
def ticks (samplesFor : Nat → Nat → Nat) (freq : Nat) :
    Nat → DosBeepGeneratorInfo → DosBeepGeneratorInfo × List Int
  | 0, info => (info, [])
  | count + 1, info =>
    let info := info.settle samplesFor freq
    if info.samplesRemaining = 0 then (info, List.replicate (count + 1) 0)
    else
      let (after, stream) := ticks samplesFor freq count (info.played 1)
      (after, info.sign :: stream)

/-- A part of the wave has at least one sample. -/
theorem flip_positive (info : DosBeepGeneratorInfo) : info.flip.squareRemaining ≠ 0 := by
  -- The sum reaches the frequency, which makes the part longer by one, or the length is not zero.
  unfold flip
  dsimp only
  split
  · exact Nat.succ_ne_zero _
  · -- A length of zero would be reached by any sum.
    rename_i longer
    exact fun none => longer (by rw [show info.squareLength = 0 from none]; exact Nat.zero_le _)

/-- A new part of the wave belongs to the same beep. -/
@[simp] theorem flip_samplesRemaining (info : DosBeepGeneratorInfo) :
    info.flip.samplesRemaining = info.samplesRemaining := by
  unfold flip
  dsimp only
  split <;> rfl

/-- A state that is ready stays as it is. -/
theorem settle_ready (beeping : info.samplesRemaining ≠ 0) (inside : info.squareRemaining ≠ 0) :
    info.settle samplesFor freq = info := by
  rw [settle, taken, if_neg (fun idle => beeping idle.1), turned,
    if_neg (fun done => inside done.2)]

/-- Within a beep the next part of the wave is begun. -/
theorem settle_flip (beeping : info.samplesRemaining ≠ 0) (done : info.squareRemaining = 0) :
    info.settle samplesFor freq = info.flip := by
  rw [settle, taken, if_neg (fun idle => beeping idle.1), turned, if_pos ⟨beeping, done⟩]

/-- Without a beep nothing happens. -/
theorem settle_idle (idle : info.samplesRemaining = 0) (none : info.nextFreq = 0) :
    info.settle samplesFor freq = info := by
  rw [settle, taken, if_neg (fun queued => queued.2 none), turned,
    if_neg (fun beeping => beeping.1 idle)]

/-- Getting ready includes taking the beep that is queued. -/
theorem settle_start (idle : info.samplesRemaining = 0) (queued : info.nextFreq ≠ 0) :
    info.settle samplesFor freq = (info.startNext samplesFor freq).settle samplesFor freq := by
  have empty : (info.startNext samplesFor freq).nextFreq = 0 := rfl
  rw [settle, taken, if_pos ⟨idle, queued⟩, settle, taken, if_neg (fun again => again.2 empty)]

/-- States that get ready in the same way have the same samples. -/
theorem ticks_settle {other : DosBeepGeneratorInfo}
    (same : info.settle samplesFor freq = other.settle samplesFor freq) (count : Nat) :
    info.ticks samplesFor freq (count + 1) = other.ticks samplesFor freq (count + 1) := by
  rw [ticks, ticks, same]

/-- A sample of a beep, and those after it. -/
theorem ticks_playing {ready : DosBeepGeneratorInfo}
    (settled : info.settle samplesFor freq = ready) (beeping : ready.samplesRemaining ≠ 0)
    (count : Nat) :
    info.ticks samplesFor freq (count + 1) =
      (((ready.played 1).ticks samplesFor freq count).1,
        ready.sign :: ((ready.played 1).ticks samplesFor freq count).2) := by
  -- Getting ready leads to the state that is given, which has samples left.
  rw [ticks, settled, if_neg beeping]

/-- Without a beep there is silence. -/
theorem ticks_idle (idle : info.samplesRemaining = 0) (none : info.nextFreq = 0) (count : Nat) :
    info.ticks samplesFor freq count = (info, List.replicate count 0) := by
  cases count with
  | zero => rfl
  | succ count => rw [ticks, settle_idle idle none, if_pos idle]

/-- There are as many samples as were asked for. -/
theorem ticks_length (count : Nat) (info : DosBeepGeneratorInfo) :
    (info.ticks samplesFor freq count).2.length = count := by
  -- Either silence fills what is left, or a sample is made and the rest follows.
  induction count generalizing info with
  | zero => rfl
  | succ count ih =>
    rw [ticks]
    dsimp only
    split
    · exact List.length_replicate
    · rw [List.length_cons, ih]

/-- Another part of the wave does not end a beep. -/
theorem turned_silent (silent : info.turned.samplesRemaining = 0) :
    info.samplesRemaining = 0 ∧ info.turned = info := by
  -- Beginning a part keeps the samples of the beep, so that none of it was left before.
  unfold turned at silent ⊢
  split at silent
  · rename_i begun
    rw [flip_samplesRemaining] at silent
    exact absurd silent begun.1
  · rename_i begun
    exact ⟨silent, if_neg begun⟩

/-- Where there is no beep after getting ready, none is queued. -/
theorem settle_silent (silent : (info.settle samplesFor freq).samplesRemaining = 0) :
    (info.settle samplesFor freq).nextFreq = 0 := by
  obtain ⟨idle, same⟩ := turned_silent silent
  rw [settle, same]
  unfold taken at idle ⊢
  split at idle
  · -- The beep that was queued has been taken.
    rename_i queued
    rw [if_pos queued]
    rfl
  · rename_i queued
    rw [if_neg queued]
    by_contra some
    exact queued ⟨idle, some⟩

/-- Samples in two goes are the samples in one. -/
theorem ticks_add (first second : Nat) (info : DosBeepGeneratorInfo) :
    info.ticks samplesFor freq (first + second) =
      (((info.ticks samplesFor freq first).1.ticks samplesFor freq second).1,
        (info.ticks samplesFor freq first).2 ++
          ((info.ticks samplesFor freq first).1.ticks samplesFor freq second).2) := by
  induction first generalizing info with
  | zero => rw [Nat.zero_add]; rfl
  | succ first ih =>
    rw [Nat.succ_add]
    by_cases silent : (info.settle samplesFor freq).samplesRemaining = 0
    · -- After the last beep the state does not change any more.
      have whole : ∀ count, info.ticks samplesFor freq (count + 1) =
          (info.settle samplesFor freq, List.replicate (count + 1) 0) := by
        intro count
        rw [ticks, if_pos silent]
      rw [whole, whole, ticks_idle silent (settle_silent silent)]
      rw [List.replicate_append_replicate]
      congr 2
      omega
    · rw [ticks_playing rfl silent, ticks_playing rfl silent, ih]
      rfl

/-- A piece of a part of the wave is as many samples of one sign. -/
theorem ticks_piece {total : Nat} (beep : total ≤ info.samplesRemaining)
    (part : total ≤ info.squareRemaining) (count : Nat) :
    info.ticks samplesFor freq (total + count) =
      (((info.played total).ticks samplesFor freq count).1,
        List.replicate total info.sign ++ ((info.played total).ticks samplesFor freq count).2) := by
  -- Each sample leaves the part with one less, until all of the piece are made.
  induction total generalizing info with
  | zero => rw [Nat.zero_add]; rfl
  | succ total ih =>
    have ready : info.settle samplesFor freq = info :=
      settle_ready (by omega) (by omega)
    rw [Nat.succ_add, ticks_playing ready (by omega)]
    have less : total ≤ (info.played 1).samplesRemaining := Nat.le_sub_one_of_lt beep
    have left : total ≤ (info.played 1).squareRemaining := Nat.le_sub_one_of_lt part
    have twice : (info.played 1).played total = info.played (total + 1) := by
      simp only [played, Nat.sub_sub, Nat.add_comm 1]
    have sign : (info.played 1).sign = info.sign := rfl
    rw [ih less left, twice, sign, List.replicate_succ]
    rfl

end DosBeepGeneratorInfo

open DosBeepGeneratorInfo

/-- The turns that a state needs for a buffer. -/
def turnsFor (samples : Nat) (info : DosBeepGeneratorInfo) : Nat :=
  if samples = 0 then 1
  else if info.samplesRemaining = 0 then
    if info.nextFreq = 0 then 1 else 3 * samples + 1
  else if info.squareRemaining = 0 then 3 * samples else 3 * samples - 1

/-- No state needs more turns than a buffer is given. -/
theorem turnsFor_le (samples : Nat) (info : DosBeepGeneratorInfo) :
    turnsFor samples info ≤ beepTurns samples := by
  unfold turnsFor beepTurns
  repeat' split
  all_goals omega

/-- With the turns it needs, the generator comes to an end and fills the buffer as it has to. -/
theorem generator_ticks (turns samples : Nat) (info : DosBeepGeneratorInfo)
    (enough : turnsFor samples info ≤ turns) :
    ∃ rc, DosBeepGenerator samplesFor freq turns samples info =
      some (rc, info.ticks samplesFor freq samples) := by
  -- A turn sets up a beep, begins a part of the wave, or makes at least one sample.
  induction turns generalizing samples info with
  | zero =>
    unfold turnsFor at enough
    repeat' split at enough
    all_goals omega
  | succ turns ih =>
    rw [DosBeepGenerator]
    cases samples with
    | zero => exact ⟨true, rfl⟩
    | succ samples =>
      have some_left : samples + 1 ≠ 0 := Nat.succ_ne_zero samples
      rw [if_neg some_left]
      rw [turnsFor, if_neg some_left] at enough
      by_cases idle : info.samplesRemaining = 0
      · rw [if_pos idle] at enough ⊢
        by_cases queued : info.nextFreq = 0
        · rw [if_pos queued]
          exact ⟨false, by rw [ticks_idle idle queued]⟩
        · rw [if_neg queued] at enough ⊢
          -- The queue is empty now, so this happens once.
          have fewer : turnsFor (samples + 1) (info.startNext samplesFor freq) ≤ turns := by
            rw [turnsFor, if_neg some_left, show (info.startNext samplesFor freq).nextFreq = 0
              from rfl, if_pos rfl]
            repeat' split
            all_goals omega
          rw [ticks_settle (settle_start idle queued)]
          exact ih _ _ fewer
      · rw [if_neg idle] at enough ⊢
        by_cases done : info.squareRemaining = 0
        · rw [if_pos done] at enough ⊢
          have ready : info.settle samplesFor freq = info.flip := settle_flip idle done
          have still : info.flip.samplesRemaining ≠ 0 := by
            rw [flip_samplesRemaining]
            exact idle
          have fewer : turnsFor (samples + 1) info.flip ≤ turns := by
            rw [turnsFor, if_neg some_left, if_neg still, if_neg (flip_positive info)]
            omega
          rw [ticks_settle (ready.trans (settle_ready still (flip_positive info)).symm)]
          exact ih _ _ fewer
        · rw [if_neg done] at enough ⊢
          obtain ⟨total, is_total⟩ : ∃ total,
              total = min (samples + 1) (min info.samplesRemaining info.squareRemaining) := ⟨_, rfl⟩
          have split : total + (samples + 1 - total) = samples + 1 := by omega
          have fewer : turnsFor (samples + 1 - total) (info.played total) ≤ turns := by
            have least := turnsFor_le (samples + 1 - total) (info.played total)
            rw [beepTurns] at least
            omega
          obtain ⟨rc, rest⟩ := ih _ _ fewer
          dsimp only
          rw [← is_total, rest]
          have in_beep : total ≤ info.samplesRemaining := by omega
          have in_part : total ≤ info.squareRemaining := by omega
          rw [← split, ticks_piece in_beep in_part]
          exact ⟨rc, by rw [Nat.add_sub_cancel_left]⟩

/-- A buffer is filled one sample after the other. -/
theorem playEvent_callback (samples : Nat) (info : DosBeepGeneratorInfo) :
    playEvent samplesFor freq (.callback samples) info =
      some (info.ticks samplesFor freq samples) := by
  have enough := turnsFor_le samples info
  obtain ⟨rc, filled⟩ := generator_ticks (beepTurns samples) samples info enough
  rw [playEvent, filled]
  rfl

end TwoIne
