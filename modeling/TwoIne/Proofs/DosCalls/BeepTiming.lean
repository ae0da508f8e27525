import Mathlib.Order.Monotone.Basic
import TwoIne.Lib.ErrorDiffusion
import TwoIne.Proofs.DosCalls.BeepSamples

/-!
A beep keeps to its frequency exactly as far as spreading the remainder over the length of a half
wave, which the generator does, comes to the same as spreading it over the frequency.
-/

namespace TwoIne

open DosBeepGeneratorInfo ErrorDiffusion

/-- The number of half waves that samples belong to: the runs of samples with one sign. -/
def halfWaves : List Int → Nat
  | [] => 0
  | [_] => 1
  | first :: second :: rest =>
    halfWaves (second :: rest) + if first = second then 0 else 1

/--
What a beep has to do that is about to be set up in a state: at any time during the beep, whatever
happens meanwhile, its samples keep to its frequency.

What is left of the last half wave of the beep before it comes first.
-/
structure BeepRight (samplesFor : Nat → Nat → Nat) (freq : Nat) (info : DosBeepGeneratorInfo) :
    Prop where
  /-- Each buffer is filled. -/
  returns : ∀ events, (play samplesFor freq events info).isSome
  /-- After a number of complete half waves the samples are less than one off. -/
  timed : ∀ events after out, play samplesFor freq events info = some (after, out) →
    0 < out.length → out.length ≤ samplesFor info.nextDuration freq →
    info.squareRemaining ≤ out.length → after.squareRemaining = 0 →
    (out.length - info.squareRemaining) * info.nextFreq <
        halfWaves (out.drop info.squareRemaining) * freq + info.nextFreq ∧
      halfWaves (out.drop info.squareRemaining) * freq <
        (out.length - info.squareRemaining) * info.nextFreq + info.nextFreq
  /-- The error is less than the divisor. -/
  below : ∀ events after out, play samplesFor freq events info = some (after, out) →
    0 < out.length → out.length ≤ samplesFor info.nextDuration freq →
    after.accumulator < info.nextFreq
  /-- It does not matter how the output is split into buffers. -/
  split : ∀ before events first second,
    play samplesFor freq (before ++ .callback (first + second) :: events) info =
      play samplesFor freq (before ++ .callback first :: .callback second :: events) info

/-- The samples of a number of half waves, as the generator makes them. -/
def waveSamples (freq beepFreq n : Nat) : Nat :=
  n * (freq / beepFreq) + extras (freq % beepFreq) (freq / beepFreq) n

/--
The condition for a beep of a number of samples: spread over the quotient of rate and frequency, the
remainder of the two has not come out a whole sample off, and what is left of it is less than the
frequency.
-/
structure BeepCond (freq beepFreq room : Nat) : Prop where
  drift : ∀ n, waveSamples freq beepFreq n ≤ room →
    extras (freq % beepFreq) (freq / beepFreq) n * beepFreq <
        n * (freq % beepFreq) + beepFreq ∧
      n * (freq % beepFreq) <
        extras (freq % beepFreq) (freq / beepFreq) n * beepFreq + beepFreq
  error : ∀ n, waveSamples freq beepFreq n < room →
    rest (freq % beepFreq) (freq / beepFreq) (n + 1) < beepFreq

section Runs

/-- A sample more begins a half wave if its sign is a different one. -/
theorem halfWaves_append (out : List Int) (sample : Int) :
    halfWaves (out ++ [sample]) =
      halfWaves out + if out.getLast? = some sample then 0 else 1 := by
  -- Only the last of the samples so far is compared with the new one.
  induction out with
  | nil => rfl
  | cons first out ih =>
    cases out with
    | nil =>
      simp only [List.cons_append, List.nil_append, halfWaves, List.getLast?_singleton,
        Option.some.injEq]
    | cons second out =>
      simp only [List.cons_append, halfWaves, List.getLast?_cons_cons] at ih ⊢
      rw [ih]
      omega

variable {samplesFor : Nat → Nat → Nat} {freq : Nat}

/-- Queueing a beep changes nothing but the queue, and that only where it is empty. -/
theorem beep_queued {next duration : Nat} {info after : DosBeepGeneratorInfo} {ret : ApiRet}
    (queued : DosBeepImplementation true next duration info = some (ret, after)) :
    after = info ∨ info.nextFreq = 0 ∧
      after = { info with nextDuration := mixDuration duration, nextFreq := next } := by
  -- Of the four ways through the call, only the last one writes to the queue.
  unfold DosBeepImplementation at queued
  split at queued
  · cases queued
    exact Or.inl rfl
  · split at queued
    · cases queued
      exact Or.inl rfl
    · split at queued
      · cases queued
      · rename_i empty
        cases queued
        exact Or.inr ⟨by omega, rfl⟩

/-- What holds of the state and the output is kept if each sample and each beep keep it. -/
theorem play_induct {P : DosBeepGeneratorInfo → List Int → Prop}
    (sample : ∀ info out, P info out →
      P (info.ticks samplesFor freq 1).1 (out ++ (info.ticks samplesFor freq 1).2))
    (beep : ∀ info out next duration, P info out → info.nextFreq = 0 →
      P { info with nextDuration := duration, nextFreq := next } out)
    {events : List BeepEvent} {info after : DosBeepGeneratorInfo} {out more : List Int}
    (start : P info out) (played : play samplesFor freq events info = some (after, more)) :
    P after (out ++ more) := by
  -- The samples of a buffer come one after the other.
  have samples : ∀ count info out, P info out →
      P (info.ticks samplesFor freq count).1 (out ++ (info.ticks samplesFor freq count).2) := by
    intro count
    induction count with
    | zero =>
      intro info out holds
      rw [ticks, List.append_nil]
      exact holds
    | succ count ih =>
      intro info out holds
      rw [Nat.add_comm, ticks_add, ← List.append_assoc]
      exact ih _ _ (sample info out holds)
  induction events generalizing info out more with
  | nil =>
    rw [play] at played
    cases played
    rw [List.append_nil]
    exact start
  | cons event events ih =>
    rw [play] at played
    cases event with
    | beep next duration =>
      have kept : ∃ next_info, playEvent samplesFor freq (.beep next duration) info =
          some (next_info, []) ∧ P next_info out := by
        rw [playEvent]
        split
        · exact ⟨info, rfl, start⟩
        · rename_i ret next_info queued
          refine ⟨next_info, rfl, ?_⟩
          obtain same | ⟨empty, same⟩ := beep_queued queued
          · rw [same]
            exact start
          · rw [same]
            exact beep _ _ _ _ start empty
      obtain ⟨next_info, this_event, holds⟩ := kept
      rw [this_event] at played
      obtain ⟨⟨last, later⟩, rest_played, pair⟩ := Option.map_eq_some_iff.mp played
      cases pair
      rw [List.nil_append]
      exact ih holds rest_played
    | callback count =>
      rw [playEvent_callback] at played
      obtain ⟨⟨last, later⟩, rest_played, pair⟩ := Option.map_eq_some_iff.mp played
      cases pair
      rw [← List.append_assoc]
      exact ih (samples count info out start) rest_played

/-- Whatever happens, each buffer is filled. -/
theorem play_returns (events : List BeepEvent) (info : DosBeepGeneratorInfo) :
    (play samplesFor freq events info).isSome := by
  -- No event can fail: a beep answers at once, and a buffer is filled to its end.
  induction events generalizing info with
  | nil => rfl
  | cons event events ih =>
    rw [play]
    have this_event : ∃ played, playEvent samplesFor freq event info = some played := by
      cases event with
      | beep next duration =>
        rw [playEvent]
        split
        · exact ⟨_, rfl⟩
        · exact ⟨_, rfl⟩
      | callback count => exact ⟨_, playEvent_callback count info⟩
    obtain ⟨played, this_event⟩ := this_event
    rw [this_event]
    dsimp only
    rw [Option.isSome_map]
    exact ih _

/-- A buffer that is filled in two goes makes no difference. -/
theorem play_split (before events : List BeepEvent) (first second : Nat)
    (info : DosBeepGeneratorInfo) :
    play samplesFor freq (before ++ .callback (first + second) :: events) info =
      play samplesFor freq (before ++ .callback first :: .callback second :: events) info := by
  -- What is in front leads to the same state, and from there the samples follow one another.
  induction before generalizing info with
  | nil =>
    simp only [List.nil_append, play, playEvent_callback, ticks_add, Option.map_map]
    congr 1
    funext played
    rw [Function.comp_apply, List.append_assoc]
  | cons event before ih =>
    rw [List.cons_append, List.cons_append, play, play]
    split
    · rfl
    · rw [ih]

/-- One buffer. -/
theorem play_callback (count : Nat) (info : DosBeepGeneratorInfo) :
    play samplesFor freq [.callback count] info = some (info.ticks samplesFor freq count) := by
  simp [play, playEvent_callback]

end Runs

section Waves

variable {freq f : Nat}

/-- Nothing has been generated before the first half wave. -/
@[simp] theorem waveSamples_zero : waveSamples freq f 0 = 0 := by
  rw [waveSamples, Nat.zero_mul, extras_zero]

/-- A half wave takes at least one sample. -/
theorem waveSamples_succ (n : Nat) : waveSamples freq f n < waveSamples freq f (n + 1) := by
  -- One more half wave takes the quotient, and one sample more where the remainders add up to it.
  unfold waveSamples
  rw [Nat.succ_mul]
  generalize freq / f = length
  obtain ⟨_, more, _⟩ | ⟨few, same, _⟩ := step (freq % f) length n
  · omega
  · -- A length of zero would be reached by any sum.
    omega

/-- Half waves are generated one after the other. -/
theorem waveSamples_mono : StrictMono (waveSamples freq f) :=
  strictMono_nat_of_lt_succ waveSamples_succ

/-- The samples are as far off as the remainder that has been spread. -/
theorem drift_iff (n : Nat) :
    (extras (freq % f) (freq / f) n * f < n * (freq % f) + f ∧
      n * (freq % f) < extras (freq % f) (freq / f) n * f + f) ↔
    (waveSamples freq f n * f < n * freq + f ∧ n * freq < waveSamples freq f n * f + f) := by
  -- Whole quotients cancel on both sides, which leaves the remainders.
  have whole : n * freq = n * (freq / f) * f + n * (freq % f) := by
    rw [Nat.mul_assoc, ← Nat.mul_add, Nat.mul_comm (freq / f), Nat.div_add_mod]
  rw [waveSamples, Nat.add_mul, whole]
  omega

end Waves

/-- The state within a beep, of which a number of half waves has begun. -/
structure Beeping (freq f samples before n : Nat) (info : DosBeepGeneratorInfo) (out : List Int) :
    Prop where
  length : info.squareLength = freq / f
  remainder : info.squareRemainder = freq % f
  left : info.samplesRemaining + out.length = samples
  made : out.length + info.squareRemaining = before + waveSamples freq f n
  begun : n ≠ 0 → before + waveSamples freq f (n - 1) < out.length
  error : info.accumulator = rest (freq % f) (freq / f) n
  waves : halfWaves (out.drop before) = n
  last : n ≠ 0 → (out.drop before).getLast? = some info.sign

section Beep

variable {samplesFor : Nat → Nat → Nat} {freq f samples before n : Nat}
  {info : DosBeepGeneratorInfo} {out : List Int}

/-- The output at a sample more, behind what came before the beep. -/
theorem drop_sample (later : before ≤ out.length) (sample : Int) :
    (out ++ [sample]).drop before = out.drop before ++ [sample] :=
  List.drop_append_of_le_length later

/-- A sample within a half wave. -/
theorem Beeping.inside (beeping : Beeping freq f samples before n info out)
    (room : out.length < samples) (inside : info.squareRemaining ≠ 0) :
    Beeping freq f samples before n (info.ticks samplesFor freq 1).1
      (out ++ (info.ticks samplesFor freq 1).2) := by
  -- The sign stays, and the samples of the half wave become one less.
  have left := beeping.left
  have made := beeping.made
  have ready : info.settle samplesFor freq = info := settle_ready (by omega) inside
  rw [ticks_playing ready (by omega)]
  have size : (out ++ [info.sign]).length = out.length + 1 := List.length_append
  show Beeping freq f samples before n (info.played 1) (out ++ [info.sign])
  constructor
  · exact beeping.length
  · exact beeping.remainder
  · rw [size]
    show info.samplesRemaining - 1 + (out.length + 1) = samples
    omega
  · rw [size]
    show out.length + 1 + (info.squareRemaining - 1) = before + waveSamples freq f n
    omega
  · intro some
    have begun := beeping.begun some
    omega
  · exact beeping.error
  · by_cases some : n = 0
    · -- What came before the beep is not over yet.
      rw [some, waveSamples_zero] at made
      rw [List.drop_eq_nil_of_le (by omega), some]
      rfl
    · have begun := beeping.begun some
      rw [drop_sample (by omega), halfWaves_append, beeping.last some, if_pos rfl, beeping.waves]
      rfl
  · intro some
    have begun := beeping.begun some
    rw [drop_sample (by omega), List.getLast?_concat]
    rfl

/-- The sign changes from one half wave to the next. -/
theorem flip_sign (info : DosBeepGeneratorInfo) : info.flip.sign ≠ info.sign := by
  -- Both branches of beginning a part turn the sign over.
  have turned : info.flip.positive = !info.positive := by
    unfold DosBeepGeneratorInfo.flip
    dsimp only
    split <;> rfl
  unfold sign
  rw [turned]
  cases info.positive <;> decide

/-- The first sample of another half wave. -/
theorem Beeping.next (beeping : Beeping freq f samples before n info out)
    (room : out.length < samples) (done : info.squareRemaining = 0)
    (frequency : BeepFrequency f) (small : rest (freq % f) (freq / f) n < f) :
    Beeping freq f samples before (n + 1) (info.ticks samplesFor freq 1).1
      (out ++ (info.ticks samplesFor freq 1).2) := by
  have left := beeping.left
  have made := beeping.made
  rw [done, Nat.add_zero] at made
  have ready : info.settle samplesFor freq = info.flip := settle_flip (by omega) done
  rw [ticks_playing ready (by rw [flip_samplesRemaining]; omega)]
  show Beeping freq f samples before (n + 1) (info.flip.played 1) (out ++ [info.flip.sign])
  have size : (out ++ [info.flip.sign]).length = out.length + 1 := List.length_append
  -- The sum of two numbers below the frequency fits in a word.
  have positive : 0 < f := Nat.lt_of_lt_of_le (by decide) frequency.1
  have remainder := Nat.mod_lt freq positive
  have sum : (info.accumulator + info.squareRemainder) % 2 ^ 32 =
      rest (freq % f) (freq / f) n + freq % f := by
    rw [beeping.error, beeping.remainder]
    have most := frequency.2
    exact Nat.mod_eq_of_lt (by omega)
  have longer : waveSamples freq f n < waveSamples freq f (n + 1) := waveSamples_succ n
  have flipped : info.flip.squareRemaining + waveSamples freq f n = waveSamples freq f (n + 1) ∧
      info.flip.accumulator = rest (freq % f) (freq / f) (n + 1) := by
    unfold DosBeepGeneratorInfo.flip
    rw [sum, beeping.length]
    unfold waveSamples
    rw [Nat.succ_mul]
    obtain ⟨reached, more, less⟩ | ⟨missed, same, whole⟩ := step (freq % f) (freq / f) n
    · dsimp only
      rw [if_pos reached]
      dsimp only
      exact ⟨by omega, less.symm⟩
    · dsimp only
      rw [if_neg (Nat.not_le_of_lt missed)]
      dsimp only
      exact ⟨by omega, whole.symm⟩
  have same_beep : info.flip.squareLength = info.squareLength ∧
      info.flip.squareRemainder = info.squareRemainder := by
    unfold DosBeepGeneratorInfo.flip
    dsimp only
    split <;> exact ⟨rfl, rfl⟩
  have changed : (out.drop before).getLast? ≠ some info.flip.sign := by
    by_cases some : n = 0
    · rw [some, waveSamples_zero] at made
      rw [List.drop_eq_nil_of_le (by omega)]
      exact nofun
    · rw [beeping.last some]
      exact fun same => flip_sign info (Option.some.inj same).symm
  constructor
  · exact same_beep.1.trans beeping.length
  · exact same_beep.2.trans beeping.remainder
  · rw [size]
    show info.flip.samplesRemaining - 1 + (out.length + 1) = samples
    rw [flip_samplesRemaining]
    omega
  · rw [size]
    have some := flip_positive info
    have sizes := flipped.1
    show out.length + 1 + (info.flip.squareRemaining - 1) = before + waveSamples freq f (n + 1)
    omega
  · intro _
    rw [size, Nat.add_sub_cancel]
    omega
  · exact flipped.2
  · rw [drop_sample (by omega), halfWaves_append, if_neg changed, beeping.waves]
  · intro _
    rw [drop_sample (by omega), List.getLast?_concat]
    rfl

/-- Whether the error has stayed below the frequency at the half waves that are over. -/
def ErrorSettled (freq f before made : Nat) : Prop :=
  ∀ n, before + waveSamples freq f n < made → rest (freq % f) (freq / f) n < f

/-- A sample more of a beep. -/
theorem Beeping.sample (beeping : Beeping freq f samples before n info out)
    (room : out.length < samples) (frequency : BeepFrequency f)
    (settled : ErrorSettled freq f before (out.length + 1)) :
    ∃ n, Beeping freq f samples before n (info.ticks samplesFor freq 1).1
      (out ++ (info.ticks samplesFor freq 1).2) := by
  -- A sample is the first one of a half wave exactly where the one before is over.
  by_cases done : info.squareRemaining = 0
  · have made := beeping.made
    exact ⟨n + 1, beeping.next room done frequency (settled n (by omega))⟩
  · exact ⟨n, beeping.inside room done⟩

/-- A beep that has just been set up. -/
theorem beeping_start (start : DosBeepGeneratorInfo) :
    Beeping freq start.nextFreq (samplesFor start.nextDuration freq) start.squareRemaining 0
      (start.startNext samplesFor freq) [] where
  length := rfl
  remainder := rfl
  left := rfl
  made := by rw [waveSamples_zero]; exact Nat.add_comm _ _
  begun := fun some => absurd rfl some
  error := rest_zero.symm
  waves := by rw [List.drop_nil]; rfl
  last := fun some => absurd rfl some

/-- What is kept while a beep lasts: it has not begun yet, or it is under way. -/
def BeepKept (samplesFor : Nat → Nat → Nat) (freq : Nat) (start info : DosBeepGeneratorInfo)
    (out : List Int) : Prop :=
  out.length ≤ samplesFor start.nextDuration freq →
  ErrorSettled freq start.nextFreq start.squareRemaining out.length →
  (info = start ∧ out = []) ∨
    ∃ n, Beeping freq start.nextFreq (samplesFor start.nextDuration freq) start.squareRemaining n
      info out

/-- A beep is kept whatever happens meanwhile. -/
theorem beep_kept {start after : DosBeepGeneratorInfo} {events : List BeepEvent}
    (idle : start.samplesRemaining = 0) (frequency : BeepFrequency start.nextFreq)
    (played : play samplesFor freq events start = some (after, out)) :
    BeepKept samplesFor freq start after out := by
  -- Beeps that are asked for meanwhile are turned away, since one is queued, or wait in the queue.
  have queued : start.nextFreq ≠ 0 := by
    have least := frequency.1
    omega
  have begin : BeepKept samplesFor freq start start [] := fun _ _ => Or.inl ⟨rfl, rfl⟩
  refine play_induct ?_ ?_ begin played
  · intro info out kept room settled
    rw [List.length_append, ticks_length] at room settled
    have earlier : ErrorSettled freq start.nextFreq start.squareRemaining out.length :=
      fun n past => settled n (Nat.lt_succ_of_lt past)
    obtain ⟨rfl, rfl⟩ | ⟨n, beeping⟩ := kept (Nat.le_of_succ_le room) earlier
    · -- The beep is set up before its first sample.
      rw [ticks_settle (settle_start idle queued)]
      exact Or.inr ((beeping_start info).sample room frequency settled)
    · exact Or.inr (beeping.sample room frequency settled)
  · intro info out next duration kept empty room settled
    obtain ⟨rfl, rfl⟩ | ⟨n, beeping⟩ := kept room settled
    · exact absurd empty queued
    · exact Or.inr ⟨n, ⟨beeping.length, beeping.remainder, beeping.left, beeping.made,
        beeping.begun, beeping.error, beeping.waves, beeping.last⟩⟩

/-- At a sample of a beep it is under way. -/
theorem beep_under_way {start after : DosBeepGeneratorInfo} {events : List BeepEvent}
    (idle : start.samplesRemaining = 0) (frequency : BeepFrequency start.nextFreq)
    (played : play samplesFor freq events start = some (after, out)) (some_made : 0 < out.length)
    (room : out.length ≤ samplesFor start.nextDuration freq)
    (settled : ErrorSettled freq start.nextFreq start.squareRemaining out.length) :
    ∃ n, Beeping freq start.nextFreq (samplesFor start.nextDuration freq) start.squareRemaining n
      after out := by
  -- Once a sample was made, the state is no longer the one from before the beep.
  obtain ⟨rfl, rfl⟩ | under_way := beep_kept idle frequency played room settled
  · exact absurd some_made (Nat.lt_irrefl 0)
  · exact under_way

/-- One buffer leads to any sample of a beep. -/
theorem beep_reaches {start : DosBeepGeneratorInfo} {made : Nat}
    (idle : start.samplesRemaining = 0) (frequency : BeepFrequency start.nextFreq)
    (some_made : 0 < made) (room : made ≤ samplesFor start.nextDuration freq)
    (settled : ErrorSettled freq start.nextFreq start.squareRemaining made) :
    ∃ after out n, play samplesFor freq [.callback made] start = some (after, out) ∧
      out.length = made ∧
      Beeping freq start.nextFreq (samplesFor start.nextDuration freq) start.squareRemaining n
        after out := by
  -- The run with one buffer of that size is taken, which needs no other event.
  have size : (start.ticks samplesFor freq made).2.length = made := ticks_length made start
  rw [← size] at some_made room settled
  obtain ⟨n, beeping⟩ :=
    beep_under_way idle frequency (play_callback made start) some_made room settled
  exact ⟨_, _, n, play_callback made start, size, beeping⟩

/-- The half wave that a sample belongs to. -/
theorem Beeping.wave (beeping : Beeping freq f samples before n info out) {m : Nat}
    (past : before + waveSamples freq f m < out.length) : m < n := by
  -- Half waves take more and more samples.
  have made := beeping.made
  have less : waveSamples freq f m < waveSamples freq f n := by omega
  exact waveSamples_mono.lt_iff_lt.mp less

/-- After the samples of a number of half waves, these and no others are over. -/
theorem Beeping.complete {m : Nat} (beeping : Beeping freq f samples before n info out)
    (made : out.length = before + waveSamples freq f m) : n = m ∧ info.squareRemaining = 0 := by
  -- More half waves take more samples, so the number of samples decides how many are over.
  have upto := beeping.made
  have below : m ≤ n := by
    have less : waveSamples freq f m ≤ waveSamples freq f n := by omega
    exact waveSamples_mono.le_iff_le.mp less
  have above : n ≤ m := by
    by_contra more
    have begun := beeping.begun (by omega)
    have less : waveSamples freq f (n - 1) < waveSamples freq f m := by omega
    have earlier := waveSamples_mono.lt_iff_lt.mp less
    omega
  have same := Nat.le_antisymm above below
  rw [same] at upto
  exact ⟨same, by omega⟩

/-- The condition keeps the error below the frequency. -/
theorem BeepCond.settled {made : Nat} (cond : BeepCond freq f (samples - before))
    (frequency : BeepFrequency f) (room : made ≤ samples) : ErrorSettled freq f before made := by
  -- Before the first half wave there is no error, and a later one stands behind one that is over.
  intro n past
  cases n with
  | zero =>
    rw [rest_zero]
    exact Nat.lt_of_lt_of_le (by decide) frequency.1
  | succ n =>
    have earlier : waveSamples freq f n < waveSamples freq f (n + 1) := waveSamples_succ n
    exact cond.error n (by omega)

/-- Under the condition a beep is right. -/
theorem right_of_cond {start : DosBeepGeneratorInfo} (idle : start.samplesRemaining = 0)
    (frequency : BeepFrequency start.nextFreq)
    (cond : BeepCond freq start.nextFreq
      (samplesFor start.nextDuration freq - start.squareRemaining)) :
    BeepRight samplesFor freq start := by
  constructor
  · exact fun events => play_returns events start
  · intro events after out played some_made room begun done
    obtain ⟨n, beeping⟩ :=
      beep_under_way idle frequency played some_made room (cond.settled frequency room)
    have made := beeping.made
    have generated : out.length - start.squareRemaining = waveSamples freq start.nextFreq n := by
      omega
    rw [beeping.waves, generated]
    exact (drift_iff n).mp (cond.drift n (by omega))
  · intro events after out played some_made room
    obtain ⟨n, beeping⟩ :=
      beep_under_way idle frequency played some_made room (cond.settled frequency room)
    rw [beeping.error]
    cases n with
    | zero =>
      rw [rest_zero]
      exact Nat.lt_of_lt_of_le (by decide) frequency.1
    | succ n =>
      -- The half wave under way has begun before the end of the beep.
      have begun := beeping.begun (Nat.succ_ne_zero n)
      rw [Nat.add_sub_cancel] at begun
      exact cond.error n (by omega)
  · exact fun before events first second => play_split before events first second start

/-- A beep that is right meets the condition for one half wave after the other. -/
theorem cond_of_right {start : DosBeepGeneratorInfo} (idle : start.samplesRemaining = 0)
    (frequency : BeepFrequency start.nextFreq) (right : BeepRight samplesFor freq start) :
    BeepCond freq start.nextFreq
      (samplesFor start.nextDuration freq - start.squareRemaining) := by
  have positive : 0 < start.nextFreq := Nat.lt_of_lt_of_le (by decide) frequency.1
  have each : ∀ n, (waveSamples freq start.nextFreq n ≤
        samplesFor start.nextDuration freq - start.squareRemaining →
      extras (freq % start.nextFreq) (freq / start.nextFreq) n * start.nextFreq <
          n * (freq % start.nextFreq) + start.nextFreq ∧
        n * (freq % start.nextFreq) <
          extras (freq % start.nextFreq) (freq / start.nextFreq) n * start.nextFreq +
            start.nextFreq) ∧
      (waveSamples freq start.nextFreq n <
        samplesFor start.nextDuration freq - start.squareRemaining →
      rest (freq % start.nextFreq) (freq / start.nextFreq) (n + 1) < start.nextFreq) := by
    intro n
    induction n using Nat.strongRecOn with
    | ind n ih =>
      -- The half waves before this one have left less than the frequency.
      have settled : ∀ made, made ≤ start.squareRemaining + waveSamples freq start.nextFreq n + 1 →
          made ≤ samplesFor start.nextDuration freq →
          ErrorSettled freq start.nextFreq start.squareRemaining made := by
        intro made upto room m past
        cases m with
        | zero =>
          rw [rest_zero]
          exact positive
        | succ m =>
          have longer : waveSamples freq start.nextFreq m <
            waveSamples freq start.nextFreq (m + 1) := waveSamples_succ m
          have less : waveSamples freq start.nextFreq m <
            waveSamples freq start.nextFreq n := by omega
          exact (ih m (waveSamples_mono.lt_iff_lt.mp less)).2 (by omega)
      constructor
      · intro fits
        cases n with
        | zero =>
          rw [extras_zero, Nat.zero_mul, Nat.zero_mul, Nat.zero_add]
          exact ⟨positive, positive⟩
        | succ n =>
          have longer : waveSamples freq start.nextFreq n <
            waveSamples freq start.nextFreq (n + 1) := waveSamples_succ n
          obtain ⟨made, is_made⟩ : ∃ made,
            made = start.squareRemaining + waveSamples freq start.nextFreq (n + 1) := ⟨_, rfl⟩
          have within : made ≤ samplesFor start.nextDuration freq := by omega
          obtain ⟨after, out, m, played, size, beeping⟩ :=
            beep_reaches idle frequency (by omega) within (settled made (by omega) within)
          rw [is_made] at size
          obtain ⟨rfl, done⟩ := beeping.complete size
          have timed := right.timed _ _ _ played (by omega) (by omega) (by omega) done
          rw [beeping.waves, size, Nat.add_sub_cancel_left] at timed
          exact (drift_iff (n + 1)).mpr timed
      · intro fits
        obtain ⟨made, is_made⟩ : ∃ made,
          made = start.squareRemaining + waveSamples freq start.nextFreq n + 1 := ⟨_, rfl⟩
        have within : made ≤ samplesFor start.nextDuration freq := by omega
        obtain ⟨after, out, m, played, size, beeping⟩ :=
          beep_reaches idle frequency (by omega) within (settled made (by omega) within)
        have below := right.below _ _ _ played (by omega) (by omega)
        -- One sample behind a half wave the next one has begun.
        have more : n < m := beeping.wave (by omega)
        have begun := beeping.begun (by omega)
        have less : waveSamples freq start.nextFreq (m - 1) <
          waveSamples freq start.nextFreq (n + 1) := by
          have longer : waveSamples freq start.nextFreq n <
            waveSamples freq start.nextFreq (n + 1) := waveSamples_succ n
          omega
        have earlier := waveSamples_mono.lt_iff_lt.mp less
        have same : m = n + 1 := by omega
        rw [beeping.error, same] at below
        exact below
  exact ⟨fun n => (each n).1, fun n => (each n).2⟩

/-- A beep is right exactly if spreading the remainder over the quotient does not show in it. -/
theorem beep_right_iff {start : DosBeepGeneratorInfo} (idle : start.samplesRemaining = 0)
    (frequency : BeepFrequency start.nextFreq) :
    BeepRight samplesFor freq start ↔
      BeepCond freq start.nextFreq
        (samplesFor start.nextDuration freq - start.squareRemaining) :=
  ⟨cond_of_right idle frequency, right_of_cond idle frequency⟩

/-- There is nothing to spread where the rate is a multiple of the frequency. -/
theorem cond_of_multiple (whole : freq % f = 0) (less : f ≤ freq) (positive : 0 < f) (room : Nat) :
    BeepCond freq f room := by
  -- Without a remainder there is nothing to be spread.
  have length : 0 < freq / f := Nat.div_pos less positive
  have none : ∀ n, extras (freq % f) (freq / f) n = 0 := by
    intro n
    rw [whole, extras, if_pos length, Nat.mul_zero, Nat.zero_div]
  constructor
  · intro n _
    rw [none, whole, Nat.zero_mul, Nat.mul_zero, Nat.zero_add]
    exact ⟨positive, positive⟩
  · intro n _
    rw [rest, whole, Nat.mul_zero, Nat.zero_sub]
    exact positive

/-- Where the quotient is the frequency, the remainder is spread over the frequency. -/
theorem cond_of_square (same : freq / f = f) (positive : 0 < f) (room : Nat) :
    BeepCond freq f room := by
  -- The remainders are spread over the same number that they are taken by.
  have small := Nat.mod_lt freq positive
  constructor
  · intro n _
    have split := extras_rest (freq % f) f n
    have below := rest_lt small n
    rw [same, Nat.mul_comm _ f]
    omega
  · intro n _
    rw [same]
    exact rest_lt small (n + 1)

/-- A tone of 441 Hz at 44100 samples a second keeps to its frequency. -/
theorem whole_length_right :
    BeepRight (fun duration freq => duration * freq / 1000) 44100 ⟨0, false, 5, 0, 0, 0, 441, 55⟩ :=
  (beep_right_iff rfl (by decide)).mpr (cond_of_multiple rfl (by decide) (by decide) _)

/-- A tone of 3000 Hz at 8000 samples a second is a whole sample late after three half waves. -/
theorem three_half_waves_late :
    ∃ start, DosBeepImplementation true 3000 11000 .cleared = some (.noError, start) ∧
      ∃ after out, play (fun duration freq => duration * freq / 1000) 8000 [.callback 9] start =
          some (after, out) ∧
        after.squareRemaining = 0 ∧ out.length = 9 ∧ halfWaves out = 3 ∧
        ¬ BeepRight (fun duration freq => duration * freq / 1000) 8000 start := by
  -- Three half waves of 8000 / 3000 samples are eight samples; the callback has played nine.
  refine ⟨_, rfl, _, _, rfl, rfl, rfl, by decide, fun right => ?_⟩
  have timed := right.timed [.callback 9] _ _ rfl (by decide) (by decide) (by decide) rfl
  revert timed
  decide

end Beep

end TwoIne
