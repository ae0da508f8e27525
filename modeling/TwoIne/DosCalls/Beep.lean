import Mathlib.Algebra.Group.Nat.Defs
import Mathlib.Data.List.Basic
import TwoIne.Os2Errors

/-! Beeps: queueing one, and generating the samples of the square wave. -/

namespace TwoIne

/-- What the generator keeps from one buffer to the next, and the beep that is queued. -/
structure DosBeepGeneratorInfo where
  samplesRemaining : Nat
  positive : Bool
  squareRemaining : Nat
  squareLength : Nat
  squareRemainder : Nat
  accumulator : Nat
  nextFreq : Nat
  nextDuration : Nat
  deriving DecidableEq, Repr

/-- The state before the first beep. -/
def DosBeepGeneratorInfo.cleared : DosBeepGeneratorInfo := ⟨0, false, 0, 0, 0, 0, 0, 0⟩

namespace DosBeepGeneratorInfo

/--
Setting up the beep that is queued, at a sample rate.

The number of samples comes from a product of floating point numbers, which is a parameter.
-/
def startNext (samplesFor : Nat → Nat → Nat) (freq : Nat) (info : DosBeepGeneratorInfo) :
    DosBeepGeneratorInfo :=
  { info with
    squareLength := freq / info.nextFreq
    squareRemainder := freq % info.nextFreq
    samplesRemaining := samplesFor info.nextDuration freq
    accumulator := 0
    nextFreq := 0
    nextDuration := 0 }

/-- Starting the next part of the square wave. -/
def flip (info : DosBeepGeneratorInfo) : DosBeepGeneratorInfo :=
  let accumulator := (info.accumulator + info.squareRemainder) % 2 ^ 32
  let info := { info with positive := !info.positive }
  if info.squareLength ≤ accumulator then
    { info with
      squareRemaining := info.squareLength + 1
      accumulator := accumulator - info.squareLength }
  else { info with squareRemaining := info.squareLength, accumulator }

/-- The state after a number of samples of the current part. -/
def played (total : Nat) (info : DosBeepGeneratorInfo) : DosBeepGeneratorInfo :=
  { info with
    samplesRemaining := info.samplesRemaining - total
    squareRemaining := info.squareRemaining - total }

/-- What a sample of the current part is, as a multiple of the volume. -/
def sign (info : DosBeepGeneratorInfo) : Int := if info.positive then 1 else -1

end DosBeepGeneratorInfo

/--
Filling a buffer, in a number of turns: whether to stay in the mixer, the state, and what is added to
each sample of the buffer.
-/
def DosBeepGenerator (samplesFor : Nat → Nat → Nat) (freq : Nat) :
    Nat → Nat → DosBeepGeneratorInfo → Option (Bool × DosBeepGeneratorInfo × List Int)
  | 0, _, _ => none
  | turns + 1, samples, info =>
    if samples = 0 then some (true, info, [])
    else if info.samplesRemaining = 0 then
      -- Without another beep the rest of the buffer is left as it is.
      if info.nextFreq = 0 then some (false, info, List.replicate samples 0)
      else DosBeepGenerator samplesFor freq turns samples (info.startNext samplesFor freq)
    else if info.squareRemaining = 0 then
      DosBeepGenerator samplesFor freq turns samples info.flip
    else
      let total := min samples (min info.samplesRemaining info.squareRemaining)
      match DosBeepGenerator samplesFor freq turns (samples - total) (info.played total) with
      | none => none
      | some (rc, after, stream) => some (rc, after, List.replicate total info.sign ++ stream)

/-- The frequencies that a beep may have. -/
def BeepFrequency (freq : Nat) : Prop := 0x25 ≤ freq ∧ freq ≤ 0x7FFF

instance (freq : Nat) : Decidable (BeepFrequency freq) :=
  inferInstanceAs (Decidable (0x25 ≤ freq ∧ freq ≤ 0x7FFF))

/-- A duration rounded up to the ticks of the timer. -/
def mixDuration (duration : Nat) : Nat :=
  (duration + if duration % 55 ≠ 0 then 55 - duration % 55 else 0) % 2 ^ 32

/--
Queueing a beep, with the answer of the mixer; nothing comes back while another one is queued, since
the call waits until the generator has taken it.
-/
def DosBeepImplementation (rc : Bool) (freq duration : Nat) (info : DosBeepGeneratorInfo) :
    Option (ApiRet × DosBeepGeneratorInfo) :=
  if ¬ BeepFrequency freq then some (.errorInvalidFrequency, info)
  else if duration = 0 then some (.noError, info)
  else if info.nextFreq ≠ 0 then none
  else
    let info := { info with nextDuration := mixDuration duration, nextFreq := freq }
    some (.noError, if rc then info else .cleared)

/-- What happens: a program beeps, or the mixer wants a buffer filled. -/
inductive BeepEvent where
  | beep (freq duration : Nat)
  | callback (samples : Nat)
  deriving DecidableEq, Repr

/-- The turns that are enough for a buffer. -/
def beepTurns (samples : Nat) : Nat := 3 * samples + 1

/-- The state after an event, and what it adds to the output. -/
def playEvent (samplesFor : Nat → Nat → Nat) (freq : Nat) :
    BeepEvent → DosBeepGeneratorInfo → Option (DosBeepGeneratorInfo × List Int)
  | .beep next duration, info =>
    match DosBeepImplementation true next duration info with
    | none => some (info, [])
    | some (_, info) => some (info, [])
  | .callback samples, info =>
    (DosBeepGenerator samplesFor freq (beepTurns samples) samples info).map Prod.snd

/-- The state after events, and the whole output. -/
def play (samplesFor : Nat → Nat → Nat) (freq : Nat) :
    List BeepEvent → DosBeepGeneratorInfo → Option (DosBeepGeneratorInfo × List Int)
  | [], info => some (info, [])
  | event :: events, info =>
    match playEvent samplesFor freq event info with
    | none => none
    | some (info, stream) =>
      (play samplesFor freq events info).map fun (after, more) => (after, stream ++ more)

end TwoIne
