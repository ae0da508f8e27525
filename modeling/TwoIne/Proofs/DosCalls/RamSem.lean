import Mathlib.Logic.Function.Basic
import TwoIne.DosCalls.RamSem
import TwoIne.Lib.Runs

/-! A word semaphore is owned by one thread at a time, until somebody sets it or waits for it. -/

namespace TwoIne

/-- The word, the calls the threads are in, and the thread whose request succeeded last. -/
structure RamSem where
  word : BitVec 32
  calls : Nat → Option RamSemCall := fun _ => none
  /-- The thread that owns the semaphore; a clear takes it away. -/
  owner : Option Nat := none

/-- What a thread does next: it starts a call, or takes a turn of the call it is in. -/
inductive RamSemEvent where
  | start (thread : Nat) (call : RamSemCall)
  | turn (thread : Nat) (expired : Bool)
  deriving DecidableEq, Repr

/-- The owner after a turn of a call. -/
def ownerAfter (thread : Nat) (owner : Option Nat) : RamSemCall → Option ApiRet → Option Nat
  | .request _, some .noError => some thread
  | .clear, _ => none
  | _, _ => owner

/-- One atomic step of one thread, and what the call returned, if it did. -/
def ramSemStep (s : RamSem) : RamSemEvent → Option (RamSem × Option ApiRet)
  | .start thread call =>
    some ({ s with calls := Function.update s.calls thread (some call) }, none)
  | .turn thread expired =>
    match s.calls thread with
    | none => none
    | some call =>
      let (word, ret) := call.turn expired s.word
      -- A call that does not return takes another turn later.
      let calls := if ret.isSome then Function.update s.calls thread none else s.calls
      some ({ word, calls, owner := ownerAfter thread s.owner call ret }, ret)

/-- A thread starts a call when it is in none, and takes turns of the call it is in. -/
def RamSemMay (s : RamSem) : RamSemEvent → Prop
  | .start thread _ => s.calls thread = none
  | .turn thread _ => s.calls thread ≠ none

/-- A semaphore with an owner is set. -/
def RamSemGood (s : RamSem) : Prop := s.owner ≠ none → s.word ≠ 0

/-- What a turn of a call is meant to do to the word. -/
def TurnRight (word : BitVec 32) (owner : Option Nat) (after : BitVec 32) (ret : Option ApiRet) :
    RamSemCall → Prop
  | .request _ =>
    -- A request that succeeds takes a clear semaphore that nobody owns.
    ret = some .noError → word = 0 ∧ after ≠ 0 ∧ owner = none
  | .clear => after = 0
  | .wait _ => (ret = some .noError → word = 0) ∧ after = word
  | .set => after ≠ 0

/-- What a step is meant to do. -/
def RamSemDone (s : RamSem) (event : RamSemEvent) (t : RamSem) (ret : Option ApiRet) : Prop :=
  match event with
  | .start _ _ => t.word = s.word ∧ t.owner = s.owner ∧ ret = none
  | .turn thread _ =>
    ∀ call, s.calls thread = some call → TurnRight s.word s.owner t.word ret call

/--
The turns that do no harm: nobody waits for a clear semaphore, and nobody sets one that is clear or
that a request has taken.
-/
def TurnHarmless (word : BitVec 32) : RamSemCall → Prop
  | .wait _ => word ≠ 0
  | .set => word ≠ 0 ∧ word ≠ 1
  | _ => True

/-- The steps that do no harm. -/
def RamSemHarmless (s : RamSem) : RamSemEvent → Prop
  | .start _ _ => True
  | .turn thread _ => ∀ call ∈ s.calls thread, TurnHarmless s.word call

instance (s : RamSem) (event : RamSemEvent) : Decidable (RamSemMay s event) := by
  cases event <;> unfold RamSemMay <;> infer_instance

instance (word : BitVec 32) (call : RamSemCall) : Decidable (TurnHarmless word call) := by
  cases call <;> unfold TurnHarmless <;> infer_instance

instance (s : RamSem) (event : RamSemEvent) : Decidable (RamSemHarmless s event) := by
  cases event <;> unfold RamSemHarmless <;> infer_instance

/-- An attempt returns without an error exactly when it succeeded. -/
theorem afterAttempt_eq_noError {ms : Int} {expired got : Bool} :
    afterAttempt ms expired got = some .noError ↔ got = true := by
  -- Each way to give up returns a timeout or nothing.
  cases got with
  | true => simp [afterAttempt]
  | false =>
    unfold afterAttempt
    split
    · simp_all
    · split
      · simp
      · split
        · simp
        · split <;> simp

/-- A request sets the word, and succeeds exactly when the word was clear. -/
theorem DosSemRequest_does (ms : Int) (expired : Bool) (word : BitVec 32) :
    (DosSemRequest ms expired word).1 = 1 ∧
      ((DosSemRequest ms expired word).2 = some .noError ↔ word = 0) := by
  refine ⟨rfl, afterAttempt_eq_noError.trans ?_⟩
  exact decide_eq_true_iff

/-- Waiting for a clear word sets it. -/
theorem DosSemWait_clear (ms : Int) (expired : Bool) :
    (DosSemWait ms expired 0).1 = 1 := by
  -- The exchange expects exactly this word.
  rfl

/-- Waiting for any other word leaves it as it is, and does not succeed. -/
theorem DosSemWait_taken (ms : Int) (expired : Bool) {word : BitVec 32} (taken : word ≠ 0) :
    (DosSemWait ms expired word).1 = word ∧ (DosSemWait ms expired word).2 ≠ some .noError := by
  have missed : syncBoolCompareAndSwap 0 1 word = (word, false) := if_neg taken
  unfold DosSemWait
  rw [missed]
  refine ⟨rfl, fun succeeded => ?_⟩
  have got : afterAttempt ms expired false = some .noError := succeeded
  cases afterAttempt_eq_noError.mp got

/-- Setting the semaphore clears a word that a request has taken, and leaves any other alone. -/
theorem DosSemSet_word (word : BitVec 32) :
    (DosSemSet word).1 = if word = 1 then 0 else word := by
  unfold DosSemSet syncBoolCompareAndSwap
  split <;> rfl

/-- A turn of a call does what it is meant to do exactly when it does no harm. -/
theorem turnRight_iff {word : BitVec 32} {owner : Option Nat} (thread : Nat) (expired : Bool)
    (good : owner ≠ none → word ≠ 0) (call : RamSemCall) :
    (TurnRight word owner (call.turn expired word).1 (call.turn expired word).2 call ∧
        (ownerAfter thread owner call (call.turn expired word).2 ≠ none →
          (call.turn expired word).1 ≠ 0)) ↔
      TurnHarmless word call := by
  cases call with
  | request ms =>
    -- The word is set whether or not the request succeeds.
    obtain ⟨set, succeeds⟩ := DosSemRequest_does ms expired word
    refine ⟨fun _ => trivial, fun _ => ⟨fun succeeded => ?_, fun _ => ?_⟩⟩
    · have clear := succeeds.mp succeeded
      refine ⟨clear, ?_, ?_⟩
      · show (DosSemRequest ms expired word).1 ≠ 0
        rw [set]
        decide
      · by_contra owned
        exact good owned clear
    · show (DosSemRequest ms expired word).1 ≠ 0
      rw [set]
      decide
  | clear => exact ⟨fun _ => trivial, fun _ => ⟨rfl, fun owned => absurd rfl owned⟩⟩
  | wait ms =>
    constructor
    · rintro ⟨⟨_, kept⟩, _⟩ clear
      -- A clear word would have been set.
      have kept : (DosSemWait ms expired word).1 = word := kept
      rw [clear, DosSemWait_clear] at kept
      cases kept
    · intro taken
      obtain ⟨kept, fails⟩ := DosSemWait_taken ms expired taken
      refine ⟨⟨fun succeeded => absurd succeeded fails, kept⟩, fun _ => ?_⟩
      show (DosSemWait ms expired word).1 ≠ 0
      rw [kept]
      exact taken
  | set =>
    have set : (RamSemCall.turn expired word .set).1 = if word = 1 then 0 else word :=
      DosSemSet_word word
    constructor
    · rintro ⟨right, _⟩
      have right : (RamSemCall.turn expired word .set).1 ≠ 0 := right
      rw [set] at right
      constructor
      · rintro rfl
        exact right rfl
      · rintro rfl
        exact right rfl
    · rintro ⟨nonzero, free⟩
      rw [if_neg free] at set
      have right : (RamSemCall.turn expired word .set).1 ≠ 0 := by rw [set]; exact nonzero
      exact ⟨right, fun _ => right⟩

/-- One step does what it is meant to do, and keeps the semaphore good, when it does no harm. -/
theorem ramSemStep_exact {s : RamSem} {event : RamSemEvent} (good : RamSemGood s)
    (may : RamSemMay s event) :
    (∃ t ret, ramSemStep s event = some (t, ret) ∧ RamSemDone s event t ret ∧ RamSemGood t) ↔
      RamSemHarmless s event := by
  cases event with
  | start thread call =>
    -- Starting a call does not touch the word.
    exact ⟨fun _ => trivial, fun _ => ⟨_, _, rfl, ⟨rfl, rfl, rfl⟩, good⟩⟩
  | turn thread expired =>
    obtain ⟨call, here⟩ := Option.ne_none_iff_exists'.mp may
    have turn := turnRight_iff thread expired good call
    simp only [ramSemStep, here, RamSemHarmless]
    constructor
    · rintro ⟨t, ret, stepped, done, good'⟩ other same
      cases stepped
      cases Option.some.inj same
      exact turn.mp ⟨done call here, good'⟩
    · intro harmless
      obtain ⟨right, good'⟩ := turn.mpr (harmless call rfl)
      refine ⟨_, _, rfl, fun other same => ?_, good'⟩
      cases here.symm.trans same
      exact right

/-- A word that no thread has touched yet is good. -/
theorem ramSemGood_start (word : BitVec 32) : RamSemGood { word } := by
  -- Nobody owns it.
  intro owned
  exact absurd rfl owned

/--
In every interleaving of threads, requests take turns, a set leaves the semaphore set and a wait
leaves it alone, exactly when no turn does harm.
-/
theorem ram_semaphore_run_good_iff (word : BitVec 32) {events : List RamSemEvent}
    (issued : Runs.Each ramSemStep RamSemMay { word } events) :
    Runs.StaysGood ramSemStep RamSemGood RamSemDone { word } events ↔
      Runs.Each ramSemStep RamSemHarmless { word } events :=
  Runs.staysGood_iff_each (fun _ _ => ramSemStep_exact) (ramSemGood_start word) issued

/-- A thread takes a clear semaphore and releases it. -/
def takenAndCleared : List RamSemEvent :=
  [.start 1 (.request 0), .turn 1 false, .start 1 .clear, .turn 1 false]

/-- Taking a clear semaphore and releasing it does no harm. -/
theorem ram_semaphore_taken_and_cleared :
    Runs.StaysGood ramSemStep RamSemGood RamSemDone { word := 0 } takenAndCleared :=
  (ram_semaphore_run_good_iff 0 (by decide)).mpr (by decide)

/-- A thread takes a clear semaphore, and another one sets it. -/
def takenAndSet : List RamSemEvent :=
  [.start 1 (.request 0), .turn 1 false, .start 2 .set, .turn 2 false, .start 3 (.request 0),
    .turn 3 false]

/--
Setting a semaphore that a thread has taken clears it, and a third thread takes it as well; waiting
for a clear semaphore sets it.
-/
theorem set_releases_owner :
    ¬ Runs.StaysGood ramSemStep RamSemGood RamSemDone { word := 0 } takenAndSet ∧
      (∃ s, Runs.runFrom ramSemStep { word := 0 } takenAndSet = some s ∧ s.owner = some 3) ∧
      (DosSemWait 0 false 0).1 = 1 := by
  refine ⟨?_, ⟨_, rfl, rfl⟩, rfl⟩
  intro stays
  have harmless := (Runs.staysGood_iff_each (fun _ _ => ramSemStep_exact) (ramSemGood_start 0)
    (by decide : Runs.Each ramSemStep RamSemMay { word := 0 } takenAndSet)).mp stays
  revert harmless
  decide

end TwoIne
