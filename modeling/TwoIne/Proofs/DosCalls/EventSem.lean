import Mathlib.Data.List.Basic
import TwoIne.DosCalls.EventSem
import TwoIne.Lib.Runs

/-!
The waiters of an event semaphore are counted right in every interleaving, if the count starts at
zero.
-/

namespace TwoIne

/-- A semaphore, the threads in the blocking part of a wait, and those about to destroy it. -/
structure EventRun where
  sem : Option EventSem := none
  /-- Each thread that is blocked, and whether its wait ends after a time. -/
  blocked : List (Nat × Bool) := []
  closing : List Nat := []
  /-- Whether the semaphore was created posted or posted since, and not reset after that. -/
  signalled : Bool := false
  deriving DecidableEq, Repr

/-- A step of a thread: the call it makes, or how it goes on with one. -/
inductive EventSemStep where
  | create (host : EventSemHost) (named : Bool) (state : Nat)
  | post
  | reset
  | query
  | poll
  | enter (thread : Nat) (timed : Bool)
  | wake (thread : Nat) (timed timedOut : Bool)
  | close (thread : Nat)
  | destroy (thread : Nat)
  deriving DecidableEq, Repr

/-- What a step answers: a return code, and what it read of the semaphore. -/
structure EventAnswer where
  ret : Option ApiRet
  count : Option Int := none
  deriving DecidableEq, Repr

/-- One step on a semaphore that exists. -/
def EventRun.step (s : EventRun) (sem : EventSem) : EventSemStep → Option (EventRun × EventAnswer)
  | .create _ _ _ => none
  | .post =>
    let (sem, ret) := DosPostEventSem sem
    some ({ s with sem := some sem, signalled := true }, ⟨some ret, none⟩)
  | .reset =>
    let (sem, ret, count) := DosResetEventSem sem
    some ({ s with sem := some sem, signalled := false }, ⟨some ret, some count⟩)
  | .query =>
    let (ret, count) := DosQueryEventSem sem
    some (s, ⟨some ret, some count⟩)
  | .poll => some (s, ⟨some (pollEventSem sem), none⟩)
  | .enter thread timed =>
    let (sem, ret) := beginEventWait sem
    let blocked := if ret.isSome then s.blocked else (thread, timed) :: s.blocked
    some ({ s with sem := some sem, blocked }, ⟨ret, none⟩)
  | .wake thread timed timedOut =>
    let (sem, ret) := wakeEventWait timedOut sem
    let blocked := if ret.isSome then s.blocked.erase (thread, timed) else s.blocked
    some ({ s with sem := some sem, blocked }, ⟨ret, none⟩)
  | .close thread =>
    let ret := closeEventSem sem
    let closing := if ret.isSome then s.closing else thread :: s.closing
    some ({ s with closing }, ⟨ret, none⟩)
  | .destroy thread =>
    -- Destroying what a thread waits for is undefined.
    if s.blocked = [] then
      some ({ s with sem := none, closing := s.closing.erase thread }, ⟨some .noError, none⟩)
    else none

/-- One step; using a semaphore that is gone is a fault. -/
def eventStep (s : EventRun) (step : EventSemStep) : Option (EventRun × EventAnswer) :=
  match s.sem with
  | some sem => s.step sem step
  | none =>
    match step with
    | .create host named state =>
      match DosCreateEventSem host named state with
      | .error ret => some (s, ⟨some ret, none⟩)
      | .ok sem => some ({ s with sem := some sem, signalled := state ≠ 0 }, ⟨some .noError, none⟩)
    | _ => none

/--
The steps that threads can take: calls are made with a semaphore that was created and not closed, by
threads that are not in another call, and waits that end after a time are the timed ones.
-/
def EventMay (s : EventRun) : EventSemStep → Prop
  | .create _ _ _ => s.sem = none ∧ s.blocked = [] ∧ s.closing = []
  | .post => s.sem ≠ none
  | .reset => s.sem ≠ none
  | .query => s.sem ≠ none
  | .poll => s.sem ≠ none
  | .enter thread _ => s.sem ≠ none ∧ (∀ timed, (thread, timed) ∉ s.blocked) ∧ thread ∉ s.closing
  | .wake thread timed timedOut => (thread, timed) ∈ s.blocked ∧ (timedOut = true → timed = true)
  | .close thread => s.sem ≠ none ∧ (∀ timed, (thread, timed) ∉ s.blocked) ∧ thread ∉ s.closing
  | .destroy thread => thread ∈ s.closing

/--
The count is that of the blocked threads, the semaphore is posted when it was signalled, and no
thread waits for a semaphore that is gone.
-/
structure EventGood (s : EventRun) : Prop where
  counted : ∀ sem, s.sem = some sem → sem.waiting = s.blocked.length
  posted : ∀ sem, s.sem = some sem → sem.posted = if s.signalled then 1 else 0
  gone : s.sem = none → s.blocked = []

/-- What a step is meant to do. -/
def EventDone (s : EventRun) (step : EventSemStep) (t : EventRun) (answer : EventAnswer) : Prop :=
  match step with
  | .create _ _ _ => answer.ret = some .noError ↔ t.sem ≠ none
  | .post => t.signalled = true ∧ (answer.ret = some .noError ↔ s.signalled = false)
  | .reset => t.signalled = false ∧ answer.count = some (if s.signalled then 1 else 0)
  | .query => t = s ∧ answer.count = some (if s.signalled then 1 else 0)
  | .poll => t = s ∧ (answer.ret = some .noError ↔ s.signalled = true)
  | .enter thread timed =>
    -- A wait that returns at once, or later, succeeds only if the semaphore is posted then.
    (answer.ret = some .noError → s.signalled = true ∧ t.blocked = s.blocked) ∧
      (answer.ret = none → t.blocked = (thread, timed) :: s.blocked)
  | .wake thread timed timedOut =>
    (answer.ret = some .noError → s.signalled = true) ∧
      (answer.ret = some .errorTimeout → timedOut = true) ∧
      (answer.ret = none → t.blocked = s.blocked) ∧
      (answer.ret ≠ none → t.blocked = s.blocked.erase (thread, timed))
  | .close thread =>
    -- The semaphore is busy exactly when a thread is blocked; otherwise it is destroyed next.
    (answer.ret = some .errorSemBusy ↔ s.blocked ≠ []) ∧
      (s.blocked = [] → answer.ret = none ∧ t.closing = thread :: s.closing)
  | .destroy _ => t.sem = none ∧ answer.ret = some .noError

/--
The memory of a new semaphore counts no waiter, and no thread has come to wait for a semaphore, or
has destroyed it, since a thread that is about to destroy it looked.
-/
def EventSound (s : EventRun) : EventSemStep → Prop
  | .create host named _ =>
    named = false → host.mutex = true → host.condition = true →
      ∀ sem ∈ host.malloced, sem.waiting = 0
  | .destroy _ => s.sem ≠ none ∧ s.blocked = []
  | _ => True

/-- The semaphore that a run is meant to have. -/
def EventRun.expected (s : EventRun) : EventSem :=
  { posted := if s.signalled then 1 else 0, waiting := s.blocked.length }

/-- The semaphore of a good run is the one it is meant to have. -/
theorem EventGood.sem_eq {s : EventRun} {sem : EventSem} (good : EventGood s)
    (here : s.sem = some sem) : sem = s.expected := by
  obtain ⟨posted, waiting⟩ := sem
  -- Both fields are known.
  have counted := good.counted _ here
  have signalled := good.posted _ here
  simp only at counted signalled
  rw [counted, signalled]
  rfl

/-- A run with the semaphore it is meant to have is good. -/
theorem eventGood_of_expected {s : EventRun} (here : s.sem = some s.expected) : EventGood s := by
  refine ⟨fun sem same => ?_, fun sem same => ?_, fun gone => ?_⟩
  · cases here.symm.trans same
    rfl
  · cases here.symm.trans same
    rfl
  · rw [gone] at here
    cases here

/-- Creating a semaphore is right exactly when its memory counts no waiter. -/
theorem eventStep_create {s : EventRun} {host : EventSemHost} {named : Bool} {state : Nat}
    (none_yet : s.sem = none) (alone : s.blocked = []) (good : EventGood s) :
    (∃ t answer, eventStep s (.create host named state) = some (t, answer) ∧
        EventDone s (.create host named state) t answer ∧ EventGood t) ↔
      EventSound s (.create host named state) := by
  simp only [eventStep, none_yet, EventDone, EventSound]
  cases created : DosCreateEventSem host named state with
  | error ret =>
    -- Creation failed, so the memory does not matter.
    constructor
    · rintro _ unnamed mutex condition sem malloced
      simp only [DosCreateEventSem, unnamed, Option.mem_def.mp malloced, mutex, condition] at created
      cases created
    · intro _
      refine ⟨_, _, rfl, ?_, good⟩
      have failed : ret = .errorNotEnoughMemory := by
        unfold DosCreateEventSem at created
        split at created
        · cases created; rfl
        · split at created
          · cases created; rfl
          · split at created
            · cases created; rfl
            · split at created
              · cases created; rfl
              · cases created
      simp [failed, none_yet]
  | ok sem =>
    -- The new semaphore has the memory it was given, and is posted as asked for.
    obtain ⟨memory, unnamed, malloced, mutex, condition, same⟩ :
        ∃ memory, named = false ∧ host.malloced = some memory ∧ host.mutex = true ∧
          host.condition = true ∧ sem = { memory with posted := if state ≠ 0 then 1 else 0 } := by
      unfold DosCreateEventSem at created
      split at created
      · cases created
      · rename_i unnamed
        split at created
        · cases created
        · rename_i memory malloced
          split at created
          · cases created
          · rename_i mutex
            split at created
            · cases created
            · rename_i condition
              cases created
              exact ⟨memory, by simpa using unnamed, malloced, by simpa using mutex,
                by simpa using condition, rfl⟩
    constructor
    · rintro ⟨t, answer, stepped, _, good'⟩ _ _ _ other other_malloced
      cases stepped
      cases malloced.symm.trans other_malloced
      have counted := good'.counted sem rfl
      simpa [same, alone] using counted
    · intro sound
      have zero := sound unnamed mutex condition memory malloced
      refine ⟨_, _, rfl, by simp, ⟨?_, ?_, ?_⟩⟩
      · intro other here
        cases here
        simp [same, zero, alone]
      · intro other here
        cases here
        by_cases posted : state = 0 <;> simp [same, posted]
      · intro gone
        cases gone

/-- Posting leaves the semaphore posted, and says whether it was before. -/
theorem DosPostEventSem_expected (s : EventRun) :
    DosPostEventSem s.expected =
      ({ s.expected with posted := 1 },
        if s.signalled then .errorAlreadyPosted else .noError) := by
  cases signalled : s.signalled <;> simp [DosPostEventSem, EventRun.expected, signalled]

/-- Resetting leaves the semaphore not posted, and says whether it was before. -/
theorem DosResetEventSem_expected (s : EventRun) :
    DosResetEventSem s.expected =
      ({ s.expected with posted := 0 }, if s.signalled then .noError else .errorAlreadyReset,
        if s.signalled then 1 else 0) := by
  cases signalled : s.signalled <;> simp [DosResetEventSem, EventRun.expected, signalled]

/-- Beginning a wait returns at once when the semaphore is posted, and blocks otherwise. -/
theorem beginEventWait_expected (s : EventRun) :
    beginEventWait s.expected =
      if s.signalled then (s.expected, some .noError)
      else ({ s.expected with waiting := s.blocked.length + 1 }, none) := by
  cases signalled : s.signalled <;>
    simp [beginEventWait, leaveEventSem, EventRun.expected, signalled]

/-- A wait goes on unless the semaphore is posted or the time is over. -/
theorem wakeEventWait_expected (s : EventRun) (timedOut : Bool) :
    wakeEventWait timedOut s.expected =
      if s.signalled then
        ({ s.expected with waiting := s.blocked.length - 1 }, some .noError)
      else if timedOut then
        ({ s.expected with waiting := s.blocked.length - 1 }, some .errorTimeout)
      else (s.expected, none) := by
  cases signalled : s.signalled <;> cases timedOut <;>
    simp [wakeEventWait, leaveEventSem, EventRun.expected, signalled]

/-- A thread that leaves a wait makes the count one smaller. -/
theorem length_erase_blocked {s : EventRun} {waiter : Nat × Bool} (blocked : waiter ∈ s.blocked) :
    ((s.blocked.erase waiter).length : Int) = s.blocked.length - 1 := by
  have some_blocked : 0 < s.blocked.length := List.length_pos_of_mem blocked
  rw [List.length_erase_of_mem blocked]
  omega

/-- Every step on a semaphore but destroying it is right. -/
theorem EventRun.step_right {s : EventRun} {step : EventSemStep}
    (here : s.sem = some s.expected) (may : EventMay s step)
    (no_destroy : ∀ thread, step ≠ .destroy thread) :
    ∃ t answer, s.step s.expected step = some (t, answer) ∧ EventDone s step t answer ∧
      EventGood t := by
  cases step with
  | create host named state =>
    rw [may.1] at here
    cases here
  | post =>
    -- The semaphore is posted now, whether or not it was before.
    simp only [EventRun.step, DosPostEventSem_expected]
    refine ⟨_, _, rfl, ?_, eventGood_of_expected ?_⟩
    · cases signalled : s.signalled <;> simp [EventDone, signalled]
    · simp [EventRun.expected]
  | reset =>
    -- The semaphore is not posted now, whether or not it was before.
    simp only [EventRun.step, DosResetEventSem_expected]
    refine ⟨_, _, rfl, ?_, eventGood_of_expected ?_⟩
    · simp [EventDone]
    · simp [EventRun.expected]
  | query => exact ⟨s, _, rfl, ⟨rfl, rfl⟩, eventGood_of_expected here⟩
  | poll =>
    refine ⟨s, _, rfl, ⟨rfl, ?_⟩, eventGood_of_expected here⟩
    cases signalled : s.signalled <;> simp [pollEventSem, EventRun.expected, signalled]
  | enter thread timed =>
    simp only [EventRun.step, beginEventWait_expected]
    cases signalled : s.signalled with
    | true =>
      -- The thread returns without blocking.
      refine ⟨_, _, rfl, by simp [EventDone, signalled], eventGood_of_expected ?_⟩
      simp [EventRun.expected, signalled]
    | false =>
      -- One more thread is blocked.
      refine ⟨_, _, rfl, by simp [EventDone], eventGood_of_expected ?_⟩
      simp [EventRun.expected, signalled]
  | wake thread timed timedOut =>
    have erased := length_erase_blocked may.1
    simp only [EventRun.step, wakeEventWait_expected]
    cases signalled : s.signalled with
    | true =>
      -- The thread leaves with success.
      refine ⟨_, _, rfl, by simp [EventDone, signalled], eventGood_of_expected ?_⟩
      simp [EventRun.expected, signalled, erased]
    | false =>
      cases timedOut with
      | true =>
        -- The thread leaves because its time is over.
        refine ⟨_, _, rfl, by simp [EventDone], eventGood_of_expected ?_⟩
        simp [EventRun.expected, signalled, erased]
      | false =>
        -- The wakeup was for no reason.
        refine ⟨_, _, rfl, by simp [EventDone], eventGood_of_expected ?_⟩
        simp [EventRun.expected, signalled]
  | close thread =>
    cases blocked : s.blocked with
    | nil =>
      refine ⟨_, _, rfl, by simp [EventDone, closeEventSem, EventRun.expected, blocked],
        eventGood_of_expected ?_⟩
      simpa [closeEventSem, EventRun.expected, blocked] using here
    | cons waiter rest =>
      have counted : (0 : Int) < rest.length + 1 := by omega
      refine ⟨_, _, rfl, by simp [EventDone, closeEventSem, EventRun.expected, blocked, counted],
        eventGood_of_expected ?_⟩
      simpa [closeEventSem, EventRun.expected, blocked] using here
  | destroy thread => exact absurd rfl (no_destroy thread)

/-- One step is right exactly when it is sound. -/
theorem eventStep_exact {s : EventRun} {step : EventSemStep} (good : EventGood s)
    (may : EventMay s step) :
    (∃ t answer, eventStep s step = some (t, answer) ∧ EventDone s step t answer ∧ EventGood t) ↔
      EventSound s step := by
  by_cases destroying : ∃ thread, step = .destroy thread
  · obtain ⟨thread, rfl⟩ := destroying
    simp only [EventSound]
    cases here : s.sem with
    | none =>
      -- Another thread has destroyed the semaphore already.
      simp [eventStep, here]
    | some sem =>
      by_cases alone : s.blocked = []
      · simp only [eventStep, here, EventRun.step, alone, if_true]
        refine ⟨fun _ => ⟨by simp, trivial⟩, fun _ => ⟨_, _, rfl, ⟨rfl, rfl⟩, ?_, ?_, ?_⟩⟩
        · intro other same
          cases same
        · intro other same
          cases same
        · exact fun _ => rfl
      · simp [eventStep, here, EventRun.step, alone]
  · have no_destroy : ∀ thread, step ≠ .destroy thread :=
      fun thread same => destroying ⟨thread, same⟩
    by_cases creating : ∃ host named state, step = .create host named state
    · obtain ⟨host, named, state, rfl⟩ := creating
      exact eventStep_create may.1 may.2.1 good
    · -- Every other step is taken on a semaphore that is there.
      have alive : s.sem ≠ none := by
        intro gone
        cases step with
        | create host named state => exact creating ⟨host, named, state, rfl⟩
        | post => exact may gone
        | reset => exact may gone
        | query => exact may gone
        | poll => exact may gone
        | enter thread timed => exact may.1 gone
        | wake thread timed timedOut =>
          have blocked := may.1
          rw [good.gone gone] at blocked
          cases blocked
        | close thread => exact may.1 gone
        | destroy thread => exact no_destroy thread rfl
      have sound : EventSound s step := by
        cases step with
        | create host named state => exact absurd ⟨host, named, state, rfl⟩ creating
        | destroy thread => exact absurd rfl (no_destroy thread)
        | _ => trivial
      obtain ⟨sem, here⟩ := Option.ne_none_iff_exists'.mp alive
      cases good.sem_eq here
      refine ⟨fun _ => sound, fun _ => ?_⟩
      have right := EventRun.step_right here may no_destroy
      simpa only [eventStep, here] using right

/-- Before a semaphore is created, the run is good. -/
theorem eventGood_start : EventGood {} := by
  refine ⟨fun sem here => ?_, fun sem here => ?_, fun _ => rfl⟩
  · cases here
  · cases here

/--
In every interleaving the waiters are counted right, waits succeed only on a posted semaphore, and a
semaphore is closed unless a thread is blocked, exactly when new memory counts no waiter and nobody
waits or closes while it is being destroyed.
-/
theorem event_semaphore_run_good_iff {steps : List EventSemStep}
    (issued : Runs.Each eventStep EventMay {} steps) :
    Runs.StaysGood eventStep EventGood EventDone {} steps ↔
      Runs.Each eventStep EventSound {} steps :=
  Runs.staysGood_iff_each (fun _ _ => eventStep_exact) eventGood_start issued

instance (s : EventRun) (step : EventSemStep) : Decidable (EventMay s step) := by
  cases step <;> unfold EventMay <;> infer_instance

instance (s : EventRun) (step : EventSemStep) : Decidable (EventSound s step) := by
  cases step <;> unfold EventSound <;> infer_instance

/-- A thread waits for a semaphore in zeroed memory until another one posts it, and closes it. -/
def waitAndClose : List EventSemStep :=
  [.create { malloced := some ⟨0, 0⟩ } false 0, .enter 1 false, .close 2, .post,
    .wake 1 false false, .close 2, .destroy 2]

/-- With zeroed memory the semaphore can be closed when nobody waits any more. -/
theorem event_semaphore_waited_and_closed :
    Runs.StaysGood eventStep EventGood EventDone {} waitAndClose :=
  (event_semaphore_run_good_iff (by decide)).mpr (by decide)

/-- A semaphore in memory that was used before, which nobody waits for. -/
def closeUnwaited : List EventSemStep :=
  [.create { malloced := some ⟨0, 7⟩ } false 0, .close 1]

/-- With memory that was used before, a semaphore nobody waits for is busy. -/
theorem unwaited_semaphore_busy :
    ¬ Runs.StaysGood eventStep EventGood EventDone {} closeUnwaited ∧
      ∃ s, Runs.runFrom eventStep {} closeUnwaited = some s ∧ s.blocked = [] ∧
        closeEventSem ⟨0, 7⟩ = some .errorSemBusy := by
  refine ⟨?_, _, rfl, rfl, rfl⟩
  intro stays
  have sound := (Runs.staysGood_iff_each (fun _ _ => eventStep_exact) eventGood_start
    (by decide : Runs.Each eventStep EventMay {} closeUnwaited)).mp stays
  revert sound
  decide

end TwoIne
