import TwoIne.Os2Errors

/-! Event semaphores; each function here is one stretch of code under the mutex of the semaphore. -/

namespace TwoIne

/-- An event semaphore, without its mutex and its condition variable. -/
structure EventSem where
  posted : Int
  waiting : Int
  deriving DecidableEq, Repr

/-- What creating a semaphore depends on besides its arguments. -/
structure EventSemHost where
  /-- The memory that was allocated, with what it contains. -/
  malloced : Option EventSem
  mutex : Bool := true
  condition : Bool := true
  deriving DecidableEq, Repr

/-- Creating a semaphore; `named` says whether a name was given. -/
def DosCreateEventSem (host : EventSemHost) (named : Bool) (state : Nat) :
    Except ApiRet EventSem :=
  if named then .error .errorNotEnoughMemory
  else
    match host.malloced with
    | none => .error .errorNotEnoughMemory
    | some sem =>
      if host.mutex = false then .error .errorNotEnoughMemory
      else if host.condition = false then .error .errorNotEnoughMemory
      else .ok { sem with posted := if state ≠ 0 then 1 else 0 }

/-- Resetting a semaphore; the answer includes whether it was posted. -/
def DosResetEventSem (sem : EventSem) : EventSem × ApiRet × Int :=
  if sem.posted = 0 then (sem, .errorAlreadyReset, sem.posted)
  else ({ sem with posted := 0 }, .noError, sem.posted)

/-- Posting a semaphore, which wakes the threads that wait for it. -/
def DosPostEventSem (sem : EventSem) : EventSem × ApiRet :=
  if sem.posted ≠ 0 then (sem, .errorAlreadyPosted) else ({ sem with posted := 1 }, .noError)

/-- Asking whether a semaphore is posted. -/
def DosQueryEventSem (sem : EventSem) : ApiRet × Int := (.noError, sem.posted)

/-- Waiting without blocking. -/
def pollEventSem (sem : EventSem) : ApiRet :=
  if sem.posted ≠ 0 then .noError else .errorTimeout

/-- Leaving a wait. -/
def leaveEventSem (sem : EventSem) (ret : ApiRet) : EventSem × Option ApiRet :=
  ({ sem with waiting := sem.waiting - 1 }, some ret)

/-- Beginning a wait; a thread that does not return is blocked. -/
def beginEventWait (sem : EventSem) : EventSem × Option ApiRet :=
  let sem := { sem with waiting := sem.waiting + 1 }
  if sem.posted ≠ 0 then leaveEventSem sem .noError else (sem, none)

/-- Going on after a wakeup, which may come for no reason, or because the time is over. -/
def wakeEventWait (timedOut : Bool) (sem : EventSem) : EventSem × Option ApiRet :=
  if sem.posted ≠ 0 then leaveEventSem sem .noError
  else if timedOut then leaveEventSem sem .errorTimeout
  else (sem, none)

/-- Looking whether a semaphore can be closed; if it can, it is destroyed after that. -/
def closeEventSem (sem : EventSem) : Option ApiRet :=
  if 0 < sem.waiting then some .errorSemBusy else none

end TwoIne
