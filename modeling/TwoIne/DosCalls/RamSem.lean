import TwoIne.Os2Errors

/-! The semaphores that are a word of the program's memory. -/

namespace TwoIne

/-- Storing a value in one step, and the word that was there before. -/
def syncLockTestAndSet (value word : BitVec 32) : BitVec 32 × BitVec 32 := (value, word)

/-- Replacing a word in one step if it is the expected one, and whether it was. -/
def syncBoolCompareAndSwap (expected value word : BitVec 32) : BitVec 32 × Bool :=
  if word = expected then (value, true) else (word, false)

/-- Storing zero in one step. -/
def syncLockRelease (_word : BitVec 32) : BitVec 32 := 0

/-- Trying to take the semaphore. -/
def trySpinLock (word : BitVec 32) : BitVec 32 × Bool :=
  let (word, before) := syncLockTestAndSet 1 word
  (word, before = 0)

/--
What a thread does after an attempt: it returns, or sleeps and tries again.

`expired` says whether the clock has reached the end of a wait of `ms` milliseconds.
-/
def afterAttempt (ms : Int) (expired got : Bool) : Option ApiRet :=
  if got then some .noError
  else if ms = 0 then some .errorTimeout
  else if ms < 0 then none
  else if expired then some .errorTimeout else none

/-- One turn of a request for the semaphore. -/
def DosSemRequest (ms : Int) (expired : Bool) (word : BitVec 32) : BitVec 32 × Option ApiRet :=
  let (word, got) := trySpinLock word
  (word, afterAttempt ms expired got)

/-- Releasing the semaphore. -/
def DosSemClear (word : BitVec 32) : BitVec 32 × Option ApiRet :=
  (syncLockRelease word, some .noError)

/-- One turn of waiting until the semaphore is clear. -/
def DosSemWait (ms : Int) (expired : Bool) (word : BitVec 32) : BitVec 32 × Option ApiRet :=
  let (word, got) := syncBoolCompareAndSwap 0 1 word
  (word, afterAttempt ms expired got)

/-- Setting the semaphore. -/
def DosSemSet (word : BitVec 32) : BitVec 32 × Option ApiRet :=
  ((syncBoolCompareAndSwap 1 0 word).1, some .noError)

/-- A call on the semaphore. -/
inductive RamSemCall where
  | request (ms : Int)
  | clear
  | wait (ms : Int)
  | set
  deriving DecidableEq, Repr

/-- One turn of a call. -/
def RamSemCall.turn (expired : Bool) (word : BitVec 32) :
    RamSemCall → BitVec 32 × Option ApiRet
  | .request ms => DosSemRequest ms expired word
  | .clear => DosSemClear word
  | .wait ms => DosSemWait ms expired word
  | .set => DosSemSet word

end TwoIne
