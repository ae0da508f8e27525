import TwoIne.Lib.Cells
import TwoIne.Os2Errors

/-! Threads that end, and the calls that wait for them. -/

namespace TwoIne

open Cells

/-- The links of a thread in the list of dead threads. -/
structure Thread where
  prev : Option Nat := none
  next : Option Nat := none
  deriving DecidableEq, Repr

/-- The threads in memory, and the head of the list of dead threads. -/
structure DosThreads where
  threads : Heap Thread := []
  deadThreads : Option Nat := none
  deriving DecidableEq, Repr

/-- Waiting until the thread ends. -/
def dcwwWait : Nat := 0

/-- Only asking whether the thread has ended. -/
def dcwwNowait : Nat := 1

/--
Creating a thread, which is zeroed memory until the host thread runs.

`malloced` says whether there was memory for it, and `spawned` whether the host started it.
-/
def DosCreateThread (malloced spawned : Bool) (s : DosThreads) : DosThreads × Except ApiRet Nat :=
  if malloced = false then (s, .error .errorNotEnoughMemory)
  else
    let thread := fresh s.threads
    let s := { s with threads := alloc s.threads {} }
    if spawned = false then
      ({ s with threads := free s.threads thread }, .error .errorMaxThrdsReached)
    else (s, .ok thread)

/--
The handler a thread runs when it ends, under the mutex: it puts itself in front of the dead
threads.
-/
def os2ThreadCleanup (thread : Nat) (s : DosThreads) : Option DosThreads :=
  match read s.threads thread with
  | none => none
  | some _ =>
    some {
      threads := write s.threads thread { prev := none, next := s.deadThreads }
      deadThreads := some thread }

/-- Making the predecessor, or the head of the list, point at a thread. -/
def linkForth (prev next : Option Nat) (s : DosThreads) : Option DosThreads :=
  match prev with
  | none => some { s with deadThreads := next }
  | some prev =>
    match read s.threads prev with
    | none => none
    | some before => some { s with threads := write s.threads prev { before with next := next } }

/-- Making the successor, if there is one, point back at a thread. -/
def linkBack (next prev : Option Nat) (s : DosThreads) : Option DosThreads :=
  match next with
  | none => some s
  | some next =>
    match read s.threads next with
    | none => none
    | some behind => some { s with threads := write s.threads next { behind with prev := prev } }

/-- What a wait for any thread does under the mutex: it takes the first dead thread off the list. -/
def popDeadThread (s : DosThreads) : Option (DosThreads × Option Nat) :=
  match s.deadThreads with
  | none => some (s, none)
  | some thread =>
    match read s.threads thread with
    | none => none
    | some cell =>
      match linkBack cell.next none { s with deadThreads := cell.next } with
      | none => none
      | some s =>
        -- assert(!thread->prev)
        if (read s.threads thread).map Thread.prev ≠ some none then none else some (s, some thread)

/--
What a wait for one thread does under the mutex once the host thread was joined: it unlinks it.
-/
def unlinkDeadThread (thread : Nat) (s : DosThreads) : Option DosThreads :=
  match read s.threads thread with
  | none => none
  | some cell =>
    match linkForth cell.prev cell.next s with
    | none => none
    | some s => linkBack cell.next cell.prev s

/-- Freeing the memory of a thread. -/
def freeThread (thread : Nat) (s : DosThreads) : DosThreads :=
  { s with threads := free s.threads thread }

/-- What joining the host thread comes to: it was joined, it still runs, or the host refuses. -/
inductive JoinResult where
  | joined
  | busy
  | refused
  deriving DecidableEq, Repr

/-- What a part of a call answers: a return code, a thread, or that the call still waits. -/
inductive ThreadAnswer where
  | ret (code : ApiRet)
  | created (thread : Nat)
  | ended (thread : Nat)
  | waiting
  | joined (thread : Nat)
  | reaped (thread : Nat)
  deriving DecidableEq, Repr

/--
One part of a call that no other thread interferes with.

A wait for one thread joins the host thread first and unlinks it later, and in between other threads
end and other calls wait. A wait for any thread joins and frees the thread it took off the list.
-/
inductive ThreadCall where
  | create (malloced spawned : Bool)
  | exit (thread : Nat)
  | waitAny (option : Nat)
  | join (thread option : Nat) (rc : JoinResult)
  | unlink (thread : Nat)
  deriving DecidableEq, Repr

/--
The threads of a process next to what is known about them.

A thread runs until its handler ran, is joined between the two parts of a wait for it, and counts as
unreaped from its handler on until a wait has taken it off the list.
-/
structure ThreadBooks where
  proc : DosThreads := {}
  running : List Nat := []
  joined : List Nat := []
  unreaped : List Nat := []
  deriving DecidableEq, Repr

/-- Whether an option says how to wait. -/
def validWait (option : Nat) : Bool := option = dcwwWait || option = dcwwNowait

/-- What a wait answers while there is nothing to reap: an error, or it goes on waiting. -/
def notTerminated (option : Nat) : ThreadAnswer :=
  if option = dcwwNowait then .ret .errorThreadNotTerminated else .waiting

/--
One part of a call; using a freed thread, joining a thread twice and a failed assertion are faults.
-/
def threadStep (b : ThreadBooks) : ThreadCall → Option (ThreadBooks × ThreadAnswer)
  | .create malloced spawned =>
    match DosCreateThread malloced spawned b.proc with
    | (proc, .error code) => some ({ b with proc := proc }, .ret code)
    | (proc, .ok thread) => some ({ b with proc := proc, running := thread :: b.running },
      .created thread)
  | .exit thread =>
    match os2ThreadCleanup thread b.proc with
    | none => none
    | some proc =>
      some ({ b with
        proc := proc
        running := b.running.erase thread
        unreaped := thread :: b.unreaped }, .ended thread)
  | .waitAny option =>
    if validWait option = false then some (b, .ret .errorInvalidParameter)
    else
      match popDeadThread b.proc with
      | none => none
      | some (_, none) => some (b, notTerminated option)
      | some (proc, some thread) =>
        if thread ∈ b.joined then none
        else some ({ b with
          proc := freeThread thread proc
          unreaped := b.unreaped.erase thread }, .reaped thread)
  | .join thread option rc =>
    if validWait option = false then some (b, .ret .errorInvalidParameter)
    else
      match read b.proc.threads thread with
      | none => none
      | some _ =>
        match rc with
        | .busy => some (b, notTerminated option)
        | .refused => some (b, .ret .errorInvalidThreadid)
        | .joined =>
          if thread ∈ b.joined then none
          else some ({ b with joined := thread :: b.joined }, .joined thread)
  | .unlink thread =>
    match unlinkDeadThread thread b.proc with
    | none => none
    | some proc =>
      some ({ b with
        proc := freeThread thread proc
        joined := b.joined.erase thread
        unreaped := b.unreaped.erase thread }, .reaped thread)

end TwoIne
