import TwoIne.DosCalls.Threads
import TwoIne.Lib.HeapLists
import TwoIne.Lib.Runs

/-! The list of dead threads stays well formed only while it never holds two threads at once. -/

namespace TwoIne

open Cells Chains HeapLists

/-- The successor of a thread in memory. -/
abbrev threadNext : Heap Thread → Nat → Option (Option Nat) := linkOf Thread.next

/-- The predecessor of a thread in memory. -/
abbrev threadPrev : Heap Thread → Nat → Option (Option Nat) := linkOf Thread.prev

/--
The dead threads form a doubly linked list, and every thread in memory runs or is in the list.
-/
structure ThreadsGood (b : ThreadBooks) : Prop where
  list : Dll (threadNext b.proc.threads) (threadPrev b.proc.threads) b.proc.deadThreads b.unreaped
  live : ∀ t ∈ b.running, (read b.proc.threads t).isSome
  known : ∀ t, (read b.proc.threads t).isSome → t ∈ b.running ∨ t ∈ b.unreaped
  apart : ∀ t ∈ b.running, t ∉ b.unreaped
  once : b.running.Nodup
  waited : ∀ t ∈ b.joined, t ∈ b.unreaped
  waitedOnce : b.joined.Nodup

/--
A thread ends once, is joined only after it ended, and is unlinked by a wait that has joined it.
-/
def ThreadsMay (b : ThreadBooks) : ThreadCall → Prop
  | .exit t => t ∈ b.running
  | .join t _ .joined => t ∉ b.running
  | .unlink t => t ∈ b.joined
  | _ => True

/--
What a part of a call is for: a wait reaps a dead thread if there is one, and only that thread.
-/
def ThreadsDone (b : ThreadBooks) (call : ThreadCall) (u : ThreadBooks)
    (out : ThreadAnswer) : Prop :=
  match out with
  | .reaped t => t ∈ b.unreaped ∧ u.unreaped = b.unreaped.erase t
  | .ended t => u.unreaped = t :: b.unreaped
  | _ => u.unreaped = b.unreaped ∧
      ∀ option, call = .waitAny option → validWait option = true → b.unreaped = []

/--
What keeps the list well formed.

A thread ends only while no dead thread is left, a wait names a thread that was not reaped, and no
two waits join the same thread.
-/
def ThreadsOrderly (b : ThreadBooks) : ThreadCall → Prop
  | .create _ _ => True
  | .exit _ => b.unreaped = []
  | .waitAny option => validWait option = true → ∀ t, b.unreaped.head? = some t → t ∉ b.joined
  | .join t option rc => validWait option = true →
      (t ∈ b.running ∨ t ∈ b.unreaped) ∧ (rc = .joined → t ∉ b.joined)
  | .unlink _ => True

/--
Links after a node was unlinked: its neighbours point past it, and every other thread is as it was.
-/
structure Relinked (threads threads' : Heap Thread) (t : Nat) (prev next : Option Nat) : Prop where
  forth : ∀ b, b ≠ t →
    threadNext threads' b = if prev = some b then some next else threadNext threads b
  backs : ∀ b, b ≠ t →
    threadPrev threads' b = if next = some b then some prev else threadPrev threads b
  live : ∀ b, (read threads' b).isSome = (read threads b).isSome

/-- Changing the successor of a thread redirects that thread alone and leaves every predecessor. -/
theorem write_next {threads : Heap Thread} {a : Nat} {old : Thread}
    (found : read threads a = some old)
    (next : Option Nat) (b : Nat) :
    threadNext (write threads a { old with next := next }) b =
        (if a = b then some next else threadNext threads b) ∧
      threadPrev (write threads a { old with next := next }) b = threadPrev threads b := by
  -- The written thread gets the new successor, and every other cell is as it was.
  rcases eq_or_ne b a with rfl | other
  · simp [linkOf, read_write_self _ found, found]
  · simp [linkOf, read_write_ne _ other, Ne.symm other]

/-- Changing the predecessor of a thread redirects that thread alone and leaves every successor. -/
theorem write_prev {threads : Heap Thread} {a : Nat} {old : Thread}
    (found : read threads a = some old)
    (prev : Option Nat) (b : Nat) :
    threadPrev (write threads a { old with prev := prev }) b =
        (if a = b then some prev else threadPrev threads b) ∧
      threadNext (write threads a { old with prev := prev }) b = threadNext threads b := by
  -- The written thread gets the new predecessor, and every other cell is as it was.
  rcases eq_or_ne b a with rfl | other
  · simp [linkOf, read_write_self _ found, found]
  · simp [linkOf, read_write_ne _ other, Ne.symm other]

/-- A thread of the list is in memory, with the links of its neighbours. -/
theorem ThreadsGood.cell {b : ThreadBooks} (good : ThreadsGood b) {front rest : List Nat} {t : Nat}
    (split : b.unreaped = front ++ t :: rest) :
    read b.proc.threads t = some { prev := front.getLast?, next := rest.head? } := by
  have list := good.list
  rw [split] at list
  -- Both links are those of the position in the list, and the thread has nothing else.
  have next := Chain.next list.forth
  have prev := list.prev
  unfold threadNext linkOf at next
  unfold threadPrev linkOf at prev
  obtain ⟨cell, found, next⟩ := Option.map_eq_some_iff.mp next
  obtain ⟨cell', found', prev⟩ := Option.map_eq_some_iff.mp prev
  cases found.symm.trans found'
  rw [found, ← next, ← prev]

/-- Every thread of the list is in memory. -/
theorem ThreadsGood.found {b : ThreadBooks} (good : ThreadsGood b) {t : Nat}
    (dead : t ∈ b.unreaped) :
    ∃ cell, read b.proc.threads t = some cell := by
  obtain ⟨front, rest, split⟩ := List.append_of_mem dead
  exact ⟨_, good.cell split⟩

/-- Redirecting the predecessor changes its successor, or the head of the list, and nothing else. -/
theorem linkForth_spec {s : DosThreads} {prev : Option Nat} (next : Option Nat)
    (live : ∀ p, prev = some p → (read s.threads p).isSome) :
    ∃ s', linkForth prev next s = some s' ∧
      (∀ x, threadNext s'.threads x = if prev = some x then some next else threadNext s.threads x) ∧
      (∀ x, threadPrev s'.threads x = threadPrev s.threads x) ∧
      (∀ x, (read s'.threads x).isSome = (read s.threads x).isSome) ∧
      s'.deadThreads = if prev = none then next else s.deadThreads := by
  cases prev with
  -- Without a predecessor, the list starts behind the node.
  | none => exact ⟨{ s with deadThreads := next }, rfl, fun x => by simp, fun _ => rfl,
    fun _ => rfl, rfl⟩
  | some p =>
    obtain ⟨cell, found⟩ := Option.isSome_iff_exists.mp (live p rfl)
    refine ⟨{ s with threads := write s.threads p { cell with next := next } },
      by simp only [linkForth, found], fun x => ?_, fun x => (write_next found _ x).2,
      live_write found _, rfl⟩
    rw [(write_next found _ x).1]
    simp only [Option.some.injEq]

/-- Redirecting the successor changes its predecessor, if there is one, and nothing else. -/
theorem linkBack_spec {s : DosThreads} {next : Option Nat} (prev : Option Nat)
    (live : ∀ n, next = some n → (read s.threads n).isSome) :
    ∃ s', linkBack next prev s = some s' ∧
      (∀ x, threadPrev s'.threads x = if next = some x then some prev else threadPrev s.threads x) ∧
      (∀ x, threadNext s'.threads x = threadNext s.threads x) ∧
      (∀ x, (read s'.threads x).isSome = (read s.threads x).isSome) ∧
      s'.deadThreads = s.deadThreads := by
  cases next with
  -- Without a successor, nothing points back.
  | none => exact ⟨s, rfl, fun x => by simp, fun _ => rfl, fun _ => rfl, rfl⟩
  | some n =>
    obtain ⟨cell, found⟩ := Option.isSome_iff_exists.mp (live n rfl)
    refine ⟨{ s with threads := write s.threads n { cell with prev := prev } },
      by simp only [linkBack, found], fun x => ?_, fun x => (write_prev found _ x).2,
      live_write found _, rfl⟩
    rw [(write_prev found _ x).1]
    simp only [Option.some.injEq]

/-- Unlinking a thread of a well-formed list makes its neighbours point past it. -/
theorem unlinkDeadThread_spec {b : ThreadBooks} (good : ThreadsGood b)
    {front rest : List Nat} {t : Nat}
    (split : b.unreaped = front ++ t :: rest) :
    ∃ proc, unlinkDeadThread t b.proc = some proc ∧
      Relinked b.proc.threads proc.threads t front.getLast? rest.head? ∧
      proc.deadThreads = if front.getLast? = none then rest.head? else b.proc.deadThreads := by
  have cell := good.cell split
  -- Both neighbours are threads of the list, so they are in memory.
  have live : ∀ x ∈ b.unreaped, (read b.proc.threads x).isSome := by
    intro x member
    obtain ⟨cell, found⟩ := good.found member
    rw [found]
    rfl
  -- First the predecessor or the head is redirected, then the successor.
  obtain ⟨s, forth, nexts, prevs, kept, start⟩ := @linkForth_spec b.proc front.getLast? rest.head?
    fun p last => live p (by rw [split]; exact List.mem_append_left _ (List.mem_of_getLast? last))
  obtain ⟨s', back, prevs', nexts', kept', start'⟩ := @linkBack_spec s rest.head? front.getLast?
    fun n first => by
      rw [kept n]
      refine live n ?_
      rw [split]
      exact List.mem_append_right _ (List.mem_cons_of_mem _ (List.mem_of_head? first))
  refine ⟨s', by simp only [unlinkDeadThread, cell, forth, back], ⟨fun x _ => ?_, fun x _ => ?_,
    fun x => ?_⟩, start'.trans start⟩
  · rw [nexts' x, nexts x]
  · rw [prevs' x, prevs x]
  · rw [kept' x, kept x]

/-- Popping the first thread of a well-formed list is unlinking it. -/
theorem popDeadThread_spec {b : ThreadBooks} (good : ThreadsGood b) {rest : List Nat} {t : Nat}
    (split : b.unreaped = t :: rest) :
    ∃ proc, popDeadThread b.proc = some (proc, some t) ∧
      Relinked b.proc.threads proc.threads t none rest.head? ∧ proc.deadThreads = rest.head? := by
  have cell := @ThreadsGood.cell b good [] rest t split
  have list := good.list
  rw [split] at list
  have start : b.proc.deadThreads = some t := Chain.head list.forth
  obtain ⟨s, back, prevs, nexts, kept, dead⟩ :=
    @linkBack_spec { b.proc with deadThreads := rest.head? } rest.head? none fun n first => by
      obtain ⟨cell, found⟩ := good.found (show n ∈ b.unreaped by
        rw [split]
        exact List.mem_cons_of_mem _ (List.mem_of_head? first))
      show (read b.proc.threads n).isSome
      rw [found]
      rfl
  refine ⟨s, ?_, ⟨fun x _ => ?_, fun x _ => prevs x, kept⟩, dead⟩
  · -- The first thread has no predecessor, so the assertion holds.
    have distinct := List.nodup_cons.mp (Chain.nodup list.forth)
    have prev : threadPrev s.threads t = some none := by
      rw [prevs t, if_neg fun first => distinct.1 (List.mem_of_head? first)]
      show (read b.proc.threads t).map Thread.prev = _
      rw [cell]
      rfl
    unfold threadPrev linkOf at prev
    simp [popDeadThread, start, cell, back, prev]
  · rw [nexts x, if_neg (by simp)]

/-- Freeing an unlinked thread leaves the others in a well-formed list. -/
theorem ThreadsGood.reap {b : ThreadBooks} (good : ThreadsGood b) {front rest joined : List Nat}
    {t : Nat} {proc : DosThreads} (split : b.unreaped = front ++ t :: rest)
    (relinked : Relinked b.proc.threads proc.threads t front.getLast? rest.head?)
    (start : proc.deadThreads = if front.getLast? = none then rest.head? else b.proc.deadThreads)
    (others : ∀ x ∈ joined, x ∈ b.unreaped ∧ x ≠ t) (distinct : joined.Nodup) :
    ThreadsGood { b with
      proc := freeThread t proc, joined := joined, unreaped := b.unreaped.erase t } := by
  have list := good.list
  rw [split] at list
  have nodup : (front ++ t :: rest).Nodup := Chain.nodup list.forth
  -- The thread is listed once, so it is this one that is erased.
  have erased : b.unreaped.erase t = front ++ rest := by
    have absent : t ∉ front := fun member =>
      (List.nodup_append.mp nodup).2.2 t member t List.mem_cons_self rfl
    rw [split, List.erase_append_right _ absent, List.erase_cons_head]
  -- Freeing the thread leaves the links of the others.
  have kept : ∀ x, x ≠ t → read (freeThread t proc).threads x = read proc.threads x :=
    fun x other => read_free_ne other
  have gone : read (freeThread t proc).threads t = none := read_free_self ..
  have members : ∀ x, x ∈ b.unreaped.erase t ↔ x ∈ b.unreaped ∧ x ≠ t := by
    intro x
    rw [List.Nodup.mem_erase_iff (split ▸ nodup)]
    exact And.comm
  exact {
    list := by
      show Dll _ _ proc.deadThreads (b.unreaped.erase t)
      rw [erased]
      refine list.unlink (Chain.next list.forth) list.prev start
        (fun x other => ?_) fun x other => ?_
      · rw [← relinked.forth x other, threadNext, linkOf, kept x other]
        rfl
      · rw [← relinked.backs x other, threadPrev, linkOf, kept x other]
        rfl
    live := fun x member => by
      have other : x ≠ t := fun same =>
        good.apart x member (by rw [split, same]; exact List.mem_append_right _ List.mem_cons_self)
      rw [kept x other, relinked.live x]
      exact good.live x member
    known := fun x live => by
      have other : x ≠ t := by
        intro same
        rw [same, gone] at live
        cases live
      rw [kept x other, relinked.live x] at live
      rcases good.known x live with running | dead
      · exact .inl running
      · exact .inr ((members x).mpr ⟨dead, other⟩)
    apart := fun x member dead => good.apart x member ((members x).mp dead).1
    once := good.once
    waited := fun x member => (members x).mpr (others x member)
    waitedOnce := distinct }

/-- A thread that ends while no dead thread is left makes a list of one. -/
theorem ThreadsGood.exit_first {b : ThreadBooks} (good : ThreadsGood b) {t : Nat}
    (runs : t ∈ b.running) (none_dead : b.unreaped = []) :
    ∃ u, threadStep b (.exit t) = some (u, .ended t) ∧ u.unreaped = [t] ∧ ThreadsGood u := by
  obtain ⟨cell, found⟩ := Option.isSome_iff_exists.mp (good.live t runs)
  have head : b.proc.deadThreads = none := by
    have list := good.list
    rw [none_dead] at list
    exact list.forth
  have none_joined : ∀ x ∈ b.joined, False := by
    intro x member
    have dead := good.waited x member
    rw [none_dead] at dead
    cases dead
  have filled := read_write_self { prev := none, next := none } found
  refine ⟨{ b with
      proc := ⟨write b.proc.threads t { prev := none, next := none }, some t⟩
      running := b.running.erase t
      unreaped := [t] }, ?_, rfl, ?_⟩
  · simp [threadStep, os2ThreadCleanup, found, head, none_dead]
  · exact {
      list := ⟨⟨rfl, none, by simp [linkOf, filled], rfl⟩, by simp [linkOf, filled], trivial⟩
      live := fun x member => by
        rw [live_write found]
        exact good.live x (List.mem_of_mem_erase member)
      known := fun x live => by
        rw [live_write found] at live
        -- The thread that ended moves from the running ones to the list.
        rcases eq_or_ne x t with rfl | other
        · exact .inr (List.mem_singleton_self x)
        · rcases good.known x live with running | dead
          · exact .inl ((List.mem_erase_of_ne other).mpr running)
          · rw [none_dead] at dead
            cases dead
      apart := fun x member dead => by
        have same := List.mem_singleton.mp dead
        rw [same, List.Nodup.mem_erase_iff good.once] at member
        exact member.1 rfl
      once := good.once.erase t
      waited := fun x member => (none_joined x member).elim
      waitedOnce := good.waitedOnce }

/-- A thread that ends in front of another dead thread is not linked back from it. -/
theorem ThreadsGood.exit_later {b u : ThreadBooks} {out : ThreadAnswer}
    (good : ThreadsGood b) {t : Nat}
    (runs : t ∈ b.running) (stepped : threadStep b (.exit t) = some (u, out))
    (good' : ThreadsGood u) :
    b.unreaped = [] := by
  obtain ⟨cell, found⟩ := Option.isSome_iff_exists.mp (good.live t runs)
  simp only [threadStep, os2ThreadCleanup, found, Option.some.injEq, Prod.mk.injEq] at stepped
  obtain ⟨rfl, rfl⟩ := stepped
  cases dead : b.unreaped with
  | nil => rfl
  | cons h rest =>
    -- The old head has no predecessor, before and after.
    have other : h ≠ t := fun same =>
      good.apart t runs (by rw [dead, same]; exact List.mem_cons_self)
    have before := @ThreadsGood.cell b good [] rest h dead
    have after := @ThreadsGood.cell _ good' [t] rest h (by rw [dead]; rfl)
    simp only at after
    rw [read_write_ne _ other, before] at after
    cases after

/-- Memory that keeps the threads it had, and has new ones that run, keeps the list well formed. -/
theorem ThreadsGood.extend {b : ThreadBooks} (good : ThreadsGood b) {threads : Heap Thread}
    {running : List Nat}
    (same : ∀ x, (read b.proc.threads x).isSome → read threads x = read b.proc.threads x)
    (live : ∀ x ∈ running, (read threads x).isSome)
    (known : ∀ x, (read threads x).isSome → x ∈ running ∨ x ∈ b.unreaped)
    (apart : ∀ x ∈ running, x ∉ b.unreaped) (once : running.Nodup) :
    ThreadsGood { b with proc := { b.proc with threads := threads }, running := running } := by
  -- The dead threads are in memory, so their links are as they were.
  have kept : ∀ x ∈ b.unreaped, read threads x = read b.proc.threads x := by
    intro x member
    obtain ⟨cell, found⟩ := good.found member
    exact same x (by rw [found]; rfl)
  exact {
    list := good.list.frame
      (fun x member => by show (read threads x).map _ = _; rw [kept x member]; rfl)
      (fun x member => by show (read threads x).map _ = _; rw [kept x member]; rfl)
    live := live
    known := known
    apart := apart
    once := once
    waited := good.waited
    waitedOnce := good.waitedOnce }

/-- Creating a thread leaves the dead ones in a well-formed list. -/
theorem ThreadsGood.create {b : ThreadBooks} (good : ThreadsGood b) (malloced spawned : Bool) :
    ∃ u out, threadStep b (.create malloced spawned) = some (u, out) ∧
      ThreadsDone b (.create malloced spawned) u out ∧ ThreadsGood u := by
  have idle : ∀ option, ThreadCall.create malloced spawned = .waitAny option →
      validWait option = true → b.unreaped = [] := fun _ other _ => by cases other
  -- The new thread is none of those in memory.
  have new : ∀ x, (read b.proc.threads x).isSome → x ≠ fresh b.proc.threads := by
    intro x live same
    rw [same, read_fresh] at live
    cases live
  have new_dead : fresh b.proc.threads ∉ b.unreaped := by
    intro member
    obtain ⟨cell, found⟩ := good.found member
    exact new _ (by rw [found]; rfl) rfl
  cases malloced with
  -- There is no memory for the thread, so nothing happens.
  | false => exact ⟨b, .ret .errorNotEnoughMemory, rfl, ⟨rfl, idle⟩, good⟩
  | true =>
    cases spawned with
    | false =>
      -- What was allocated is freed again.
      have same : ∀ x, read (free (alloc b.proc.threads ({} : Thread)) (fresh b.proc.threads)) x =
          read b.proc.threads x := by
        intro x
        rcases eq_or_ne x (fresh b.proc.threads) with rfl | other
        · rw [read_free_self, read_fresh]
        · rw [read_free_ne other, read_alloc_ne _ other]
      refine ⟨_, .ret .errorMaxThrdsReached, rfl, ⟨rfl, idle⟩, good.extend (fun x _ => same x) ?_ ?_
        good.apart good.once⟩
      · intro x member
        rw [same x]
        exact good.live x member
      · -- What is in memory was there before, or is the new thread.
        intro x live
        rw [same x] at live
        exact good.known x live
    | true =>
      -- The new thread runs, and is in no list.
      refine ⟨_, .created (fresh b.proc.threads), rfl, ⟨rfl, idle⟩,
        good.extend (fun x live => read_alloc_ne _ (new x live)) ?_ ?_ ?_ ?_⟩
      · intro x member
        rcases List.mem_cons.mp member with rfl | member
        · rw [read_alloc_fresh]
          rfl
        · rw [read_alloc_ne _ (new x (good.live x member))]
          exact good.live x member
      · intro x live
        rcases eq_or_ne x (fresh b.proc.threads) with rfl | other
        · exact .inl List.mem_cons_self
        · rw [read_alloc_ne _ other] at live
          exact (good.known x live).imp_left (List.mem_cons_of_mem _)
      · intro x member
        rcases List.mem_cons.mp member with rfl | member
        · exact new_dead
        · exact good.apart x member
      · exact List.nodup_cons.mpr ⟨fun member => new _ (good.live _ member) rfl, good.once⟩

/-- A wait for any thread reaps the first dead one, unless another wait has joined it already. -/
theorem ThreadsGood.waitAny {b : ThreadBooks} (good : ThreadsGood b) (option : Nat) :
    (∃ u out, threadStep b (.waitAny option) = some (u, out) ∧
      ThreadsDone b (.waitAny option) u out ∧ ThreadsGood u) ↔
        ThreadsOrderly b (.waitAny option) := by
  cases valid : validWait option with
  | false =>
    -- An unknown option is refused before anything is looked at.
    refine ⟨fun _ again => absurd (valid.symm.trans again) Bool.false_ne_true, fun _ => ?_⟩
    refine ⟨b, .ret .errorInvalidParameter, by simp [threadStep, valid], ⟨rfl, ?_⟩, good⟩
    intro other same again
    cases same
    exact absurd (valid.symm.trans again) Bool.false_ne_true
  | true =>
    cases dead : b.unreaped with
    | nil =>
      -- With nothing to reap, the wait goes on or gives up.
      have list := good.list
      rw [dead] at list
      have head : b.proc.deadThreads = none := list.forth
      have answer : ∃ code, notTerminated option = .ret code ∨ notTerminated option = .waiting := by
        unfold notTerminated
        split
        · exact ⟨_, .inl rfl⟩
        · exact ⟨.noError, .inr rfl⟩
      refine ⟨fun _ _ t first => absurd first (by simp [dead]), fun _ => ?_⟩
      refine ⟨b, notTerminated option, by simp [threadStep, valid, popDeadThread, head], ?_, good⟩
      obtain ⟨code, same | same⟩ := answer
      · rw [same]
        exact ⟨rfl, fun _ _ _ => dead⟩
      · rw [same]
        exact ⟨rfl, fun _ _ _ => dead⟩
    | cons t rest =>
      -- The first of the dead threads is taken off the list and joined.
      obtain ⟨proc, popped, relinked, start⟩ := popDeadThread_spec good dead
      have orderly : ThreadsOrderly b (.waitAny option) ↔ t ∉ b.joined := by
        simp [ThreadsOrderly, valid, dead]
      rw [orderly]
      constructor
      · -- The join is refused when another wait has joined the thread.
        intro steps member
        obtain ⟨u, out, stepped, _⟩ := steps
        simp [threadStep, valid, popped, member] at stepped
      · -- The first one is off the list and freed, and the others stay as they were.
        intro free
        refine ⟨_, .reaped t, by
          simp only [threadStep, valid, popped, if_neg free, reduceCtorEq]
          rfl,
          ⟨by rw [dead]; exact List.mem_cons_self, rfl⟩, ?_⟩
        exact @ThreadsGood.reap b good [] rest b.joined t proc dead relinked (by simpa using start)
          (fun x member => ⟨good.waited x member, fun same => free (same ▸ member)⟩) good.waitedOnce

/-- A wait for one thread joins a thread that was not reaped, and that no other wait has joined. -/
theorem ThreadsGood.join {b : ThreadBooks} (good : ThreadsGood b) (t option : Nat) (rc : JoinResult)
    (may : ThreadsMay b (.join t option rc)) :
    (∃ u out, threadStep b (.join t option rc) = some (u, out) ∧
      ThreadsDone b (.join t option rc) u out ∧ ThreadsGood u) ↔
        ThreadsOrderly b (.join t option rc) := by
  have idle : ∀ other, ThreadCall.join t option rc = .waitAny other → validWait other = true →
      b.unreaped = [] := fun _ other _ => by cases other
  cases valid : validWait option with
  | false =>
    -- An unknown option is refused before the thread is looked at.
    refine ⟨fun _ again => absurd (valid.symm.trans again) Bool.false_ne_true, fun _ => ?_⟩
    exact ⟨b, .ret .errorInvalidParameter, by simp [threadStep, valid], ⟨rfl, idle⟩, good⟩
  | true =>
    cases found : read b.proc.threads t with
    | none =>
      -- The thread was freed, or never was one.
      constructor
      · intro ⟨u, out, stepped, _⟩
        simp [threadStep, valid, found] at stepped
      · intro orderly
        rcases (orderly valid).1 with running | dead
        · have live := good.live t running
          rw [found] at live
          cases live
        · obtain ⟨cell, found'⟩ := good.found dead
          rw [found] at found'
          cases found'
    | some cell =>
      -- The thread is in memory, so it runs or was not reaped, and the join decides.
      have member := good.known t (by rw [found]; rfl)
      have same : threadStep b (.join t option rc) = match rc with
          | .busy => some (b, notTerminated option)
          | .refused => some (b, .ret .errorInvalidThreadid)
          | .joined => if t ∈ b.joined then none
            else some ({ b with joined := t :: b.joined }, .joined t) := by
        cases rc <;> simp [threadStep, valid, found]
      rw [same]
      cases rc with
      | busy =>
        refine ⟨fun _ _ => ⟨member, fun joined => by cases joined⟩, fun _ => ?_⟩
        refine ⟨b, notTerminated option, rfl, ?_, good⟩
        unfold notTerminated
        split
        · exact ⟨rfl, idle⟩
        · exact ⟨rfl, idle⟩
      | refused =>
        refine ⟨fun _ _ => ⟨member, fun joined => by cases joined⟩, fun _ => ?_⟩
        exact ⟨b, .ret .errorInvalidThreadid, rfl, ⟨rfl, idle⟩, good⟩
      | joined =>
        -- A thread that was joined has ended.
        have dead : t ∈ b.unreaped := member.resolve_left may
        by_cases again : t ∈ b.joined
        · rw [if_pos again]
          constructor
          · intro ⟨u, out, stepped, _⟩
            cases stepped
          · exact fun orderly => absurd again ((orderly valid).2 rfl)
        · rw [if_neg again]
          refine ⟨fun _ _ => ⟨member, fun _ => again⟩, fun _ =>
            ⟨_, .joined t, rfl, ⟨rfl, idle⟩, ?_⟩⟩
          exact {
            list := good.list
            live := good.live
            known := good.known
            apart := good.apart
            once := good.once
            waited := fun x member => by
              rcases List.mem_cons.mp member with rfl | member
              · exact dead
              · exact good.waited x member
            waitedOnce := List.nodup_cons.mpr ⟨again, good.waitedOnce⟩ }

/-- A wait that has joined its thread unlinks it from wherever it is in the list. -/
theorem ThreadsGood.unlink {b : ThreadBooks} (good : ThreadsGood b) {t : Nat}
    (joined : t ∈ b.joined) :
    ∃ u out, threadStep b (.unlink t) = some (u, out) ∧ ThreadsDone b (.unlink t) u out ∧
      ThreadsGood u := by
  -- A joined thread stays in the list until this wait unlinks it.
  have dead := good.waited t joined
  obtain ⟨front, rest, split⟩ := List.append_of_mem dead
  obtain ⟨proc, unlinked, relinked, start⟩ := unlinkDeadThread_spec good split
  refine ⟨_, .reaped t, by simp only [threadStep, unlinked]; rfl, ⟨dead, rfl⟩, ?_⟩
  refine good.reap split relinked start (fun x member => ?_) (good.waitedOnce.erase t)
  -- The other waits have joined other threads.
  rw [List.Nodup.mem_erase_iff good.waitedOnce] at member
  exact ⟨good.waited x member.2, member.1⟩

/-- One part of a call keeps the list well formed exactly when it is orderly. -/
theorem threadStep_exact {b : ThreadBooks} {call : ThreadCall} (good : ThreadsGood b)
    (may : ThreadsMay b call) :
    (∃ u out, threadStep b call = some (u, out) ∧ ThreadsDone b call u out ∧ ThreadsGood u) ↔
      ThreadsOrderly b call := by
  cases call with
  -- Only the end of a thread and the two waits can go wrong.
  | create malloced spawned => exact ⟨fun _ => trivial, fun _ => good.create malloced spawned⟩
  | exit t =>
    constructor
    · intro ⟨u, out, stepped, _, good'⟩
      exact good.exit_later may stepped good'
    · intro none_dead
      obtain ⟨u, stepped, dead, good'⟩ := good.exit_first may none_dead
      exact ⟨u, .ended t, stepped, by rw [ThreadsDone, dead, none_dead], good'⟩
  | waitAny option => exact good.waitAny option
  | join t option rc => exact good.join t option rc may
  | unlink t => exact ⟨fun _ => trivial, fun _ => good.unlink may⟩

/-- Without threads the list of dead ones is empty. -/
theorem threadsGood_empty : ThreadsGood {} where
  list := Dll.nil
  live := fun _ member => by cases member
  known := fun _ live => by cases live
  apart := fun _ member => by cases member
  once := List.nodup_nil
  waited := fun _ member => by cases member
  waitedOnce := List.nodup_nil

/-- Whether a part of a call may happen can be computed. -/
instance (b : ThreadBooks) (call : ThreadCall) : Decidable (ThreadsMay b call) :=
  match call with
  | .create _ _ => .isTrue trivial
  | .exit t => inferInstanceAs (Decidable (t ∈ b.running))
  | .waitAny _ => .isTrue trivial
  | .join t _ .joined => inferInstanceAs (Decidable (t ∉ b.running))
  | .join _ _ .busy => .isTrue trivial
  | .join _ _ .refused => .isTrue trivial
  | .unlink t => inferInstanceAs (Decidable (t ∈ b.joined))

/-- Whether a part of a call is orderly can be computed. -/
instance (b : ThreadBooks) (call : ThreadCall) : Decidable (ThreadsOrderly b call) :=
  match call with
  | .create _ _ => .isTrue trivial
  | .exit _ => inferInstanceAs (Decidable (b.unreaped = []))
  | .waitAny option => inferInstanceAs (Decidable (validWait option = true →
      ∀ t, b.unreaped.head? = some t → t ∉ b.joined))
  | .join t option rc => inferInstanceAs (Decidable (validWait option = true →
      (t ∈ b.running ∨ t ∈ b.unreaped) ∧ (rc = .joined → t ∉ b.joined)))
  | .unlink _ => .isTrue trivial

/--
A run of threads that end and calls that wait keeps the list of dead threads exactly when it is
orderly.

Keeping it means that the list is linked forth and back, holds exactly the threads that ended and
were not reaped, latest first, and that every wait reaps one of them and drops no other.
-/
theorem dead_threads_run_good_iff {calls : List ThreadCall}
    (issued : Runs.Each threadStep ThreadsMay {} calls) :
    Runs.StaysGood threadStep ThreadsGood ThreadsDone {} calls ↔
      Runs.Each threadStep ThreadsOrderly {} calls :=
  Runs.staysGood_iff_each (fun _ _ => threadStep_exact) threadsGood_empty issued

/-- Two threads, each reaped before the next one ends. -/
def reapedInTurn : List ThreadCall :=
  [.create true true, .create true true, .exit 0, .join 0 0 .joined, .unlink 0, .exit 1, .waitAny 1]

/-- Threads that are reaped before the next one ends leave a well-formed list. -/
theorem reaped_in_turn_good : Runs.StaysGood threadStep ThreadsGood ThreadsDone {} reapedInTurn :=
  (dead_threads_run_good_iff (by decide +kernel)).mpr (by decide +kernel)

/-- Two threads end before the first of them is reaped. -/
def reapedLate : List ThreadCall :=
  [.create true true, .create true true, .exit 0, .exit 1, .join 0 0 .joined, .unlink 0, .waitAny 1]

/-- Reaping the older of two dead threads drops the other one from the list. -/
theorem reaped_late_not_good :
    Runs.Each threadStep ThreadsMay {} reapedLate ∧
      ¬ Runs.StaysGood threadStep ThreadsGood ThreadsDone {} reapedLate := by
  refine ⟨by decide +kernel, fun stays => ?_⟩
  obtain ⟨t, ran⟩ := stays.ran
  have last : (Runs.runFrom threadStep {} reapedLate).map
    (fun b => (b.proc.deadThreads, b.unreaped)) =
      some (none, [1]) := by decide +kernel
  rw [ran, Option.map_some, Option.some.injEq, Prod.mk.injEq] at last
  -- The list is empty although a dead thread was not reaped.
  have head := Chain.head (stays.finish ran).list.forth
  rw [last.1, last.2] at head
  cases head

end TwoIne
