import TwoIne.PmWin.PostMsg
import TwoIne.Proofs.PmWin.MessageQueue

/-!
A post reports what happened exactly if it is refused before the queue is asked: the answer of the
queue is read the wrong way around.
-/

namespace TwoIne

open Cells Chains HeapLists
open MessageQueueItem renaming next → nextItem, qmsg → message

/-- The messages that the head of a queue leads to. -/
def Queued (q : MessageQueue) (msgs : List Qmsg) : Prop :=
  ∃ nodes, Chain (linkOf nextItem q.items) q.head nodes ∧ valuesAt message q.items nodes = msgs

/-- A message was appended between two states of a queue. -/
def Appended (q q' : MessageQueue) (qmsg : Qmsg) : Prop :=
  ∃ msgs, Queued q msgs ∧ Queued q' (msgs ++ [qmsg])

/-- What a post has to report. -/
structure PostRight (qmsg : Qmsg) (anchor : Option AnchorBlock) (out : Posted) : Prop where
  answer : out.ret = true ↔ ∃ before after, anchor = some before ∧ out.anchor = some after ∧
    Appended before.messageQueue after.messageQueue qmsg
  recorded : out.recorded.isSome ↔ out.ret = false ∧ anchor.isSome
  lastError : out.anchor.map AnchorBlock.lastError =
    anchor.map fun before => out.recorded.getD before.lastError
  unchanged : out.ret = false →
    out.anchor.map AnchorBlock.messageQueue = anchor.map AnchorBlock.messageQueue

/-- A post is refused by an anchor block without a queue, or without the window. -/
def PostRefused (windows : WindowBlock) (hwnd : Nat) (anchor : Option AnchorBlock) : Prop :=
  ∀ before, anchor = some before →
    before.messageQueue.hmq = nullHandle ∨ getWindowFromHWND windows hwnd = none

section Posting

variable {q q' : MessageQueue} {qmsg : Qmsg}

/-- A queue leads to one list of messages. -/
theorem Queued.unique {msgs others : List Qmsg} (left : Queued q msgs) (right : Queued q others) :
    msgs = others := by
  obtain ⟨nodes, along, held⟩ := left
  obtain ⟨nodes', along', held'⟩ := right
  rw [← held, ← held', Chain.unique along along']

/-- Nothing is appended to a queue that stays as it is. -/
theorem not_appended_same (q : MessageQueue) (qmsg : Qmsg) : ¬ Appended q q qmsg := by
  intro appended
  obtain ⟨msgs, before, after⟩ := appended
  have length := congrArg List.length (before.unique after)
  rw [List.length_append, List.length_singleton] at length
  omega

/-- Hanging an item behind the tail leaves the pool and the size of the memory. -/
theorem appendItem_pool {item : Nat} (appended : appendItem item q = some q') :
    q'.freePool = q.freePool ∧ q'.items.length = q.items.length := by
  unfold appendItem at appended
  split at appended
  · cases appended
  · split at appended
    · split at appended
      · cases appended
      · cases appended
        exact ⟨rfl, List.length_set⟩
    · cases appended
      exact ⟨rfl, rfl⟩

/-- A post that succeeds takes an item off the pool, or new memory; one that fails does nothing. -/
theorem postMessage_changes {pool : List Nat} (malloc : Option MessageQueueItem)
    (spare : Chain (linkOf nextItem q.items) q.freePool pool) {appended : Bool}
    (posted : postMessage malloc qmsg q = some (q', appended)) :
    if appended then q' ≠ q else q' = q := by
  unfold postMessage at posted
  split at posted
  · cases posted
  · cases posted
    rfl
  · next taken item took =>
    split at posted
    · cases posted
    · next hung linked =>
      cases posted
      obtain ⟨same_pool, same_length⟩ := appendItem_pool linked
      rw [if_pos rfl]
      intro same
      unfold takeItem at took
      split at took
      · next first start =>
        split at took
        · cases took
        · next cell found =>
          -- The pool would be the chain of its own rest.
          cases took
          rw [same, start] at same_pool
          have loop : some item = cell.next := same_pool
          rw [start] at spare
          have whole := spare
          cases pool with
          | nil => cases spare
          | cons head rest =>
            obtain ⟨here, r, link, along⟩ := spare
            cases here
            obtain ⟨other, again, next⟩ := linkOf_eq_some.mp link
            cases found.symm.trans again
            rw [← next, ← loop] at along
            have shorter := Chain.unique whole along
            simp at shorter
      · split at took
        · cases took
        · next junk =>
          -- The memory has one more item.
          cases took
          rw [same] at same_length
          simp [alloc, write] at same_length

end Posting

/--
For every anchor block whose spare items are a list, and every window and message, a post reports
what happened exactly if it is refused.
-/
theorem post_reports_iff {windows : WindowBlock} {hwnd : Nat} {anchor : Option AnchorBlock}
    (spare : ∀ before, anchor = some before → ∃ pool,
      Chain (linkOf nextItem before.messageQueue.items) before.messageQueue.freePool pool)
    (malloc : Option MessageQueueItem) (moment : PostMoment) (msg mp1 mp2 : Nat) :
    (∃ out, winPostMsg malloc moment windows hwnd msg mp1 mp2 anchor = some out ∧
      PostRight (postedMessage moment hwnd msg mp1 mp2) anchor out) ↔
    PostRefused windows hwnd anchor := by
  cases anchor with
  | none =>
    refine iff_of_true ⟨_, rfl, ?_, ?_, rfl, fun _ => rfl⟩ fun before there => by cases there
    · simp
    · simp
  | some before =>
    have refused {err : Nat} : PostRight (postedMessage moment hwnd msg mp1 mp2) (some before)
        (setWinErrorAndReturn before err false) := by
      refine ⟨?_, by simp [setWinErrorAndReturn], rfl, fun _ => rfl⟩
      refine iff_of_false (by simp [setWinErrorAndReturn]) ?_
      intro reported
      obtain ⟨_, after, same, kept, appended⟩ := reported
      cases same
      cases kept
      exact not_appended_same _ _ appended
    unfold winPostMsg
    dsimp only
    by_cases queueless : before.messageQueue.hmq = nullHandle
    · rw [if_pos queueless]
      exact iff_of_true ⟨_, rfl, refused⟩ fun other same => by cases same; exact .inl queueless
    rw [if_neg queueless]
    cases window : getWindowFromHWND windows hwnd with
    | none => exact iff_of_true ⟨_, rfl, refused⟩ fun other same => .inr window
    | some p =>
      refine iff_of_false ?_ ?_
      · intro reports
        obtain ⟨out, posted, right⟩ := reports
        obtain ⟨⟨queue, appended⟩, answer, result⟩ := Option.map_eq_some_iff.mp posted
        obtain ⟨pool, along⟩ := spare before rfl
        have changes := postMessage_changes malloc along answer
        cases appended with
        | true =>
          -- The message is in the queue, and the call says that it failed.
          cases result
          have same := right.unchanged rfl
          exact changes (Option.some.inj same)
        | false =>
          -- There was no memory, and the call says that it succeeded.
          cases result
          obtain ⟨_, after, start, ends, reported⟩ := right.answer.mp rfl
          cases start
          cases ends
          have kept : queue = before.messageQueue := changes
          dsimp only at reported
          rw [kept] at reported
          exact not_appended_same _ _ reported
      · intro refuses
        rcases refuses before rfl with none_there | missing
        · exact queueless none_there
        · rw [window] at missing
          cases missing

/-- An anchor block with a queue that nothing was posted to. -/
def emptyAnchor : AnchorBlock where
  hab := 1
  messageQueue := { hmq := 1 }

/-- A post to a window that is not there is refused, and reported as such. -/
theorem unknown_window_reported :
    (∃ out, winPostMsg none {} (winInitialize 1 [] 640 480) 0 0 0 0 (some emptyAnchor) = some out ∧
      PostRight (postedMessage {} 0 0 0 0) (some emptyAnchor) out) ↔
    PostRefused (winInitialize 1 [] 640 480) 0 (some emptyAnchor) :=
  post_reports_iff (fun _ same => by cases same; exact ⟨[], rfl⟩) none {} 0 0 0

/--
A message that is posted to the desktop is appended to the queue, and the call answers that it failed
and records the answer of the queue as an error.
-/
theorem desktop_post_denied :
    (∃ out after, winPostMsg (some ⟨{}, none⟩) {} (winInitialize 1 [] 640 480) hwndDesktop 7 0 0
        (some emptyAnchor) = some out ∧
      out.ret = false ∧ out.recorded = some 1 ∧ out.anchor = some after ∧
      Appended emptyAnchor.messageQueue after.messageQueue (postedMessage {} hwndDesktop 7 0 0)) ∧
    ¬ ∃ out, winPostMsg (some ⟨{}, none⟩) {} (winInitialize 1 [] 640 480) hwndDesktop 7 0 0
        (some emptyAnchor) = some out ∧
      PostRight (postedMessage {} hwndDesktop 7 0 0) (some emptyAnchor) out := by
  have appended : Appended emptyAnchor.messageQueue
      { hmq := 1, head := some 0, tail := some 0,
        items := [some ⟨postedMessage {} hwndDesktop 7 0 0, none⟩] }
      (postedMessage {} hwndDesktop 7 0 0) :=
    ⟨[], ⟨[], rfl, rfl⟩, [0], ⟨rfl, none, rfl, rfl⟩, rfl⟩
  refine ⟨⟨_, _, rfl, rfl, rfl, rfl, appended⟩, ?_⟩
  intro reports
  obtain ⟨out, posted, right⟩ := reports
  cases posted
  have answered := right.answer.mpr ⟨_, _, rfl, rfl, appended⟩
  cases answered

end TwoIne
