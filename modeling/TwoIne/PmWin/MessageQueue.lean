import TwoIne.Lib.HeapLists
import TwoIne.Lib.Runs

/-!
The presentation manager message queue: posting, filtered retrieval, and the pool of spare items.
-/

namespace TwoIne

open Cells HeapLists

/-- A message as the window procedures receive it. -/
structure Qmsg where
  hwnd : Nat := 0
  msg : Nat := 0
  mp1 : Nat := 0
  mp2 : Nat := 0
  time : Nat := 0
  ptl : Int × Int := (0, 0)
  reserved : Nat := 0
  deriving DecidableEq, Repr

/-- The message that ends a message loop. -/
def wmQuit : Nat := 0x002a

/-- One node of the queue or of the pool of spare nodes. -/
structure MessageQueueItem where
  qmsg : Qmsg
  next : Option Nat
  deriving DecidableEq, Repr

/-- The queue of an anchor block, together with the memory its nodes live in. -/
structure MessageQueue where
  hmq : Nat := 0
  head : Option Nat := none
  tail : Option Nat := none
  freePool : Option Nat := none
  items : Heap MessageQueueItem := []
  deriving DecidableEq, Repr

/-- The part of an anchor block the message calls use. -/
structure AnchorBlock where
  hab : Nat
  lastError : Nat := 0
  messageQueue : MessageQueue := {}
  deriving DecidableEq, Repr

/-- The error recorded when a call names another anchor block. -/
def pmerrInvalidHab : Nat := 0x104A

/--
The item a post will fill: a spare one, or one from `malloc`.

`malloc` is the contents of the memory the allocator returns, or nothing when it is out of memory.
The outer option is the fault of following a dangling pointer, the inner one a failed allocation.
-/
def takeItem (malloc : Option MessageQueueItem) (q : MessageQueue) :
    Option (Option (MessageQueue × Nat)) :=
  match q.freePool with
  | some item =>
    match read q.items item with
    | none => none
    | some cell => some (some ({ q with freePool := cell.next }, item))
  | none =>
    match malloc with
    | none => some none
    | some junk => some (some ({ q with items := alloc q.items junk }, fresh q.items))

/-- Hanging a filled item behind the tail. -/
def appendItem (item : Nat) (q : MessageQueue) : Option MessageQueue :=
  -- assert(!head == !tail)
  if q.head.isNone ≠ q.tail.isNone then none
  else
    match q.tail with
    | some tail =>
      match read q.items tail with
      | none => none
      | some cell =>
        some { q with
          items := write q.items tail { cell with next := some item }
          tail := some item }
    | none => some { q with head := some item, tail := some item }

/-- Posting a message; the answer is whether it was appended. -/
def postMessage (malloc : Option MessageQueueItem) (qmsg : Qmsg) (q : MessageQueue) :
    Option (MessageQueue × Bool) :=
  match takeItem malloc q with
  | none => none
  | some none => some (q, false)
  | some (some (q, item)) =>
    match appendItem item { q with items := write q.items item ⟨qmsg, none⟩ } with
    | none => none
    | some q => some (q, true)

/-- What a caller of `WinGetMsg` wants to see. -/
structure MsgFilter where
  hwndFilter : Nat := 0
  msgFilterFirst : Nat := 0
  msgFilterLast : Nat := 0
  deriving DecidableEq, Repr

/-- Whether the filter passes over a message. -/
def skipMessage (qmsg : Qmsg) (f : MsgFilter) : Bool :=
  if f.hwndFilter ≠ 0 ∧ qmsg.hwnd ≠ f.hwndFilter then true
  else if f.msgFilterFirst ≠ 0 ∨ f.msgFilterLast ≠ 0 then
    if f.msgFilterFirst > f.msgFilterLast then
      -- An inverted range rejects what lies between its ends.
      decide (qmsg.msg ≥ f.msgFilterLast ∧ qmsg.msg ≤ f.msgFilterFirst)
    else decide (qmsg.msg < f.msgFilterFirst ∨ qmsg.msg > f.msgFilterLast)
  else false

/-- Whether a retrieval looks at the filter at all. -/
def isFiltering (f : MsgFilter) : Bool :=
  f.hwndFilter ≠ 0 || f.msgFilterFirst ≠ 0 || f.msgFilterLast ≠ 0

/-- The search for the first item the filter does not skip, with its predecessor. -/
def findItem (items : Heap MessageQueueItem) (f : MsgFilter) (head : Option Nat) :
    Option (Option Nat × Option Nat) :=
  walkUntil (fun cell => !skipMessage cell.qmsg f) MessageQueueItem.next items
    (items.length + 1) none
    head

/-- Taking the found item out of the queue and putting it into the pool. -/
def removeItem (prev : Option Nat) (i : Nat) (q : MessageQueue) : Option (MessageQueue × Qmsg) :=
  match read q.items i with
  | none => none
  | some cell =>
    let relinked : Option MessageQueue :=
      match prev with
      | some p =>
        match read q.items p with
        | none => none
        | some before => some { q with items := write q.items p { before with next := cell.next } }
      | none => some { q with head := cell.next }
    match relinked with
    | none => none
    | some q =>
      -- The tail is only looked at when the queue ran empty.
      if q.head = none ∧ q.tail ≠ some i then none
      else
        let tail := if q.head = none then none else q.tail
        some ({ q with
            tail := tail
            items := write q.items i { cell with next := q.freePool }
            freePool := some i }, cell.qmsg)

/-- One pass of the retrieval loop: the message it took, if the filter let one through. -/
def getMsgPass (f : MsgFilter) (q : MessageQueue) : Option (MessageQueue × Option Qmsg) :=
  let found :=
    if isFiltering f then findItem q.items f q.head else some (none, q.head)
  match found with
  | none => none
  | some (_, none) => some (q, none)
  | some (prev, some i) =>
    match removeItem prev i q with
    | none => none
    | some (q, qmsg) => some (q, some qmsg)

/-- A message that waits to be posted, with what `malloc` answers if the post has to ask it. -/
abbrev Posting := Qmsg × Option MessageQueueItem

/-- The posts made while the events of the host are pumped. -/
def pumpEvents : List Posting → MessageQueue → Option MessageQueue
  | [], q => some q
  | (qmsg, malloc) :: rest, q =>
    match postMessage malloc qmsg q with
    | none => none
    | some (q, _) => pumpEvents rest q

/--
How a retrieval ends: refused, still waiting for events, or with a message and its return value.
-/
inductive GetMsgResult where
  | refused
  | blocked
  | got (qmsg : Qmsg) (ret : Bool)
  deriving DecidableEq, Repr

/-- The retrieval loop: a pass, and when it finds nothing, another one after pumping events. -/
def getMsgLoop (f : MsgFilter) : List (List Posting) → MessageQueue →
    Option (MessageQueue × GetMsgResult)
  | pumped, q =>
    match getMsgPass f q with
    | none => none
    | some (q, some qmsg) => some (q, .got qmsg (qmsg.msg ≠ wmQuit))
    | some (q, none) =>
      match pumped with
      | [] => some (q, .blocked)
      | batch :: rest =>
        match pumpEvents batch q with
        | none => none
        | some q => getMsgLoop f rest q

/--
Retrieving the first message that passes the filter; each batch is what one wait for events posts.
-/
def winGetMsg (hab : Nat) (f : MsgFilter) (pumped : List (List Posting)) (anchor : AnchorBlock) :
    Option (AnchorBlock × GetMsgResult) :=
  if anchor.hab ≠ hab then some ({ anchor with lastError := pmerrInvalidHab }, .refused)
  else
    match getMsgLoop f pumped anchor.messageQueue with
    | none => none
    | some (q, result) => some ({ anchor with messageQueue := q }, result)

/-- Freeing a list of nodes one after the other; a cycle or a dangling node is a fault. -/
def freeItems : Nat → Option Nat → Heap MessageQueueItem → Option (Heap MessageQueueItem)
  | 0, _, _ => none
  | _ + 1, none, items => some items
  | steps + 1, some i, items =>
    match read items i with
    | none => none
    | some cell => freeItems steps cell.next (free items i)

/-- Destroying the queue frees the queued and the spare nodes and clears the record. -/
def destroyMessageQueue (q : MessageQueue) : Option MessageQueue :=
  match freeItems (q.items.length + 1) q.head q.items with
  | none => none
  | some items =>
    match freeItems (items.length + 1) q.freePool items with
    | none => none
    | some items => some { items := items }

end TwoIne
