import TwoIne.PmWin.MessageQueue

/-!
The linked message queue behaves like a plain list of messages until a retrieval strands its tail.
-/

namespace TwoIne

open Cells Chains HeapLists
open MessageQueueItem renaming next → nextItem, qmsg → message

/-- The nodes a queue record links together, queued and spare. -/
structure QueueShape (q : MessageQueue) (nodes pool : List Nat) : Prop where
  queued : Chain (linkOf nextItem q.items) q.head nodes
  spare : Chain (linkOf nextItem q.items) q.freePool pool
  apart : ∀ i ∈ nodes, i ∉ pool
  tail : q.tail = nodes.getLast?

/-- What the queue is for: messages in the order they were posted, and a number of spare nodes. -/
structure QueueModel where
  msgs : List Qmsg := []
  spare : Nat := 0
  deriving DecidableEq, Repr

/-- A post appends its message, unless there is no spare node and no memory for a new one. -/
def QueueModel.post (malloced : Bool) (qmsg : Qmsg) (m : QueueModel) : QueueModel × Bool :=
  if 0 < m.spare then (⟨m.msgs ++ [qmsg], m.spare - 1⟩, true)
  else if malloced then (⟨m.msgs ++ [qmsg], 0⟩, true)
  else (m, false)

/--
A retrieval takes the first message its filter lets through, and leaves the others in their order.
-/
def QueueModel.take (f : MsgFilter) (m : QueueModel) : Option (QueueModel × Qmsg) :=
  match m.msgs.find? fun qmsg => !skipMessage qmsg f with
  | none => none
  | some qmsg => some (⟨m.msgs.eraseP fun qmsg => !skipMessage qmsg f, m.spare + 1⟩, qmsg)

/-- The record links nodes whose messages are those of the model. -/
def Represents (q : MessageQueue) (m : QueueModel) : Prop :=
  ∃ nodes pool, QueueShape q nodes pool ∧ valuesAt message q.items nodes = m.msgs ∧
    pool.length = m.spare

/-- Changing only the link of an item keeps every message. -/
theorem messagesAt_relink {items : Heap MessageQueueItem} {a : Nat} {cell : MessageQueueItem}
    (live : read items a = some cell) (next : Option Nat) (nodes : List Nat) :
    valuesAt message (write items a { cell with next := next }) nodes =
      valuesAt message items nodes :=
  -- The message of the cell is the one it held before.
  @valuesAt_write _ _ message items a cell { cell with next := next } live rfl nodes

/-- What a post has in hand once it has a node to fill. -/
structure ItemTaken (q q' : MessageQueue) (item : Nat) (nodes pool : List Nat) : Prop where
  shape : QueueShape q' nodes pool
  live : ∃ cell, read q'.items item = some cell
  unqueued : item ∉ nodes
  unpooled : item ∉ pool
  messages : valuesAt message q'.items nodes = valuesAt message q.items nodes

/-- A spare node is taken off the pool. -/
theorem takeItem_spare {q : MessageQueue} {nodes pool : List Nat} {item : Nat}
    (shape : QueueShape q nodes (item :: pool)) (malloc : Option MessageQueueItem) :
    ∃ q', takeItem malloc q = some (some (q', item)) ∧ ItemTaken q q' item nodes pool := by
  -- The pool is a chain, so its first node is live and its rest starts at the next pointer.
  obtain ⟨start, r, linked, rest⟩ := shape.spare
  obtain ⟨cell, found, rfl⟩ := linkOf_eq_some.mp linked
  have distinct := List.nodup_cons.mp shape.spare.nodup
  refine ⟨{ q with freePool := cell.next }, by simp [takeItem, start, found], ?_⟩
  exact {
    shape := ⟨shape.queued, rest, fun i queued pooled =>
      shape.apart i queued (List.mem_cons_of_mem _ pooled), shape.tail⟩
    live := ⟨cell, found⟩
    unqueued := fun queued => shape.apart item queued List.mem_cons_self
    unpooled := distinct.1
    messages := rfl }

/-- With an empty pool, a new node comes from the allocator. -/
theorem takeItem_malloc {q : MessageQueue} {nodes : List Nat} (shape : QueueShape q nodes [])
    (junk : MessageQueueItem) :
    ∃ q' item, takeItem (some junk) q = some (some (q', item)) ∧ ItemTaken q q' item nodes [] := by
  -- An empty pool starts with the null pointer.
  have start : q.freePool = none := shape.spare
  -- The new node is none of the live ones, and allocation leaves those as they were.
  have apart : ∀ i ∈ nodes, i ≠ fresh q.items := by
    intro i queued same
    obtain ⟨r, linked⟩ := Seg.live shape.queued queued
    simp [linkOf, same] at linked
  refine ⟨{ q with items := alloc q.items junk }, fresh q.items, by simp [takeItem, start], ?_⟩
  exact {
    shape := ⟨Seg.frame shape.queued fun i queued => by
        simp [linkOf, read_alloc_ne junk (apart i queued)], start, shape.apart, shape.tail⟩
    live := ⟨junk, by simp⟩
    unqueued := fun queued => apart _ queued rfl
    unpooled := List.not_mem_nil
    messages := valuesAt_congr fun i queued => by rw [read_alloc_ne junk (apart i queued)] }

/-- A filled node ends up at the end of the queue. -/
theorem appendItem_spec {q : MessageQueue} {nodes pool : List Nat} {item : Nat}
    {old : MessageQueueItem} (shape : QueueShape q nodes pool) (live : read q.items item = some old)
    (unqueued : item ∉ nodes) (unpooled : item ∉ pool) (qmsg : Qmsg) :
    ∃ q', appendItem item { q with items := write q.items item ⟨qmsg, none⟩ } = some q' ∧
      QueueShape q' (nodes ++ [item]) pool ∧
      valuesAt message q'.items (nodes ++ [item]) = valuesAt message q.items nodes ++ [qmsg] := by
  -- The node holds the message and ends a list of its own.
  have filled : read (write q.items item ⟨qmsg, none⟩) item = some ⟨qmsg, none⟩ :=
    read_write_self _ live
  have link : ∀ i, linkOf nextItem (write q.items item ⟨qmsg, none⟩) i =
      if i = item then some none else linkOf nextItem q.items i := linkOf_write live ⟨qmsg, none⟩
  -- Filling the node touches neither the queue nor the pool.
  have untouched : ∀ i, i ≠ item →
      linkOf nextItem (write q.items item ⟨qmsg, none⟩) i = linkOf nextItem q.items i :=
    fun i other => by rw [link, if_neg other]
  have pooled : ∀ i ∈ pool, i ≠ item := fun i pooled same => unpooled (same ▸ pooled)
  have queued : ∀ i ∈ nodes, i ≠ item := fun i queued same => unqueued (same ▸ queued)
  have messages : valuesAt message (write q.items item ⟨qmsg, none⟩) nodes =
      valuesAt message q.items nodes :=
    valuesAt_congr fun i member => by rw [read_write_ne _ (queued i member)]
  rcases List.eq_nil_or_concat' nodes with rfl | ⟨front, last, rfl⟩
  · -- An empty queue starts with the new node.
    have head : q.head = none := shape.queued
    have tail : q.tail = none := shape.tail
    refine ⟨{
      q with
      items := write q.items item ⟨qmsg, none⟩
      head := some item
      tail := some item
    },
      by simp [appendItem, head, tail], ⟨?_, ?_, ?_, rfl⟩, ?_⟩
    · -- The queue is the new node alone.
      exact ⟨rfl, none, by show linkOf _ _ item = _; rw [link, if_pos rfl], rfl⟩
    · exact Seg.frame shape.spare fun i member => untouched i (pooled i member)
    · simpa using unpooled
    · simp [valuesAt, filled]
  · -- Otherwise the last node is made to point at it.
    have last_queued : last ∈ front ++ [last] := by simp
    have head : q.head ≠ none := by
      intro empty
      have nodes := Chain.unique (empty ▸ shape.queued)
        (show Chain (linkOf nextItem q.items) none [] from rfl)
      simp at nodes
    have tail : q.tail = some last := by simpa using shape.tail
    obtain ⟨r, linked⟩ := Seg.live shape.queued last_queued
    obtain ⟨cell, found, _⟩ := linkOf_eq_some.mp linked
    have kept : read (write q.items item ⟨qmsg, none⟩) last = some cell := by
      rw [read_write_ne _ (queued last last_queued), found]
    have relink : ∀ i, linkOf nextItem (write (write q.items item ⟨qmsg, none⟩) last
        { cell with next := some item }) i = if i = last then some (some item) else
          linkOf nextItem (write q.items item ⟨qmsg, none⟩) i := linkOf_write kept _
    have distinct := List.nodup_append.mp (Chain.nodup shape.queued)
    have front_ne : ∀ i ∈ front, i ≠ last := fun i member =>
      distinct.2.2 i member last (List.mem_singleton_self last)
    have pool_ne : ∀ i ∈ pool, i ≠ last := fun i member same =>
      shape.apart last last_queued (same ▸ member)
    refine ⟨{ q with
        items := write (write q.items item ⟨qmsg, none⟩) last { cell with next := some item }
        tail := some item }, ?_, ⟨?_, ?_, ?_, by simp⟩, ?_⟩
    · -- The source takes the branch with a tail.
      simp [appendItem, head, tail, kept]
    · -- The new node hangs behind the old last one.
      apply Chain.hang shape.queued
      · intro i member
        show linkOf _ _ i = _
        rw [relink, if_neg (front_ne i member), untouched i (queued i (by simp [member]))]
      · show linkOf _ _ last = _
        rw [relink, if_pos rfl]
      · show linkOf _ _ item = _
        rw [relink, if_neg (Ne.symm (queued last last_queued)), link, if_pos rfl]
    · -- The pool has neither of the two nodes written.
      apply Seg.frame shape.spare
      intro i member
      show linkOf _ _ i = _
      rw [relink, if_neg (pool_ne i member), untouched i (pooled i member)]
    · -- The new node is not in the pool either.
      intro i member pooled
      rcases List.mem_append.mp member with member | member
      · exact shape.apart i member pooled
      · exact unpooled (List.mem_singleton.mp member ▸ pooled)
    · -- Relinking the last node leaves its message.
      show valuesAt message (write _ last _) _ = _
      rw [messagesAt_relink kept, valuesAt_append, messages]
      simp [valuesAt, filled]

/-- Posting does to the queue what it does to the list of messages. -/
theorem postMessage_spec {q : MessageQueue} {m : QueueModel} (rep : Represents q m)
    (malloc : Option MessageQueueItem) (qmsg : Qmsg) :
    ∃ q', postMessage malloc qmsg q = some (q', (m.post malloc.isSome qmsg).2) ∧
      Represents q' (m.post malloc.isSome qmsg).1 := by
  obtain ⟨nodes, pool, shape, held, spares⟩ := rep
  -- The node comes from the pool, from the allocator, or there is none and nothing changes.
  have filled : ∀ {q' item rest}, takeItem malloc q = some (some (q', item)) →
      ItemTaken q q' item nodes rest → ∃ q'', postMessage malloc qmsg q = some (q'', true) ∧
        Represents q'' ⟨m.msgs ++ [qmsg], rest.length⟩ := by
    intro q' item rest took taken
    obtain ⟨cell, live⟩ := taken.live
    obtain ⟨q'', appended, shape', held'⟩ :=
      appendItem_spec taken.shape live taken.unqueued taken.unpooled qmsg
    refine ⟨q'', by simp [postMessage, took, appended], nodes ++ [item], rest, shape', ?_, rfl⟩
    rw [held', taken.messages, held]
  cases pool with
  | cons item rest =>
    -- A spare node is used before the allocator is asked.
    obtain ⟨q', took, taken⟩ := takeItem_spare shape malloc
    have some_spare : 0 < m.spare := by simp [← spares]
    have left : m.spare - 1 = rest.length := by simp [← spares]
    simpa [QueueModel.post, some_spare, left] using filled took taken
  | nil =>
    have no_spare : m.spare = 0 := by simpa using spares.symm
    cases malloc with
    | some junk =>
      -- The allocator has a node.
      obtain ⟨q', item, took, taken⟩ := takeItem_malloc shape junk
      simpa [QueueModel.post, no_spare] using filled took taken
    | none =>
      -- There is no node, so nothing changes.
      have start : q.freePool = none := shape.spare
      refine ⟨q, by simp [postMessage, takeItem, start, QueueModel.post, no_spare], ?_⟩
      simpa [QueueModel.post, no_spare] using ⟨nodes, [], shape, held, spares⟩

/-- The messages a wait for events posts, appended one after the other. -/
def QueueModel.pump : List Posting → QueueModel → QueueModel
  | [], m => m
  | (qmsg, malloc) :: rest, m => pump rest (m.post malloc.isSome qmsg).1

/-- Pumping events is a run of posts. -/
theorem pumpEvents_spec {q : MessageQueue} {m : QueueModel} (rep : Represents q m)
    (batch : List Posting) :
    ∃ q', pumpEvents batch q = some q' ∧ Represents q' (m.pump batch) := by
  -- Each post leaves a represented queue for the next one.
  induction batch generalizing q m with
  | nil => exact ⟨q, rfl, rep⟩
  | cons posting rest ih =>
    obtain ⟨qmsg, malloc⟩ := posting
    obtain ⟨q', posted, rep'⟩ := postMessage_spec rep malloc qmsg
    obtain ⟨q'', pumped, rep''⟩ := ih rep'
    exact ⟨q'', by simp [pumpEvents, posted, pumped], rep''⟩

/-- The search of a retrieval, whether it looks at the filter or not. -/
def searchItem (f : MsgFilter) (q : MessageQueue) : Option (Option Nat × Option Nat) :=
  if isFiltering f then findItem q.items f q.head else some (none, q.head)

/-- A filter with nothing in it skips no message. -/
theorem skipMessage_unfiltered {f : MsgFilter} (unfiltered : isFiltering f = false) (qmsg : Qmsg) :
    skipMessage qmsg f = false := by
  -- None of the three fields of the filter is set.
  simp only [isFiltering, Bool.or_eq_false_iff, decide_eq_false_iff_not, not_not] at unfiltered
  simp [skipMessage, unfiltered]

/-- The walk passes the items whose messages are skipped. -/
theorem skipped_passed {items : Heap MessageQueueItem} {f : MsgFilter} {nodes : List Nat}
    (skipped : ∀ qmsg ∈ valuesAt message items nodes, skipMessage qmsg f = true) :
    ∀ a ∈ nodes, ∀ cell, read items a = some cell → (!skipMessage cell.qmsg f) = false := by
  intro a member cell found
  -- The message of the item is among the values, all of which are skipped.
  rw [skipped cell.qmsg (mem_valuesAt member found)]
  rfl

/-- When every message is skipped the search comes back with nothing. -/
theorem searchItem_none {f : MsgFilter} {q : MessageQueue} {nodes : List Nat}
    (chain : Chain (linkOf nextItem q.items) q.head nodes)
    (skipped : ∀ qmsg ∈ valuesAt message q.items nodes, skipMessage qmsg f = true) :
    ∃ prev, searchItem f q = some (prev, none) := by
  unfold searchItem
  split
  · -- The walk stops at no item, so it comes to the end of the queue.
    exact ⟨nodes.getLast?, walkUntil_end chain (skipped_passed skipped)⟩
  · -- Without a filter nothing is skipped, so the queue is empty.
    rename_i unfiltered
    cases nodes with
    | nil => exact ⟨none, by rw [show q.head = none from chain]⟩
    | cons i rest =>
      obtain ⟨cell, found⟩ := path_live chain List.mem_cons_self
      have passedOver := skipped cell.qmsg (mem_valuesAt List.mem_cons_self found)
      rw [skipMessage_unfiltered (by simpa using unfiltered)] at passedOver
      cases passedOver

/-- The search stops at the first item that is not skipped, and knows its predecessor. -/
theorem searchItem_some {f : MsgFilter} {q : MessageQueue} {before after : List Nat} {i : Nat}
    {cell : MessageQueueItem} (chain : Chain (linkOf nextItem q.items) q.head
    (before ++ i :: after))
    (skipped : ∀ qmsg ∈ valuesAt message q.items before, skipMessage qmsg f = true)
    (found : read q.items i = some cell) (wanted : skipMessage cell.qmsg f = false) :
    searchItem f q = some (before.getLast?, some i) := by
  unfold searchItem
  split
  · -- The walk passes the skipped items and stops at the one behind them.
    exact walkUntil_stop chain (skipped_passed skipped) found (by simp [wanted])
  · -- Without a filter the first item is taken, and no item before it was skipped.
    rename_i unfiltered
    cases before with
    | nil => rw [show q.head = some i from Chain.head chain]; rfl
    | cons j before =>
      obtain ⟨cell', found'⟩ := path_live chain List.mem_cons_self
      have passedOver := skipped cell'.qmsg (mem_valuesAt List.mem_cons_self found')
      rw [skipMessage_unfiltered (by simpa using unfiltered)] at passedOver
      cases passedOver

/-- What a removal leaves behind, with the tail it computes. -/
structure ItemRemoved (q q' : MessageQueue) (before after pool : List Nat) (i : Nat) : Prop where
  queued : Chain (linkOf nextItem q'.items) q'.head (before ++ after)
  spare : Chain (linkOf nextItem q'.items) q'.freePool (i :: pool)
  messages : valuesAt message q'.items (before ++ after) =
    valuesAt message q.items (before ++ after)
  tail : q'.tail = if before ++ after = [] then none else q.tail

/-- Recycling an item changes the link of that item alone. -/
theorem itemLink_recycle {items : Heap MessageQueueItem} {i : Nat} {cell : MessageQueueItem}
    (live : read items i = some cell) (pool : Option Nat) {j : Nat} (other : j ≠ i) :
    linkOf nextItem (write items i { cell with next := pool }) j = linkOf nextItem items j := by
  rw [linkOf_write live, if_neg other]

/-- The first item is unlinked by moving the head on. -/
theorem removeItem_first {q : MessageQueue} {after pool : List Nat} {i : Nat}
    {cell : MessageQueueItem} (shape : QueueShape q (i :: after) pool)
    (found : read q.items i = some cell) :
    ∃ q', removeItem none i q = some (q', cell.qmsg) ∧ ItemRemoved q q' [] after pool i := by
  -- The head moves on to the rest of the chain, which does not have the item in it.
  have distinct := List.nodup_cons.mp (Chain.nodup shape.queued)
  obtain ⟨_, r, linked, rest⟩ := shape.queued
  obtain ⟨cell', found', rfl⟩ := linkOf_eq_some.mp linked
  cases found.symm.trans found'
  refine ⟨{ q with
      head := cell.next
      tail := if cell.next = none then none else q.tail
      items := write q.items i { cell with next := q.freePool }
      freePool := some i }, ?_, ?_, ?_, ?_, ?_⟩
  · -- The assertion on the tail holds, since a queue of one item ends in that item.
    have tail : cell.next = none → q.tail = some i := by
      intro ends
      have nothing := Chain.unique (ends ▸ rest)
        (show Chain (linkOf nextItem q.items) none [] from rfl)
      simpa [nothing] using shape.tail
    simp only [removeItem, found]
    rw [if_neg (by simpa using tail)]
  · -- The rest of the queue is apart from the item that is recycled.
    apply Seg.frame rest
    intro j member
    exact itemLink_recycle found _ fun same => distinct.1 (same ▸ member)
  · -- The recycled item starts the pool.
    apply Chain.push shape.spare
    · intro j member
      exact itemLink_recycle found _ fun same => shape.apart i (by simp) (same ▸ member)
    · show linkOf _ _ i = _
      rw [linkOf_write found, if_pos rfl]
  · exact messagesAt_relink found _ _
  · -- The tail is reset exactly when nothing is behind the item.
    show (if cell.next = none then none else q.tail) = _
    rw [Chain.head rest]
    cases after <;> simp

/-- A later item is unlinked by making its predecessor point past it. -/
theorem removeItem_later {q : MessageQueue} {front after pool : List Nat} {last i : Nat}
    {cell : MessageQueueItem} (shape : QueueShape q (front ++ last :: i :: after) pool)
    (found : read q.items i = some cell) :
    ∃ q', removeItem (some last) i q = some (q', cell.qmsg) ∧
      ItemRemoved q q' (front ++ [last]) after pool i := by
  -- No node is visited twice, so both writes are apart from every other node.
  have distinct : front.Nodup ∧ ((last ≠ i ∧ last ∉ after) ∧ i ∉ after ∧ after.Nodup) ∧
      ∀ j ∈ front, j ≠ last ∧ j ≠ i ∧ ∀ k ∈ after, j ≠ k := by
    simpa [List.nodup_append] using Chain.nodup shape.queued
  obtain ⟨_, ⟨⟨last_ne, last_after⟩, i_after, _⟩, front_ne⟩ := distinct
  obtain ⟨s, linked_last⟩ := Seg.live shape.queued (show last ∈ front ++ last :: i :: after by simp)
  obtain ⟨pred, found_last, _⟩ := linkOf_eq_some.mp linked_last
  have kept : read (write q.items last { pred with next := cell.next }) i = some cell := by
    rw [read_write_ne _ (Ne.symm last_ne), found]
  have untouched : ∀ j, j ≠ last → j ≠ i → linkOf nextItem (write (write q.items last
      { pred with next := cell.next }) i { cell with next := q.freePool }) j =
        linkOf nextItem q.items j := by
    intro j other other'
    rw [itemLink_recycle kept _ other', linkOf_write found_last, if_neg other]
  -- The queue still has the predecessor, so the tail is not looked at.
  have nonempty : q.head ≠ none := by
    intro empty
    have nodes := Chain.unique (empty ▸ shape.queued)
      (show Chain (linkOf nextItem q.items) none [] from rfl)
    simp at nodes
  refine ⟨{ q with
      items := write (write q.items last { pred with next := cell.next }) i
        { cell with next := q.freePool }
      freePool := some i }, ?_, ?_, ?_, ?_, ?_⟩
  · simp [removeItem, found, found_last, nonempty]
  · -- The predecessor points past the item.
    rw [List.append_assoc]
    apply Chain.unlink shape.queued
      (show linkOf nextItem q.items i = some cell.next by simp [linkOf, found])
    · intro j member
      exact untouched j (front_ne j member).1 (front_ne j member).2.1
    · intro j member
      exact untouched j (fun same => last_after (same ▸ member)) fun same => i_after (same ▸ member)
    · show linkOf _ _ last = _
      rw [itemLink_recycle kept _ last_ne, linkOf_write found_last, if_pos rfl]
  · -- The recycled item starts the pool.
    apply Chain.push shape.spare
    · intro j member
      exact untouched j (fun same => shape.apart last (by simp) (same ▸ member))
        fun same => shape.apart i (by simp) (same ▸ member)
    · show linkOf _ _ i = _
      rw [linkOf_write kept, if_pos rfl]
  · show valuesAt message (write _ i _) _ = _
    rw [messagesAt_relink kept, messagesAt_relink found_last]
  · simp

/--
Removing an item takes it out of the queue, recycles it, and resets the tail only when nothing is
left.
-/
theorem removeItem_spec {q : MessageQueue} {before after pool : List Nat} {i : Nat}
    {cell : MessageQueueItem} (shape : QueueShape q (before ++ i :: after) pool)
    (found : read q.items i = some cell) :
    ∃ q', removeItem before.getLast? i q = some (q', cell.qmsg) ∧
      ItemRemoved q q' before after pool i := by
  -- The source tells the cases apart by the predecessor the search came back with.
  rcases List.eq_nil_or_concat' before with rfl | ⟨front, last, rfl⟩
  · exact removeItem_first shape found
  · have shape' : QueueShape q (front ++ last :: i :: after) pool := by simpa using shape
    simpa using removeItem_later shape' found

/-- Whether the retrieval takes the last of several messages. -/
def TakesLast (f : MsgFilter) (m : QueueModel) : Prop :=
  2 ≤ m.msgs.length ∧ ∀ qmsg ∈ m.msgs.dropLast, skipMessage qmsg f = true

instance (f : MsgFilter) (m : QueueModel) : Decidable (TakesLast f m) := by
  unfold TakesLast
  infer_instance

/-- Taking the last of several means that messages were skipped before it and none is behind it. -/
theorem takesLast_iff {f : MsgFilter} {m : QueueModel} {front back : List Qmsg} {qmsg : Qmsg}
    (split : m.msgs = front ++ qmsg :: back)
    (skipped : ∀ earlier ∈ front, skipMessage earlier f = true)
    (wanted : skipMessage qmsg f = false) : TakesLast f m ↔ front ≠ [] ∧ back = [] := by
  unfold TakesLast
  rw [split]
  rcases List.eq_nil_or_concat' back with rfl | ⟨middle, last, rfl⟩
  · -- Everything but the taken message was skipped.
    have several : 2 ≤ (front ++ [qmsg]).length ↔ front ≠ [] := by
      rw [List.length_append, List.length_singleton, ← List.length_pos_iff_ne_nil]
      omega
    rw [several, List.dropLast_concat]
    exact ⟨fun both => ⟨both.1, rfl⟩, fun both => ⟨both.1, skipped⟩⟩
  · -- The taken message is not skipped, although it is not the last.
    rw [← List.cons_append, ← List.append_assoc, List.dropLast_concat]
    constructor
    · intro ⟨_, all⟩
      rw [all qmsg (by simp)] at wanted
      cases wanted
    · intro ⟨_, ends⟩
      simp at ends

/-- A removal leaves a represented queue unless it took the last of several items. -/
theorem ItemRemoved.represents_iff {q q' : MessageQueue} {before after pool : List Nat} {i : Nat}
    {m : QueueModel} (shape : QueueShape q (before ++ i :: after) pool)
    (removed : ItemRemoved q q' before after pool i)
    (messages : valuesAt message q.items (before ++ after) = m.msgs)
    (spares : pool.length + 1 = m.spare) :
    Represents q' m ↔ before = [] ∨ after ≠ [] := by
  have tail := removed.tail
  rw [shape.tail] at tail
  have distinct := List.nodup_append.mp (Chain.nodup shape.queued)
  constructor
  · -- The nodes are determined by the links, so the tail must be the last of them.
    intro rep
    obtain ⟨nodes, _, shape', _, _⟩ := rep
    have same := Chain.unique shape'.queued removed.queued
    have last := shape'.tail
    rw [same, tail] at last
    by_contra stranded
    obtain ⟨some_before, none_after⟩ := not_or.mp stranded
    have none_after := not_not.mp none_after
    subst none_after
    simp [some_before] at last
    exact distinct.2.2 i (List.mem_of_getLast? last.symm) i (by simp) rfl
  · -- In the other cases the last item is the one it was, or there is none.
    intro kept
    refine ⟨before ++ after, i :: pool, ⟨removed.queued, removed.spare, ?_, ?_⟩, ?_,
      by simpa using spares⟩
    · -- The item that moved to the pool is no longer queued.
      intro j member pooled
      rcases List.mem_cons.mp pooled with same | pooled
      · subst same
        rcases List.mem_append.mp member with member | member
        · exact distinct.2.2 j member j (by simp) rfl
        · exact (List.nodup_cons.mp distinct.2.1).1 member
      · refine shape.apart j ?_ pooled
        rcases List.mem_append.mp member with member | member <;> simp [member]
    · -- The tail is what the claim about the remaining items says.
      rw [tail]
      rcases kept with rfl | some_after
      · cases after <;> simp [List.getLast?_cons]
      · obtain ⟨k, rest, rfl⟩ := List.exists_cons_of_ne_nil some_after
        simp [List.getLast?_append, List.getLast?_cons]
    · rw [removed.messages, messages]

/-- A pass that finds nothing leaves the queue alone. -/
theorem getMsgPass_none {q : MessageQueue} {m : QueueModel} {f : MsgFilter} (rep : Represents q m)
    (nothing : m.take f = none) : getMsgPass f q = some (q, none) := by
  obtain ⟨nodes, pool, shape, held, _⟩ := rep
  -- The model finds nothing, so every message is skipped.
  have skipped : ∀ qmsg ∈ valuesAt message q.items nodes, skipMessage qmsg f = true := by
    rw [held]
    cases found : m.msgs.find? fun qmsg => !skipMessage qmsg f with
    | none => simpa using found
    | some qmsg => simp [QueueModel.take, found] at nothing
  obtain ⟨prev, searched⟩ := searchItem_none shape.queued skipped
  unfold searchItem at searched
  simp [getMsgPass, searched]

/--
A pass takes the message the model takes, and strands the tail exactly when it was the last of
several.
-/
theorem getMsgPass_some {q : MessageQueue} {m m' : QueueModel} {f : MsgFilter} {qmsg : Qmsg}
    (rep : Represents q m) (took : m.take f = some (m', qmsg)) :
    ∃ q', getMsgPass f q = some (q', some qmsg) ∧ (Represents q' m' ↔ ¬ TakesLast f m) := by
  obtain ⟨nodes, pool, shape, held, spares⟩ := rep
  unfold QueueModel.take at took
  cases found : m.msgs.find? fun qmsg => !skipMessage qmsg f with
  | none => simp [found] at took
  | some first =>
    simp only [found, Option.some.injEq, Prod.mk.injEq] at took
    obtain ⟨rfl, rfl⟩ := took
    -- The messages before the one taken are all skipped.
    obtain ⟨wanted, front, back, split, skipped⟩ := List.find?_eq_some_iff_append.mp found
    have wanted : skipMessage first f = false := by simpa using wanted
    have skipped : ∀ qmsg ∈ front, skipMessage qmsg f = true := by simpa using skipped
    obtain ⟨before, i, after, cell, rfl, fronts, live, rfl, backs⟩ :=
      valuesAt_split shape.queued (held.trans split)
    have searched := searchItem_some shape.queued (fronts ▸ skipped) live wanted
    unfold searchItem at searched
    obtain ⟨q', removed, left⟩ := removeItem_spec shape live
    refine ⟨q', by simp [getMsgPass, searched, removed], ?_⟩
    -- The model takes out the first message that is not skipped.
    have erased : (m.msgs.eraseP fun qmsg => !skipMessage qmsg f) = front ++ back := by
      rw [split, List.eraseP_append_right _ (by simpa using skipped)]
      simp [wanted]
    rw [ItemRemoved.represents_iff shape left (by rw [valuesAt_append, fronts, backs, erased])
      (by simp [spares])]
    obtain ⟨r, path, _, rest⟩ := Chain.split shape.queued
    rw [takesLast_iff split skipped wanted, ← fronts, ← backs, Ne, Ne, valuesAt_eq_nil_iff path,
      valuesAt_eq_nil_iff rest]
    tauto

/-- The retrieval loop over the list of messages. -/
def QueueModel.get (f : MsgFilter) : List (List Posting) → QueueModel → QueueModel × GetMsgResult
  | pumped, m =>
    match m.take f with
    | some (m, qmsg) => (m, .got qmsg (qmsg.msg ≠ wmQuit))
    | none =>
      match pumped with
      | [] => (m, .blocked)
      | batch :: rest => get f rest (m.pump batch)

/-- The retrieval never takes the last of several messages. -/
def KeepsTail (f : MsgFilter) : List (List Posting) → QueueModel → Prop
  | pumped, m =>
    match m.take f with
    | some _ => ¬ TakesLast f m
    | none =>
      match pumped with
      | [] => True
      | batch :: rest => KeepsTail f rest (m.pump batch)

/-- Whether a retrieval keeps the tail can be computed from the messages. -/
instance KeepsTail.decide (f : MsgFilter) : ∀ pumped m, Decidable (KeepsTail f pumped m)
  | pumped, m => by
    unfold KeepsTail
    cases m.take f with
    | some _ => exact inferInstanceAs (Decidable (¬ TakesLast f m))
    | none =>
      cases pumped with
      | nil => exact .isTrue trivial
      | cons batch rest => exact KeepsTail.decide f rest (m.pump batch)

/-- A retrieval does what the model does exactly when it does not strand the tail. -/
theorem getMsgLoop_exact {q : MessageQueue} {m : QueueModel} {f : MsgFilter} (rep : Represents q m)
    (pumped : List (List Posting)) :
    (∃ q', getMsgLoop f pumped q = some (q', (m.get f pumped).2) ∧
      Represents q' (m.get f pumped).1) ↔ KeepsTail f pumped m := by
  -- A pass that finds nothing leaves the queue alone, and the events it waits for are posts.
  induction pumped generalizing q m with
  | nil =>
    -- Without events to wait for, the first pass decides.
    unfold getMsgLoop QueueModel.get KeepsTail
    cases took : m.take f with
    | none => simp [getMsgPass_none rep took, rep]
    | some taken =>
      obtain ⟨q', passed, kept⟩ := getMsgPass_some rep took
      simpa [passed] using kept
  | cons batch rest ih =>
    -- An unsuccessful pass waits, and the loop goes on with the events posted.
    unfold getMsgLoop QueueModel.get KeepsTail
    cases took : m.take f with
    | none =>
      obtain ⟨q', pumped, rep'⟩ := pumpEvents_spec rep batch
      simpa [getMsgPass_none rep took, pumped] using ih rep'
    | some taken =>
      obtain ⟨q', passed, kept⟩ := getMsgPass_some rep took
      simpa [passed] using kept

/-- An anchor block with the messages its queue stands for. -/
structure QueueBooks where
  anchor : AnchorBlock
  model : QueueModel := {}
  deriving DecidableEq, Repr

/-- A call on the message queue. -/
inductive QueueCall where
  | post (qmsg : Qmsg) (malloc : Option MessageQueueItem)
  | get (hab : Nat) (f : MsgFilter) (pumped : List (List Posting))
  deriving DecidableEq, Repr

/-- What a call answers. -/
inductive QueueAnswer where
  | posted (appended : Bool)
  | answered (result : GetMsgResult)
  deriving DecidableEq, Repr

/-- What the list of messages does for a call. -/
def QueueModel.call (known : Nat) (m : QueueModel) : QueueCall → QueueModel × QueueAnswer
  | .post qmsg malloc => ((m.post malloc.isSome qmsg).1, .posted (m.post malloc.isSome qmsg).2)
  | .get hab f pumped =>
    if known ≠ hab then (m, .answered .refused)
    else ((m.get f pumped).1, .answered (m.get f pumped).2)

/-- One call on the queue, next to what it does to the list of messages. -/
def queueStep (b : QueueBooks) (call : QueueCall) : Option (QueueBooks × QueueAnswer) :=
  let model := (b.model.call b.anchor.hab call).1
  match call with
  | .post qmsg malloc =>
    match postMessage malloc qmsg b.anchor.messageQueue with
    | none => none
    | some (q, appended) => some (⟨{ b.anchor with messageQueue := q }, model⟩, .posted appended)
  | .get hab f pumped =>
    match winGetMsg hab f pumped b.anchor with
    | none => none
    | some (anchor, result) => some (⟨anchor, model⟩, .answered result)

/-- The links of the queue stand for the list of messages. -/
def QueueGood (b : QueueBooks) : Prop := Represents b.anchor.messageQueue b.model

/-- A call answers what the list of messages answers. -/
def QueueDone (b : QueueBooks) (call : QueueCall) (_ : QueueBooks) (out : QueueAnswer) : Prop :=
  out = (b.model.call b.anchor.hab call).2

/-- The call does not unlink the last of several messages. -/
def QueueKeepsTail (b : QueueBooks) : QueueCall → Prop
  | .post _ _ => True
  | .get hab f pumped => b.anchor.hab = hab → KeepsTail f pumped b.model

/-- Whether a call keeps the tail can be computed. -/
instance (b : QueueBooks) (call : QueueCall) : Decidable (QueueKeepsTail b call) := by
  cases call with
  | post _ _ => exact .isTrue trivial
  | get hab f pumped => exact inferInstanceAs (Decidable (b.anchor.hab = hab → _))

/-- One call refines the list of messages exactly when it keeps the tail. -/
theorem queueStep_exact {b : QueueBooks} {call : QueueCall} (good : QueueGood b) :
    (∃ t out, queueStep b call = some (t, out) ∧ QueueDone b call t out ∧ QueueGood t) ↔
      QueueKeepsTail b call := by
  cases call with
  | post qmsg malloc =>
    -- A post never touches the tail the wrong way.
    obtain ⟨q', posted, rep⟩ := postMessage_spec good malloc qmsg
    refine ⟨fun _ => trivial, fun _ => ?_⟩
    refine ⟨⟨{ b.anchor with messageQueue := q' }, (b.model.post malloc.isSome qmsg).1⟩,
      .posted (b.model.post malloc.isSome qmsg).2, ?_, rfl, rep⟩
    simp only [queueStep, posted, QueueModel.call]
  | get hab f pumped =>
    by_cases known : b.anchor.hab = hab
    · have loop := getMsgLoop_exact (f := f) good pumped
      have keeps : QueueKeepsTail b (.get hab f pumped) ↔ KeepsTail f pumped b.model := by
        simp [QueueKeepsTail, known]
      rw [keeps, ← loop]
      constructor
      · -- The state and the answer of the call are those of the loop.
        intro ⟨t, out, stepped, done, rep⟩
        cases looped : getMsgLoop f pumped b.anchor.messageQueue with
        | none => simp [queueStep, winGetMsg, known, looped] at stepped
        | some left =>
          obtain ⟨q', result⟩ := left
          simp only [queueStep, winGetMsg, known, looped, QueueModel.call, ne_eq, not_true_eq_false,
            if_false, Option.some.injEq, Prod.mk.injEq] at stepped
          obtain ⟨rfl, rfl⟩ := stepped
          simp only [QueueDone, QueueModel.call, known, ne_eq, not_true_eq_false, if_false,
            QueueAnswer.answered.injEq] at done
          exact ⟨q', by rw [done], rep⟩
      · -- The loop came back with the answer of the model, so the call does.
        intro ⟨q', looped, rep⟩
        refine ⟨⟨{ b.anchor with messageQueue := q' }, (b.model.get f pumped).1⟩,
          .answered (b.model.get f pumped).2, ?_, ?_, rep⟩
        · simp [queueStep, winGetMsg, known, looped, QueueModel.call]
        · simp [QueueDone, QueueModel.call, known]
    · -- A foreign anchor block only gets an error recorded.
      refine ⟨fun _ same => absurd same known, fun _ => ?_⟩
      refine ⟨⟨{ b.anchor with lastError := pmerrInvalidHab }, b.model⟩, .answered .refused,
        ?_, ?_, good⟩
      · simp [queueStep, winGetMsg, known, QueueModel.call]
      · simp [QueueDone, QueueModel.call, known]

/-- A new queue stands for no messages. -/
theorem queueGood_new (anchor : AnchorBlock) (hmq : Nat) :
    QueueGood ⟨{ anchor with messageQueue := { hmq := hmq } }, {}⟩ :=
  ⟨[], [], ⟨rfl, rfl, fun _ absent => absurd absent List.not_mem_nil, rfl⟩, rfl, rfl⟩

/--
A run of posts and retrievals refines the list of messages exactly when none unlinks the last of
several.

Refining means that the queued and the spare nodes are disjoint chains without cycles, the tail is
the last node queued, the nodes hold the messages in the order of the list, and every call answers
what the list answers: a post appends, a retrieval takes the first message its filter does not skip.
-/
theorem message_queue_run_refines_iff (anchor : AnchorBlock) (hmq : Nat) (calls : List QueueCall) :
    Runs.StaysGood queueStep QueueGood QueueDone
      ⟨{ anchor with messageQueue := { hmq := hmq } }, {}⟩ calls ↔
      Runs.Each queueStep QueueKeepsTail
        ⟨{ anchor with messageQueue := { hmq := hmq } }, {}⟩ calls :=
  Runs.staysGood_iff_each (fun _ _ good (_ : True) => queueStep_exact good)
    (queueGood_new anchor hmq)
    (Runs.each_of_forall (fun _ _ => trivial) calls)

/--
Two messages for different windows, of which the later one is fetched before another one is posted.
-/
def strandingCalls : List QueueCall :=
  [.post { hwnd := 1 } (some ⟨{}, none⟩), .post { hwnd := 2 } (some ⟨{}, none⟩),
    .get 1 { hwndFilter := 2 } [], .post { hwnd := 3 } none, .get 1 {} []]

/--
Fetching the later of two messages strands the tail, and the next plain retrieval trips the
assertion.
-/
theorem stranding_run_not_refined :
    ¬ Runs.StaysGood queueStep QueueGood QueueDone ⟨{ hab := 1 }, {}⟩ strandingCalls := by
  intro stays
  obtain ⟨t, ran⟩ := stays.ran
  have faults : Runs.runFrom queueStep ⟨{ hab := 1 }, {}⟩ strandingCalls = none := by decide +kernel
  rw [faults] at ran
  cases ran

end TwoIne
