import TwoIne.DosCalls.ExitList

/-! What adding and removing a handler does to the chain of items. -/

namespace TwoIne

open Cells Chains HeapLists

/-- The successor of an item in memory. -/
abbrev nextExitItem : ExitListItem → Option Nat := ExitListItem.next

/-- What linking an item does: the predecessor, or the head of the list, points at it. -/
theorem linkExitItem_spec {s : ExitList} {prev : Option Nat} (item : Option Nat)
    (live : ∀ p, prev = some p → ∃ cell, read s.items p = some cell) :
    ∃ s', linkExitItem prev item s = some s' ∧
      (∀ x, linkOf nextExitItem s'.items x =
        if prev = some x then some item else linkOf nextExitItem s.items x) ∧
      (∀ x, (read s'.items x).map ExitListItem.fn = (read s.items x).map ExitListItem.fn) ∧
      s'.items.length = s.items.length ∧
      s'.exitList = if prev = none then item else s.exitList := by
  cases prev with
  -- Without a predecessor, the list starts with the item.
  | none => exact ⟨{ s with exitList := item }, rfl, fun x => by simp, fun _ => rfl, rfl, rfl⟩
  | some p =>
    obtain ⟨cell, found⟩ := live p rfl
    refine ⟨{ s with items := write s.items p { cell with next := item } },
      by simp only [linkExitItem, found], fun x => ?_, fun x => ?_, fresh_write .., rfl⟩
    · show linkOf nextExitItem (write s.items p { cell with next := item }) x = _
      rw [linkOf_write found]
      simp only [Option.some.injEq, eq_comm]
    · rcases eq_or_ne x p with rfl | other
      · rw [read_write_self _ found, found]
        rfl
      · rw [read_write_ne _ other]

/--
Adding a handler links its item in front of the first one whose stored priority is not smaller.

So the position depends on what the memory of the earlier items happened to contain.
-/
theorem addExitItem_chain {s : ExitList} {front rest : List Nat} (junk : ExitListItem)
    (fn arg : Nat) (chain : Chain (linkOf nextExitItem s.items) s.exitList (front ++ rest))
    (passed : ∀ x ∈ front, ∀ cell, read s.items x = some cell → cell.priority < arg)
    (stops : ∀ x, rest.head? = some x → ∀ cell, read s.items x = some cell → arg ≤ cell.priority) :
    ∃ s', addExitItem (some junk) fn arg s = some (s', .noError) ∧
      Chain (linkOf nextExitItem s'.items) s'.exitList (front ++ fresh s.items :: rest) ∧
      (∀ x, x ≠ fresh s.items →
        (read s'.items x).map ExitListItem.fn = (read s.items x).map ExitListItem.fn) ∧
      (read s'.items (fresh s.items)).map ExitListItem.fn = some fn ∧
      fresh s'.items = fresh s.items + 1 := by
  have head : s.exitList = (front ++ rest).head? := Chain.head chain
  -- The new item is none of those on the list, and allocating it leaves those as they were.
  have live : ∀ x ∈ front ++ rest, ∃ cell, read s.items x = some cell := fun x member =>
    path_live chain member
  have apart : ∀ x ∈ front ++ rest, x ≠ fresh s.items := by
    intro x member
    obtain ⟨cell, found⟩ := live x member
    exact Nat.ne_of_lt (read_lt_fresh found)
  let blank : ExitListItem := { junk with fn }
  -- The walk passes the items in front and stops at the first of the rest.
  have walked : walkUntil (fun cell => arg ≤ cell.priority) ExitListItem.next
      (alloc s.items blank) ((alloc s.items blank).length + 1) none s.exitList =
        some (front.getLast?, rest.head?) := by
    have chain' : Chain (linkOf ExitListItem.next (alloc s.items blank)) s.exitList
        (front ++ rest) :=
      Seg.frame chain fun x member => by rw [linkOf, linkOf, read_alloc_ne _ (apart x member)]
    refine walkUntil_split chain' (fun x member cell found => ?_) fun x first => ?_
    · rw [read_alloc_ne _ (apart x (List.mem_append_left _ member))] at found
      simpa using passed x member cell found
    · have member : x ∈ front ++ rest := List.mem_append_right _ (List.mem_of_head? first)
      obtain ⟨cell, found⟩ := live x member
      refine ⟨cell, by rw [read_alloc_ne _ (apart x member), found], ?_⟩
      simpa using stops x first cell found
  -- Whether or not there is an item in front, the new one points at the rest.
  have points : (if front.getLast? = none then s.exitList else rest.head?) = rest.head? := by
    split
    · rename_i nothing
      rw [head, List.getLast?_eq_none_iff.mp nothing, List.nil_append]
    · rfl
  let cell : ExitListItem := { junk with fn, next := rest.head? }
  have filled : read (write (alloc s.items blank) (fresh s.items) cell) (fresh s.items) =
      some cell := read_write_self cell (read_alloc_fresh s.items blank)
  have kept : ∀ x, x ≠ fresh s.items →
      read (write (alloc s.items blank) (fresh s.items) cell) x = read s.items x := by
    intro x other
    rw [read_write_ne _ other, read_alloc_ne _ other]
  obtain ⟨s', linked, links, fns, size, start⟩ := @linkExitItem_spec
    ⟨write (alloc s.items blank) (fresh s.items) cell, s.exitList⟩ front.getLast?
    (some (fresh s.items)) fun p last => by
      have member := List.mem_append_left rest (List.mem_of_getLast? last)
      obtain ⟨before, found⟩ := live p member
      exact ⟨before, by rw [kept p (apart p member), found]⟩
  refine ⟨s', ?_, Chain.insert chain ?_ ?_ fun x member => ?_, fun x other => ?_, ?_, ?_⟩
  · simp only [addExitItem, blank, cell] at walked linked ⊢
    simp only [walked, points, linked]
  · rw [links, if_neg, linkOf, filled]
    · rfl
    · intro last
      exact apart _ (List.mem_append_left _ (List.mem_of_getLast? last)) rfl
  · rw [start]
    simp only [List.getLast?_eq_none_iff]
  · rw [links, linkOf, kept x (apart x member)]
    rfl
  · rw [fns, kept x other]
  · rw [fns, filled]
    rfl
  · rw [fresh, size]
    simp [fresh, alloc, write]

/-- The first item on the list with the given handler. -/
def exitItemOf (fn : Nat) (s : ExitList) : Option Nat :=
  (walkUntil (fun cell => cell.fn = fn) ExitListItem.next s.items (s.items.length + 1) none
    s.exitList).bind Prod.snd

/-- Without an item of the handler on the list, removing it changes nothing. -/
theorem removeExitItem_none {s : ExitList} {nodes : List Nat} {fn : Nat}
    (chain : Chain (linkOf nextExitItem s.items) s.exitList nodes)
    (others : ∀ x ∈ nodes, ∀ cell, read s.items x = some cell → cell.fn ≠ fn) :
    removeExitItem fn s = some (s, .errorInvalidFunction) := by
  -- The walk passes every item.
  have walked : walkUntil (fun cell => cell.fn = fn) ExitListItem.next s.items
      (s.items.length + 1) none s.exitList = some (nodes.getLast?, none) :=
    walkUntil_end chain fun x member cell found => by simpa using others x member cell found
  simp only [removeExitItem, walked]

/-- Removing a handler unlinks and frees the first item of it on the list. -/
theorem removeExitItem_chain {s : ExitList} {front rest : List Nat} {a fn : Nat}
    {cell : ExitListItem}
    (chain : Chain (linkOf nextExitItem s.items) s.exitList (front ++ a :: rest))
    (others : ∀ x ∈ front, ∀ cell, read s.items x = some cell → cell.fn ≠ fn)
    (found : read s.items a = some cell) (handles : cell.fn = fn) :
    exitItemOf fn s = some a ∧ ∃ s', removeExitItem fn s = some (s', .noError) ∧
      Chain (linkOf nextExitItem s'.items) s'.exitList (front ++ rest) ∧
      (∀ x, x ≠ a →
        (read s'.items x).map ExitListItem.fn = (read s.items x).map ExitListItem.fn) ∧
      read s'.items a = none ∧ fresh s'.items = fresh s.items := by
  -- The freed item is no other node of the list.
  have distinct := List.nodup_middle.mp (Chain.nodup chain)
  have apart : ∀ x ∈ front ++ rest, x ≠ a := by
    rintro x member rfl
    exact (List.nodup_cons.mp distinct).1 member
  have next : cell.next = rest.head? := by
    obtain ⟨cell', found', next⟩ := linkOf_eq_some.mp (Chain.next chain)
    cases found.symm.trans found'
    exact next
  -- The walk passes the items of other handlers and stops at the first of this one.
  have walked : walkUntil (fun cell => cell.fn = fn) ExitListItem.next s.items
      (s.items.length + 1) none s.exitList = some (front.getLast?, some a) :=
    walkUntil_stop chain (fun x member cell live => by simpa using others x member cell live) found
      (by simp [handles])
  obtain ⟨s', linked, links, fns, size, start⟩ := @linkExitItem_spec s front.getLast? cell.next
    fun p last => path_live chain (List.mem_append_left _ (List.mem_of_getLast? last))
  refine ⟨by rw [exitItemOf, walked]; rfl,
    { s' with items := free s'.items a }, by simp only [removeExitItem, walked, found, linked],
    Chain.remove chain ?_ fun x member => ?_, fun x other => ?_, read_free_self .., ?_⟩
  · -- The item before the removed one, or the head of the list, points past it.
    rw [start, next]
    simp only [List.getLast?_eq_none_iff]
  · show linkOf nextExitItem (free s'.items a) x = _
    rw [linkOf, read_free_ne (apart x member), ← next, ← links]
    rfl
  · show (read (free s'.items a) x).map ExitListItem.fn = _
    rw [read_free_ne other, fns]
  · rw [fresh_free]
    exact size

end TwoIne
