import Mathlib.Data.List.Sort
import Mathlib.Data.List.TakeWhile
import TwoIne.Lib.Runs
import TwoIne.Proofs.DosCalls.ExitItems

/-!
The exit list is in the order of its registrations only while the priorities in memory happen to
agree.
-/

namespace TwoIne

open Cells Chains HeapLists

/-- A registered handler: its item, its handler, the order byte it was registered with, and when. -/
structure Registration where
  item : Nat
  fn : Nat
  order : Nat
  added : Nat
  deriving DecidableEq, Repr

/--
A handler runs before another one of a greater order byte, or of the same one registered earlier.
-/
def Registration.Before (r r' : Registration) : Prop :=
  r.order < r'.order ∨ r.order = r'.order ∧ r'.added < r.added

/-- The handlers of a process next to their registrations, in the order they are to run. -/
structure ExitBooks where
  list : ExitList := {}
  regs : List Registration := []
  clock : Nat := 0
  deriving DecidableEq, Repr

/-- Registering a handler puts it in front of those whose order byte is not smaller. -/
def ExitBooks.register (b : ExitBooks) (fn order : Nat) : ExitBooks :=
  { b with
    regs := b.regs.orderedInsert (fun r r' => r.order ≤ r'.order)
      ⟨fresh b.list.items, fn, order, b.clock⟩
    clock := b.clock + 1 }

/-- Removing a handler drops the first registration of it. -/
def ExitBooks.unregister (b : ExitBooks) (fn : Nat) : ExitBooks :=
  { b with regs := b.regs.eraseP fun r => r.fn = fn }

/-- What a call does to the registrations, and what it answers. -/
def ExitBooks.call (b : ExitBooks) (call : ExitCall) : ExitBooks × ApiRet :=
  match call.fn with
  | none => (b, .errorInvalidFunction)
  | some fn =>
    let cmd := exitCommand call.ordercode
    let arg := exitOrder call.ordercode
    if cmd ≠ exlstAdd ∧ arg ≠ 0 then (b, .errorInvalidData)
    else if cmd = exlstAdd then
      if call.malloc = none then (b, .errorNotEnoughMemory) else (b.register fn arg, .noError)
    else if cmd = exlstRemove then
      if b.regs.any fun r => r.fn = fn then (b.unregister fn, .noError)
      else (b, .errorInvalidFunction)
    else if cmd = exlstExit then (b, .noError)
    else (b, .errorInvalidData)

/--
The items are linked in the order of the registrations, which is sorted, and hold their handlers.
-/
structure ExitGood (b : ExitBooks) : Prop where
  chain : Chain (linkOf nextExitItem b.list.items) b.list.exitList (b.regs.map Registration.item)
  handlers : ∀ r ∈ b.regs, (read b.list.items r.item).map ExitListItem.fn = some r.fn
  sorted : b.regs.Pairwise Registration.Before
  dated : ∀ r ∈ b.regs, r.added < b.clock

/-- The order bytes of sorted registrations ascend. -/
theorem ExitGood.ascending {b : ExitBooks} (good : ExitGood b) :
    b.regs.Pairwise fun r r' => r.order ≤ r'.order :=
  good.sorted.imp fun before => by
    rcases before with less | ⟨same, _⟩
    · exact Nat.le_of_lt less
    · exact Nat.le_of_eq same

/-- Registering splits the registrations at the first order byte that is not smaller. -/
theorem register_regs (b : ExitBooks) (fn order : Nat) :
    (b.register fn order).regs = (b.regs.takeWhile fun r => r.order < order) ++
      ⟨fresh b.list.items, fn, order, b.clock⟩ :: b.regs.dropWhile fun r => r.order < order := by
  -- Mathlib inserts in front of the first entry that is not smaller, said the other way round.
  have flip : (fun r : Registration => decide ¬ order ≤ r.order) = fun r =>
      decide (r.order < order) := by
    funext r
    simp
  show List.orderedInsert _ _ _ = _
  rw [List.orderedInsert_eq_take_drop, flip]

/-- What is behind the first order byte that is not smaller is not smaller either. -/
theorem dropWhile_order {regs : List Registration}
    (ascending : regs.Pairwise fun r r' => r.order ≤ r'.order) (order : Nat) :
    ∀ r ∈ regs.dropWhile (fun r => r.order < order), order ≤ r.order := by
  -- The first entry that is left is not smaller, and those behind it are not smaller than it.
  induction regs with
  | nil => simp
  | cons first rest ih =>
    obtain ⟨least, ascending⟩ := List.pairwise_cons.mp ascending
    intro r member
    by_cases less : first.order < order
    · rw [List.dropWhile_cons_of_pos (by simpa using less)] at member
      exact ih ascending r member
    · rw [List.dropWhile_cons_of_neg (by simpa using less)] at member
      rcases List.mem_cons.mp member with rfl | member
      · exact Nat.le_of_not_lt less
      · exact Nat.le_trans (Nat.le_of_not_lt less) (least r member)

/-- Registering keeps the registrations sorted: the new one is in front of its equals. -/
theorem ExitGood.register_sorted {b : ExitBooks} (good : ExitGood b) (fn order : Nat) :
    (b.register fn order).regs.Pairwise Registration.Before := by
  rw [register_regs]
  -- The sorted list is cut where the new registration goes.
  have sorted := good.sorted
  rw [← List.takeWhile_append_dropWhile (p := fun r => r.order < order) (l := b.regs)] at sorted
  obtain ⟨front, back, across⟩ := List.pairwise_append.mp sorted
  have smaller : ∀ r ∈ b.regs.takeWhile (fun r => r.order < order), r.order < order := by
    intro r member
    simpa using List.mem_takeWhile_imp member
  have behind := dropWhile_order good.ascending order
  refine List.pairwise_append.mpr ⟨front, List.pairwise_cons.mpr ⟨fun r member => ?_, back⟩, ?_⟩
  · -- An equal one behind was registered earlier.
    rcases Nat.lt_or_eq_of_le (behind r member) with less | same
    · exact .inl less
    · exact .inr ⟨same, good.dated r ((List.dropWhile_sublist _).mem member)⟩
  · -- Everything in front has a smaller order byte than the new one.
    intro r in_front r' member
    rcases List.mem_cons.mp member with rfl | member
    · exact .inl (smaller r in_front)
    · exact across r in_front r' member

/-- The priority that the memory of a registration contains. -/
def storedPriority (items : Heap ExitListItem) (r : Registration) : Nat :=
  ((read items r.item).map ExitListItem.priority).getD 0

/-- Every registration has its item in memory. -/
theorem ExitGood.found {b : ExitBooks} (good : ExitGood b) {r : Registration}
    (member : r ∈ b.regs) :
    ∃ cell, read b.list.items r.item = some cell ∧ cell.fn = r.fn :=
  Option.map_eq_some_iff.mp (good.handlers r member)

/-- The priority the walk looks at is the one stored with the registration. -/
theorem storedPriority_eq {items : Heap ExitListItem} {r : Registration} {cell : ExitListItem}
    (found : read items r.item = some cell) : storedPriority items r = cell.priority := by
  rw [storedPriority, found]
  rfl

/--
Adding a handler links its item in front of the first one whose stored priority is not smaller.

So the position depends on what the memory of the earlier items happened to contain.
-/
theorem addExitItem_spec {b : ExitBooks} (good : ExitGood b) (junk : ExitListItem) (fn arg : Nat)
    {front rest : List Registration} (split : b.regs = front ++ rest)
    (passed : ∀ r ∈ front, storedPriority b.list.items r < arg)
    (stops : ∀ r, rest.head? = some r → arg ≤ storedPriority b.list.items r) :
    ∃ s', addExitItem (some junk) fn arg b.list = some (s', .noError) ∧
      Chain (linkOf nextExitItem s'.items) s'.exitList
        (front.map Registration.item ++ fresh b.list.items :: rest.map Registration.item) ∧
      (∀ r ∈ b.regs, (read s'.items r.item).map ExitListItem.fn = some r.fn) ∧
      (read s'.items (fresh b.list.items)).map ExitListItem.fn = some fn := by
  have chain := good.chain
  rw [split, List.map_append] at chain
  -- Each node belongs to a registration, whose stored priority is the one the walk looks at.
  obtain ⟨s', added, chain', kept, filled, _⟩ := addExitItem_chain junk fn arg chain
    (fun x member cell found => by
      obtain ⟨r, in_front, rfl⟩ := List.mem_map.mp member
      exact storedPriority_eq found ▸ passed r in_front)
    fun x first cell found => by
      rw [List.head?_map, Option.map_eq_some_iff] at first
      obtain ⟨r, first, rfl⟩ := first
      exact storedPriority_eq found ▸ stops r first
  refine ⟨s', added, chain', fun r member => ?_, filled⟩
  obtain ⟨cell, found, _⟩ := good.found member
  rw [kept r.item (Nat.ne_of_lt (read_lt_fresh found))]
  exact good.handlers r member

/-- The handler of a registered item is that of the registration. -/
theorem ExitGood.handler {b : ExitBooks} (good : ExitGood b) {r : Registration}
    (member : r ∈ b.regs) {cell : ExitListItem} (found : read b.list.items r.item = some cell) :
    cell.fn = r.fn := by
  have handler := good.handlers r member
  rwa [found, Option.map_some, Option.some.injEq] at handler

/-- Removing a handler that is not registered changes nothing. -/
theorem removeExitItem_absent {b : ExitBooks} (good : ExitGood b) {fn : Nat}
    (absent : ∀ r ∈ b.regs, r.fn ≠ fn) :
    removeExitItem fn b.list = some (b.list, .errorInvalidFunction) := by
  refine removeExitItem_none good.chain fun x member cell found => ?_
  obtain ⟨r, registered, rfl⟩ := List.mem_map.mp member
  rw [good.handler registered found]
  exact absent r registered

/-- Removing a registered handler unlinks and frees the first item of it. -/
theorem removeExitItem_spec {b : ExitBooks} (good : ExitGood b) {fn : Nat}
    {front rest : List Registration} {r : Registration} (split : b.regs = front ++ r :: rest)
    (others : ∀ r ∈ front, r.fn ≠ fn) (handles : r.fn = fn) :
    ∃ s', removeExitItem fn b.list = some (s', .noError) ∧
      Chain (linkOf nextExitItem s'.items) s'.exitList ((front ++ rest).map Registration.item) ∧
      ∀ x ∈ front ++ rest, (read s'.items x.item).map ExitListItem.fn = some x.fn := by
  have chain := good.chain
  rw [split, List.map_append, List.map_cons] at chain
  -- Every registration but the removed one stays.
  have registered : ∀ x ∈ front ++ rest, x ∈ b.regs := by
    intro x member
    rw [split]
    rcases List.mem_append.mp member with member | member
    · exact List.mem_append_left _ member
    · exact List.mem_append_right _ (List.mem_cons_of_mem _ member)
  -- No other registration has the item that is freed.
  have distinct := List.nodup_cons.mp (List.nodup_middle.mp (Chain.nodup chain))
  have apart : ∀ x ∈ front ++ rest, x.item ≠ r.item := by
    intro x member same
    rw [← List.map_append] at distinct
    exact distinct.1 (same ▸ List.mem_map_of_mem member)
  obtain ⟨cell, found, handler⟩ := good.found (show r ∈ b.regs by rw [split]; simp)
  obtain ⟨_, s', removed, chain', kept, _, _⟩ := removeExitItem_chain chain
    (fun x member cell found => by
      obtain ⟨y, in_front, rfl⟩ := List.mem_map.mp member
      rw [good.handler (registered y (List.mem_append_left _ in_front)) found]
      exact others y in_front) found (handler.trans handles)
  refine ⟨s', removed, ?_, fun x member => ?_⟩
  · rw [List.map_append]
    exact chain'
  · rw [kept x.item (apart x member)]
    exact good.handlers x (registered x member)

/-- Handlers that make no calls are run in the order of the list, and none is left. -/
theorem runExitItems_spec (why : Nat) {regs : List Registration} {s : ExitList} {p : Option Nat}
    {steps : Nat} (chain : Chain (linkOf nextExitItem s.items) p (regs.map Registration.item))
    (handlers : ∀ r ∈ regs, (read s.items r.item).map ExitListItem.fn = some r.fn)
    (start : s.exitList = p) (enough : regs.length < steps) :
    ∃ s', runExitItems why steps [] p s = some (s', regs.map fun r => (r.fn, why)) ∧
      s'.exitList = none := by
  -- Each handler is taken off the list before it runs, so the rest is a list of its own.
  induction regs generalizing s p steps with
  | nil =>
    have ends : p = none := chain
    obtain ⟨steps, rfl⟩ := Nat.exists_eq_add_of_le' enough
    exact ⟨s, by rw [ends]; rfl, start.trans ends⟩
  | cons r rest ih =>
    obtain ⟨steps, rfl⟩ := Nat.exists_eq_add_of_le' (Nat.lt_of_le_of_lt (Nat.zero_le _) enough)
    have distinct := List.nodup_cons.mp (Chain.nodup chain)
    obtain ⟨rfl, next, linked, tail⟩ := chain
    obtain ⟨cell, found, rfl⟩ := linkOf_eq_some.mp linked
    have apart : ∀ x ∈ rest, x.item ≠ r.item := fun x member same =>
      distinct.1 (same ▸ List.mem_map_of_mem member)
    have handler := handlers r List.mem_cons_self
    rw [found, Option.map_some, Option.some.injEq] at handler
    -- The items behind are linked as before, and hold their handlers.
    have tail_kept : Chain (linkOf nextExitItem (free s.items r.item)) (nextExitItem cell)
        (rest.map Registration.item) := by
      refine Seg.frame tail fun x member => ?_
      obtain ⟨y, kept, rfl⟩ := List.mem_map.mp member
      rw [linkOf, linkOf, read_free_ne (apart y kept)]
    have handlers_kept : ∀ x ∈ rest, (read (free s.items r.item) x.item).map ExitListItem.fn =
        some x.fn := by
      intro x member
      rw [read_free_ne (apart x member)]
      exact handlers x (List.mem_cons_of_mem _ member)
    obtain ⟨s', ran, empty⟩ := @ih ⟨free s.items r.item, cell.next⟩ cell.next steps tail_kept
      handlers_kept rfl (by rw [List.length_cons] at enough; omega)
    refine ⟨s', ?_, empty⟩
    simp [runExitItems, found, runExitCalls, ran, handler]

/-- A call on the exit list, or the exit that runs it. -/
inductive ExitEvent where
  | call (call : ExitCall)
  | exit (why : Nat)
  deriving DecidableEq, Repr

/-- What an event answers: a return code, or the handlers called with the reason of the exit. -/
inductive ExitAnswer where
  | ret (code : ApiRet)
  | called (handlers : List (Nat × Nat))
  deriving DecidableEq, Repr

/-- One event on the exit list, next to what it does to the registrations. -/
def exitStep (b : ExitBooks) : ExitEvent → Option (ExitBooks × ExitAnswer)
  | .call call =>
    match DosExitList call b.list with
    | none => none
    | some (list, code) => some ({ (b.call call).1 with list := list }, .ret code)
  | .exit why =>
    match runDosExitList why [] b.list with
    | none => none
    | some (list, called) => some ({ b with list := list, regs := [] }, .called called)

/--
A call answers what it should, and an exit calls the handlers in the order of the registrations.
-/
def ExitDone (b : ExitBooks) (event : ExitEvent) (_ : ExitBooks) (out : ExitAnswer) : Prop :=
  match event with
  | .call call => out = .ret (b.call call).2
  | .exit why => out = .called (b.regs.map fun r => (r.fn, why))

/-- The stored priorities put a new handler where the order bytes would put it. -/
def SameSlot (b : ExitBooks) (order : Nat) : Prop :=
  (b.regs.takeWhile fun r => storedPriority b.list.items r < order) =
    b.regs.takeWhile fun r => r.order < order

/-- An event that adds a handler finds the slot that its order byte asks for. -/
def ExitKeepsOrder (b : ExitBooks) : ExitEvent → Prop
  | .call call => call.fn ≠ none → exitCommand call.ordercode = exlstAdd → call.malloc ≠ none →
      SameSlot b (exitOrder call.ordercode)
  | .exit _ => True

/--
Adding a handler keeps the list in the order of the registrations exactly when it finds its slot.
-/
theorem ExitGood.add {b : ExitBooks} (good : ExitGood b) (junk : ExitListItem) (fn order : Nat) :
    ∃ s', addExitItem (some junk) fn order b.list = some (s', .noError) ∧
      (ExitGood { b.register fn order with list := s' } ↔ SameSlot b order) := by
  have split := (List.takeWhile_append_dropWhile
    (p := fun r => decide (storedPriority b.list.items r < order)) (l := b.regs)).symm
  -- The list is cut twice: by the stored priorities, and by the order bytes.
  have split' := (List.takeWhile_append_dropWhile
    (p := fun r => decide (r.order < order)) (l := b.regs)).symm
  obtain ⟨s', added, chain, handlers, handler⟩ := addExitItem_spec good junk fn order split
    (fun r member => by simpa using List.mem_takeWhile_imp member) fun r first => by
      have stopped := List.head?_dropWhile_not
        (fun r => decide (storedPriority b.list.items r < order)) b.regs
      rw [first] at stopped
      simpa using stopped
  -- The new item is at an address of its own.
  have apart : ∀ r ∈ b.regs, r.item ≠ fresh b.list.items := by
    intro r member
    obtain ⟨cell, found, _⟩ := good.found member
    exact Nat.ne_of_lt (read_lt_fresh found)
  have absent : ∀ regs : List Registration, (∀ r ∈ regs, r ∈ b.regs) →
      fresh b.list.items ∉ regs.map Registration.item := by
    intro regs registered member
    obtain ⟨r, member, same⟩ := List.mem_map.mp member
    exact apart r (registered r member) same
  refine ⟨s', added, ?_⟩
  constructor
  · -- The new item is at one place of the chain only, so both fronts are equally long.
    intro good'
    have chain' := good'.chain
    simp only [register_regs, List.map_append, List.map_cons] at chain'
    have nodes := Chain.unique chain chain'
    obtain ⟨fronts, _, _⟩ := (List.append_cons_inj_of_notMem
      (absent _ fun r member => (List.takeWhile_sublist _).mem member)
      (absent _ fun r member => (List.dropWhile_sublist _).mem member)).mp nodes
    have lengths := congrArg List.length fronts
    rw [List.length_map, List.length_map] at lengths
    exact (List.prefix_of_prefix_length_le (List.takeWhile_prefix _) (List.takeWhile_prefix _)
      (Nat.le_of_eq lengths)).eq_of_length lengths
  · -- With both cuts at one place, the item is linked where the registration goes.
    intro same
    have backs : b.regs.dropWhile (fun r => storedPriority b.list.items r < order) =
        b.regs.dropWhile fun r => r.order < order := by
      have both := split.symm.trans split'
      rw [show b.regs.takeWhile (fun r => decide (storedPriority b.list.items r < order)) =
        _ from same]
        at both
      exact List.append_cancel_left both
    rw [show b.regs.takeWhile (fun r => decide (storedPriority b.list.items r < order)) =
      _ from same,
      backs] at chain
    have member_iff : ∀ r, r ∈ (b.register fn order).regs ↔
        r = ⟨fresh b.list.items, fn, order, b.clock⟩ ∨ r ∈ b.regs :=
          fun r => List.mem_orderedInsert ..
    exact {
      chain := by
        simp only [register_regs, List.map_append, List.map_cons]
        exact chain
      handlers := fun r member => by
        rcases (member_iff r).mp member with rfl | member
        · exact handler
        · exact handlers r member
      sorted := good.register_sorted fn order
      dated := fun r member => by
        rcases (member_iff r).mp member with rfl | member
        · exact Nat.lt_succ_self _
        · exact Nat.lt_succ_of_lt (good.dated r member) }

/-- Removing a handler keeps the list in the order of the registrations. -/
theorem ExitGood.remove {b : ExitBooks} (good : ExitGood b) (fn : Nat) :
    ∃ s' , removeExitItem fn b.list = some (s',
        if b.regs.any fun r => r.fn = fn then .noError else .errorInvalidFunction) ∧
      ExitGood { b with
        list := s'
        regs := if b.regs.any fun r => r.fn = fn then (b.unregister fn).regs else b.regs } := by
  by_cases registered : b.regs.any fun r => r.fn = fn
  · rw [if_pos registered, if_pos registered]
    -- The first registration of the handler is the one whose item the source finds.
    obtain ⟨r, member, handles⟩ := List.any_eq_true.mp registered
    obtain ⟨r, front, rest, others, handles, split, erased⟩ :=
      List.exists_of_eraseP (p := fun r => decide (r.fn = fn)) member handles
    have handles : r.fn = fn := by simpa using handles
    have others : ∀ r ∈ front, r.fn ≠ fn := fun x member => by simpa using others x member
    obtain ⟨s', removed, chain, handlers⟩ := removeExitItem_spec good split others handles
    have regs : (b.unregister fn).regs = front ++ rest := erased
    have sub : (front ++ rest).Sublist b.regs := by
      rw [split]
      exact (List.sublist_cons_self r rest).append_left front
    refine ⟨s', removed, ?_⟩
    rw [regs]
    exact ⟨chain, handlers, good.sorted.sublist sub, fun x member => good.dated x (sub.mem member)⟩
  · rw [if_neg registered, if_neg registered]
    -- Nobody registered the handler, so nothing is found and nothing changes.
    refine ⟨b.list, removeExitItem_absent good fun r member handles => registered ?_, good⟩
    exact List.any_eq_true.mpr ⟨r, member, by simpa using handles⟩

/--
A call keeps the list in the order of the registrations exactly when it finds the slot it asks for.
-/
theorem ExitGood.call_exact {b : ExitBooks} (good : ExitGood b) (call : ExitCall) :
    (∃ u out, exitStep b (.call call) = some (u, out) ∧ ExitDone b (.call call) u out ∧
      ExitGood u) ↔
      ExitKeepsOrder b (.call call) := by
  -- A call that changes nothing is fine whatever the memory contains.
  have unchanged : ∀ code, DosExitList call b.list = some (b.list, code) → b.call call = (b, code) →
      ∃ u out, exitStep b (.call call) = some (u, out) ∧ ExitDone b (.call call) u out ∧
        ExitGood u := by
    intro code stepped modelled
    refine ⟨b, .ret code, by simp [exitStep, stepped, modelled], ?_, good⟩
    rw [ExitDone, modelled]
  cases handler : call.fn with
  | none =>
    refine iff_of_true (unchanged .errorInvalidFunction ?_ ?_) fun absent => absurd handler absent
    · simp [DosExitList, handler]
    · simp [ExitBooks.call, handler]
  | some fn =>
    by_cases refused : exitCommand call.ordercode ≠ exlstAdd ∧ exitOrder call.ordercode ≠ 0
    · refine iff_of_true (unchanged .errorInvalidData ?_ ?_) fun _ adds => absurd adds refused.1
      · simp [DosExitList, handler, refused]
      · simp [ExitBooks.call, handler, refused]
    · by_cases adds : exitCommand call.ordercode = exlstAdd
      · cases memory : call.malloc with
        | none =>
          refine iff_of_true (unchanged .errorNotEnoughMemory ?_ ?_) fun _ _ some_memory =>
            absurd memory some_memory
          · simp [DosExitList, handler, adds, memory, addExitItem]
          · simp [ExitBooks.call, handler, adds, memory]
        | some junk =>
          -- The item is added, at the place the stored priorities lead to.
          obtain ⟨s', added, exact_slot⟩ := good.add junk fn (exitOrder call.ordercode)
          have keeps : ExitKeepsOrder b (.call call) ↔ SameSlot b (exitOrder call.ordercode) := by
            simp [ExitKeepsOrder, handler, adds, memory]
          have modelled : b.call call = (b.register fn (exitOrder call.ordercode), .noError) := by
            simp [ExitBooks.call, handler, adds, memory]
          have stepped : exitStep b (.call call) = some
              ({ b.register fn (exitOrder call.ordercode) with list := s' }, .ret .noError) := by
            simp [exitStep, modelled, DosExitList, handler, adds, memory, added]
          rw [keeps, ← exact_slot]
          constructor
          · rintro ⟨u, out, stepped', _, good'⟩
            cases stepped.symm.trans stepped'
            exact good'
          · exact fun good' => ⟨_, _, stepped, by rw [ExitDone, modelled], good'⟩
      · refine iff_of_true ?_ fun _ adds' => absurd adds' adds
        -- Only an addition may come with an order byte.
        have no_order : exitOrder call.ordercode = 0 := by
          by_contra order
          exact refused ⟨adds, order⟩
        by_cases removes : exitCommand call.ordercode = exlstRemove
        · obtain ⟨s', removed, good'⟩ := good.remove fn
          refine ⟨_, .ret (b.call call).2, ?_, rfl, good'⟩
          by_cases registered : b.regs.any fun r => r.fn = fn
          · rw [if_pos registered] at removed
            simp only [exitStep, DosExitList, ExitBooks.call, handler, no_order, ne_eq,
              not_true_eq_false, and_false, if_false, if_neg adds, if_pos removes, removed,
              if_pos registered, ExitBooks.unregister]
          · rw [if_neg registered] at removed
            simp only [exitStep, DosExitList, ExitBooks.call, handler, no_order, ne_eq,
              not_true_eq_false, and_false, if_false, if_neg adds, if_pos removes, removed,
              if_neg registered]
        · by_cases exits : exitCommand call.ordercode = exlstExit
          · refine unchanged .noError ?_ ?_
            · simp only [DosExitList, handler, no_order, ne_eq, not_true_eq_false,
                and_false, if_false,
                if_neg adds, if_neg removes, if_pos exits]
            · simp only [ExitBooks.call, handler, no_order, ne_eq, not_true_eq_false, and_false,
                if_false, if_neg adds, if_neg removes, if_pos exits]
          · refine unchanged .errorInvalidData ?_ ?_
            · simp only [DosExitList, handler, no_order, ne_eq, not_true_eq_false,
                and_false, if_false,
                if_neg adds, if_neg removes, if_neg exits]
            · simp only [ExitBooks.call, handler, no_order, ne_eq, not_true_eq_false, and_false,
                if_false, if_neg adds, if_neg removes, if_neg exits]

/-- An exit calls the registered handlers in their order and leaves an empty list. -/
theorem ExitGood.exit {b : ExitBooks} (good : ExitGood b) (why : Nat) :
    ∃ u out, exitStep b (.exit why) = some (u, out) ∧ ExitDone b (.exit why) u out ∧
      ExitGood u := by
  -- Each handler is called once, and there are no more of them than items.
  have bound := chain_length_le good.chain
  rw [List.length_map] at bound
  obtain ⟨s', ran, empty⟩ := runExitItems_spec why good.chain good.handlers rfl
    (show b.regs.length < b.list.items.length + ([] : List (List ExitCall)).flatten.length + 1 by
      simp only [List.flatten_nil, List.length_nil]
      omega)
  refine ⟨{ b with list := s', regs := [] }, .called (b.regs.map fun r => (r.fn, why)), ?_, ?_, ?_⟩
  · simp only [exitStep, runDosExitList, ran]
  · show _ = _
    rfl
  · refine ⟨empty, fun r absent => ?_, List.Pairwise.nil, fun r absent => ?_⟩
    · cases absent
    · cases absent

/-- One event keeps the list in the order of the registrations exactly when it keeps their order. -/
theorem exitStep_exact {b : ExitBooks} {event : ExitEvent} (good : ExitGood b) :
    (∃ u out, exitStep b event = some (u, out) ∧ ExitDone b event u out ∧ ExitGood u) ↔
      ExitKeepsOrder b event := by
  cases event with
  | call call => exact good.call_exact call
  | exit why => exact iff_of_true (good.exit why) trivial

/-- Without registrations the exit list is empty. -/
theorem exitGood_empty : ExitGood {} where
  chain := rfl
  handlers := fun _ absent => by cases absent
  sorted := List.Pairwise.nil
  dated := fun _ absent => by cases absent

/--
A run of calls keeps the exit list in order exactly when each new handler finds its slot.

In order means that the items are linked in the order of the registrations not yet removed,
ascending by order byte and the latest first among equals, that each call answers accordingly, and
that an exit calls the handlers in this order.
-/
theorem exit_list_run_ordered_iff (events : List ExitEvent) :
    Runs.StaysGood exitStep ExitGood ExitDone {} events ↔
      Runs.Each exitStep ExitKeepsOrder {} events :=
  Runs.staysGood_iff_each (fun _ _ good (_ : True) => exitStep_exact good) exitGood_empty
    (Runs.each_of_forall (fun _ _ => trivial) events)

/-- Handlers of order bytes 1, 2 and again 1, in memory that was zero. -/
def zeroedRegistrations : List ExitEvent :=
  [.call ⟨0x0101, some 10, some ⟨0, 0, none⟩⟩, .call ⟨0x0201, some 20, some ⟨0, 0, none⟩⟩,
    .call ⟨0x0101, some 30, some ⟨0, 0, none⟩⟩]

/-- In zeroed memory a later handler of a smaller order byte is put behind the greater ones. -/
theorem zeroed_registrations_not_ordered :
    ¬ Runs.StaysGood exitStep ExitGood ExitDone {} zeroedRegistrations := by
  intro stays
  obtain ⟨t, ran⟩ := stays.ran
  have last : (Runs.runFrom exitStep {} zeroedRegistrations).map
      (fun b => (b.list.exitList, (b.regs.map Registration.item).head?)) =
        some (some 0, some 2) := by
    decide +kernel
  rw [ran, Option.map_some, Option.some.injEq, Prod.mk.injEq] at last
  -- The third handler is to run first, but the list starts with the first one.
  have head := Chain.head (stays.finish ran).chain
  rw [last.1, last.2] at head
  cases head

end TwoIne
