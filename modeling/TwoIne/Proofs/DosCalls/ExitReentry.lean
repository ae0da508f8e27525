import Mathlib.Data.List.TakeWhile
import TwoIne.Lib.Runs
import TwoIne.Proofs.DosCalls.ExitItems

/-!
Running the exit list while its handlers change it.

The loop saves the successor of an item before it calls the handler, and goes on there whatever the
handler did to the list.
-/

namespace TwoIne

open Cells Chains HeapLists

/-- What happens to the list: a call changes it, or the loop that runs it takes its next turn. -/
inductive ExitRunEvent where
  | call (call : ExitCall)
  | turn
  deriving DecidableEq, Repr

/--
The exit list of a process, with the successor that the loop has saved once it runs.

Next to it stands what became of each registration, by its item: an item lives from the call that
registers it until it is removed or run.
-/
structure ExitRun where
  list : ExitList := {}
  next : Option (Option Nat) := none
  finished : Bool := false
  registered : List Nat := []
  removed : List Nat := []
  ran : List Nat := []
  deriving DecidableEq, Repr

/-- What an event comes to. -/
inductive ExitRunAnswer where
  | ret (code : ApiRet)
  | runs (item fn : Nat)
  | ended
  | idle
  deriving DecidableEq, Repr

/-- The books after a call that changed the list: a registration more, or one that was removed. -/
def ExitRun.account (x : ExitRun) (call : ExitCall) (code : ApiRet) (list : ExitList) : ExitRun :=
  if code ≠ .noError then { x with list }
  else if exitCommand call.ordercode = exlstAdd then
    { x with list, registered := fresh x.list.items :: x.registered }
  else if exitCommand call.ordercode = exlstRemove then
    { x with list, removed := (call.fn.bind fun fn => exitItemOf fn x.list).toList ++ x.removed }
  else { x with list }

/-- One event; a turn reads the saved item, which is a fault once that was freed. -/
def exitRunStep (x : ExitRun) : ExitRunEvent → Option (ExitRun × ExitRunAnswer)
  | .call call =>
    match DosExitList call x.list with
    | none => none
    | some (list, code) => some (x.account call code list, .ret code)
  | .turn =>
    if x.finished then some (x, .idle)
    else
      match x.next.getD x.list.exitList with
      | none => some ({ x with finished := true }, .ended)
      | some item =>
        match read x.list.items item with
        | none => none
        | some cell =>
          let list := { items := free x.list.items item, exitList := cell.next }
          some ({ x with list, next := some cell.next, ran := item :: x.ran }, .runs item cell.fn)

/-- A registration whose handler was neither removed nor run. -/
def ExitRun.Pending (x : ExitRun) (item : Nat) : Prop :=
  item ∈ x.registered ∧ item ∉ x.removed ∧ item ∉ x.ran

/-- The handler of an item in memory. -/
def ExitRun.handlerOf (x : ExitRun) (item : Nat) : Option Nat :=
  (read x.list.items item).map ExitListItem.fn

/--
A run in which nothing is lost and nothing is run twice.

The list holds exactly the pending registrations, which are the items in memory. No handler was run
more than once, and none was run that had been removed.
-/
structure ExitRunGood (x : ExitRun) : Prop where
  listed : ∃ nodes, Chain (linkOf nextExitItem x.list.items) x.list.exitList nodes ∧
    ∀ i, i ∈ nodes ↔ x.Pending i
  memory : ∀ i, (read x.list.items i).isSome → x.Pending i
  bounded : ∀ i ∈ x.registered, i < fresh x.list.items
  known : ∀ i, i ∈ x.removed ∨ i ∈ x.ran → i ∈ x.registered
  once : x.registered.Nodup ∧ x.removed.Nodup ∧ x.ran.Nodup
  apart : ∀ i ∈ x.ran, i ∉ x.removed

/-- What a call does: a handler is registered, or a pending registration of it is removed. -/
def ExitRunCallDone (x : ExitRun) (call : ExitCall) (u : ExitRun) (code : ApiRet) : Prop :=
  (u.next = x.next ∧ u.finished = x.finished ∧ u.ran = x.ran) ∧
    ∀ fn, call.fn = some fn →
      (exitCommand call.ordercode = exlstAdd → call.malloc ≠ none →
        code = .noError ∧ u.handlerOf (fresh x.list.items) = some fn ∧
          u.registered = fresh x.list.items :: x.registered ∧ u.removed = x.removed) ∧
      (exitCommand call.ordercode = exlstRemove → exitOrder call.ordercode = 0 →
        (code = .noError ∧ ∃ i, x.Pending i ∧ x.handlerOf i = some fn ∧
          u.registered = x.registered ∧ u.removed = i :: x.removed) ∨
        (code = .errorInvalidFunction ∧ u = x ∧ ∀ i, x.Pending i → x.handlerOf i ≠ some fn))

/-- What an event does; a turn runs a pending handler, and the run only ends when none is left. -/
def ExitRunDone (x : ExitRun) (event : ExitRunEvent) (u : ExitRun) (out : ExitRunAnswer) : Prop :=
  match event, out with
  | .call call, .ret code => ExitRunCallDone x call u code
  | .turn, .runs item fn => x.Pending item ∧ x.handlerOf item = some fn
  | .turn, .ended => ∀ i, ¬ u.Pending i
  | .turn, .idle => u = x
  | _, _ => False

/--
When the handler returns, the list starts with the successor that was saved before it was called.

Nothing stands in front of it, and it was not removed.
-/
def KeepsSuccessor (x : ExitRun) : ExitRunEvent → Prop
  | .call _ => True
  | .turn => x.finished = false → ∀ next, x.next = some next → x.list.exitList = next

/-- The items that are listed once a pending registration is taken off the list. -/
theorem ExitRun.Pending.without {x : ExitRun} {front rest : List Nat} {a : Nat}
    (chain : Chain (linkOf nextExitItem x.list.items) x.list.exitList (front ++ a :: rest))
    (listed : ∀ i, i ∈ front ++ a :: rest ↔ x.Pending i) (i : Nat) :
    i ∈ front ++ rest ↔ x.Pending i ∧ i ≠ a := by
  have distinct := (List.nodup_cons.mp (List.nodup_middle.mp (Chain.nodup chain))).1
  rw [← listed i]
  constructor
  · intro member
    refine ⟨?_, fun same => distinct (same ▸ member)⟩
    rcases List.mem_append.mp member with member | member
    · exact List.mem_append_left _ member
    · exact List.mem_append_right _ (List.mem_cons_of_mem _ member)
  · rintro ⟨member, other⟩
    simpa [other] using member

namespace ExitRunGood

variable {x : ExitRun}

/-- A pending registration is in memory. -/
theorem found (good : ExitRunGood x) {i : Nat} (pending : x.Pending i) :
    ∃ cell, read x.list.items i = some cell := by
  obtain ⟨nodes, chain, listed⟩ := good.listed
  exact path_live chain ((listed i).mpr pending)

/-- Registering a handler puts it on the list. -/
theorem add (good : ExitRunGood x) (junk : ExitListItem) (fn order : Nat) :
    ∃ s', addExitItem (some junk) fn order x.list = some (s', .noError) ∧
      (read s'.items (fresh x.list.items)).map ExitListItem.fn = some fn ∧
      ExitRunGood { x with list := s', registered := fresh x.list.items :: x.registered } := by
  obtain ⟨nodes, chain, listed⟩ := good.listed
  -- The list is split where the walk stops.
  let below : Nat → Bool := fun i => (read x.list.items i).any fun cell => cell.priority < order
  have split := (List.takeWhile_append_dropWhile (p := below) (l := nodes)).symm
  rw [split] at chain
  obtain ⟨s', added, chain', kept, filled, size⟩ := addExitItem_chain junk fn order chain
    (fun i member cell found => by
      have passed := List.mem_takeWhile_imp member
      simpa [below, found] using passed)
    fun i first cell found => by
      have stops := List.head?_dropWhile_not below nodes
      rw [first] at stops
      simpa [below, found] using stops
  have new : fresh x.list.items ∉ x.registered := fun member =>
    Nat.lt_irrefl _ (good.bounded _ member)
  have unused : ∀ i, i ∈ x.removed ∨ i ∈ x.ran → i ≠ fresh x.list.items := by
    rintro i member rfl
    exact new (good.known _ member)
  have pending_iff : ∀ i, ({ x with
      list := s', registered := fresh x.list.items :: x.registered } : ExitRun).Pending i ↔
        i = fresh x.list.items ∨ x.Pending i := by
    intro i
    simp only [ExitRun.Pending, List.mem_cons]
    constructor
    · rintro ⟨rfl | member, kept, waiting⟩
      · exact Or.inl rfl
      · exact Or.inr ⟨member, kept, waiting⟩
    · rintro (rfl | ⟨member, kept, waiting⟩)
      · exact ⟨Or.inl rfl, fun gone => unused _ (Or.inl gone) rfl,
          fun gone => unused _ (Or.inr gone) rfl⟩
      · exact ⟨Or.inr member, kept, waiting⟩
  refine ⟨s', added, filled, ⟨⟨_, chain', fun i => ?_⟩, fun i live => ?_, fun i member => ?_,
    fun i member => List.mem_cons_of_mem _ (good.known i member),
    ⟨List.nodup_cons.mpr ⟨new, good.once.1⟩, good.once.2⟩, good.apart⟩⟩
  · rw [pending_iff, ← listed i]
    conv_rhs => rw [split]
    simp only [List.mem_append, List.mem_cons]
    tauto
  · rw [pending_iff]
    rcases eq_or_ne i (fresh x.list.items) with same | other
    · exact Or.inl same
    · have same : (read s'.items i).isSome = (read x.list.items i).isSome := by
        simpa using congrArg Option.isSome (kept i other)
      exact Or.inr (good.memory i (same ▸ live))
  · show i < fresh s'.items
    rw [size]
    rcases List.mem_cons.mp member with rfl | member
    · exact Nat.lt_succ_self _
    · exact Nat.lt_succ_of_lt (good.bounded i member)

/-- Removing a handler takes one registration of it off the list, if there is any. -/
theorem remove (good : ExitRunGood x) (fn : Nat) :
    (removeExitItem fn x.list = some (x.list, .errorInvalidFunction) ∧
      ∀ i, x.Pending i → x.handlerOf i ≠ some fn) ∨
    ∃ s' a, removeExitItem fn x.list = some (s', .noError) ∧ exitItemOf fn x.list = some a ∧
      x.Pending a ∧ x.handlerOf a = some fn ∧
      ExitRunGood { x with list := s', removed := a :: x.removed } := by
  obtain ⟨nodes, chain, listed⟩ := good.listed
  have live : ∀ i ∈ nodes, ∃ cell, read x.list.items i = some cell := fun i member =>
    path_live chain member
  by_cases absent : ∀ i ∈ nodes, x.handlerOf i ≠ some fn
  · refine Or.inl ⟨removeExitItem_none chain fun i member cell found => ?_, fun i pending =>
      absent i ((listed i).mpr pending)⟩
    have other := absent i member
    rw [ExitRun.handlerOf, found] at other
    simpa using other
  -- The walk stops at the first item of the handler.
  right
  simp only [not_forall, not_not] at absent
  obtain ⟨i, member, handles⟩ := absent
  obtain ⟨first, front, rest, others, chosen, rfl, _⟩ :=
    List.exists_of_eraseP (p := fun i => decide (x.handlerOf i = some fn)) member (by simp [handles])
  simp only [decide_eq_true_eq] at others chosen
  obtain ⟨cell, found⟩ := live first (by simp)
  have same : cell.fn = fn := by
    rw [ExitRun.handlerOf, found] at chosen
    simpa using chosen
  obtain ⟨walked, s', removed, chain', kept, gone, size⟩ := removeExitItem_chain chain
    (fun j member cell found => by
      have other := others j member
      rw [ExitRun.handlerOf, found] at other
      simpa using other) found same
  have waiting : x.Pending first := (listed first).mp (by simp)
  have left := ExitRun.Pending.without chain listed
  have pending_iff : ∀ i, ({ x with list := s', removed := first :: x.removed } : ExitRun).Pending i ↔
      x.Pending i ∧ i ≠ first := by
    intro i
    simp only [ExitRun.Pending, List.mem_cons, not_or]
    tauto
  refine ⟨s', first, removed, walked, waiting, chosen,
    ⟨⟨front ++ rest, chain', fun i => (left i).trans (pending_iff i).symm⟩, fun i alive => ?_,
    fun i member => ?_, fun i member => ?_, ⟨good.once.1, ?_, good.once.2.2⟩, fun i member => ?_⟩⟩
  · rw [pending_iff]
    have other : i ≠ first := by
      rintro rfl
      have dead : (read s'.items i).isSome = true := alive
      rw [gone] at dead
      simp at dead
    have same : (read s'.items i).isSome = (read x.list.items i).isSome := by
      simpa using congrArg Option.isSome (kept i other)
    exact ⟨good.memory i (same ▸ alive), other⟩
  · show i < fresh s'.items
    rw [size]
    exact good.bounded i member
  · rcases member with member | member
    · rcases List.mem_cons.mp member with rfl | member
      · exact waiting.1
      · exact good.known i (Or.inl member)
    · exact good.known i (Or.inr member)
  · exact List.nodup_cons.mpr ⟨waiting.2.1, good.once.2.1⟩
  · simp only [List.mem_cons, not_or]
    exact ⟨fun same => waiting.2.2 (same ▸ member), good.apart i member⟩

/-- A call that is refused, or has nothing to do, leaves the books as they were. -/
theorem unchanged (good : ExitRunGood x) {call : ExitCall} (code : ApiRet)
    (answer : DosExitList call x.list = some (x.list, code))
    (nothing : code ≠ .noError ∨
      exitCommand call.ordercode ≠ exlstAdd ∧ exitCommand call.ordercode ≠ exlstRemove)
    (done : ExitRunCallDone x call x code) :
    ∃ u out, exitRunStep x (.call call) = some (u, out) ∧ ExitRunDone x (.call call) u out ∧
      ExitRunGood u := by
  have same : x.account call code x.list = x := by
    unfold ExitRun.account
    rcases nothing with failed | ⟨not_add, not_remove⟩
    · rw [if_pos failed]
    · simp only [if_neg not_add, if_neg not_remove, ite_self]
  refine ⟨x, .ret code, ?_, done, good⟩
  simp only [exitRunStep, answer, same]

/-- A call of a handler never goes wrong by itself. -/
theorem call (good : ExitRunGood x) (call : ExitCall) :
    ∃ u out, exitRunStep x (.call call) = some (u, out) ∧ ExitRunDone x (.call call) u out ∧
      ExitRunGood u := by
  cases handler : call.fn with
  | none =>
    refine good.unchanged .errorInvalidFunction (by simp [DosExitList, handler])
      (Or.inl (by decide)) ⟨⟨rfl, rfl, rfl⟩, fun fn some => ?_⟩
    simp [handler] at some
  | some fn =>
    by_cases add : exitCommand call.ordercode = exlstAdd
    · -- A handler is registered, when there is memory for it.
      have not_remove : exitCommand call.ordercode ≠ exlstRemove := by
        rw [add]
        decide
      cases memory : call.malloc with
      | none =>
        refine good.unchanged .errorNotEnoughMemory
          (by simp [DosExitList, handler, add, memory, addExitItem]) (Or.inl (by decide))
          ⟨⟨rfl, rfl, rfl⟩, fun fn' _ => ⟨fun _ asked => absurd memory asked, fun remove => ?_⟩⟩
        exact absurd remove not_remove
      | some junk =>
        obtain ⟨s', added, filled, good'⟩ := good.add junk fn (exitOrder call.ordercode)
        have answer : DosExitList call x.list = some (s', .noError) := by
          simp [DosExitList, handler, add, memory, added]
        have account : x.account call .noError s' =
            { x with list := s', registered := fresh x.list.items :: x.registered } := by
          simp [ExitRun.account, add]
        refine ⟨_, .ret .noError, by simp only [exitRunStep, answer]; rfl, ?_, ?_⟩
        · rw [account]
          refine ⟨⟨rfl, rfl, rfl⟩, fun fn' same => ⟨fun _ _ => ⟨rfl, ?_, rfl, rfl⟩, fun remove => ?_⟩⟩
          · cases handler.symm.trans same
            exact filled
          · exact absurd remove not_remove
        · rw [account]
          exact good'
    · by_cases remove : exitCommand call.ordercode = exlstRemove
      · -- A registration of the handler is removed, when there is one.
        by_cases order : exitOrder call.ordercode = 0
        · have run : DosExitList call x.list = removeExitItem fn x.list := by
            simp [DosExitList, handler, remove, order, exlstAdd, exlstRemove]
          rcases good.remove fn with ⟨absent, others⟩ | ⟨s', a, removed, walked, waiting, handles, good'⟩
          · refine good.unchanged _ (run.trans absent) (Or.inl (by decide))
              ⟨⟨rfl, rfl, rfl⟩, fun fn' same => ⟨fun again => absurd again add, fun _ _ => Or.inr ?_⟩⟩
            cases handler.symm.trans same
            exact ⟨rfl, rfl, others⟩
          · have not_add : exlstRemove ≠ exlstAdd := by decide
            have account : x.account call .noError s' =
                { x with list := s', removed := a :: x.removed } := by
              simp [ExitRun.account, remove, not_add, handler, walked]
            refine ⟨_, .ret .noError, by simp only [exitRunStep, run, removed]; rfl, ?_, ?_⟩
            · rw [account]
              refine ⟨⟨rfl, rfl, rfl⟩, fun fn' same => ⟨fun again => absurd again add, fun _ _ =>
                Or.inl ⟨rfl, a, waiting, ?_, rfl, rfl⟩⟩⟩
              rw [handles, ← handler, same]
            · rw [account]
              exact good'
        · refine good.unchanged .errorInvalidData
            (by simp [DosExitList, handler, remove, order, exlstAdd, exlstRemove])
            (Or.inl (by decide)) ⟨⟨rfl, rfl, rfl⟩, fun fn' _ => ⟨fun again => absurd again add,
              fun _ none => absurd none order⟩⟩
      · -- Every other command changes nothing.
        have done : ∀ code, ExitRunCallDone x call x code := fun code =>
          ⟨⟨rfl, rfl, rfl⟩, fun fn' _ => ⟨fun again => absurd again add, fun again =>
            absurd again remove⟩⟩
        have answer : ∃ code, DosExitList call x.list = some (x.list, code) := by
          simp only [DosExitList, handler, if_neg add, if_neg remove]
          split
          · exact ⟨_, rfl⟩
          · split <;> exact ⟨_, rfl⟩
        obtain ⟨code, answer⟩ := answer
        exact good.unchanged code answer (Or.inr ⟨add, remove⟩) (done code)

/-- A turn is right exactly when the list starts with the successor that the loop has saved. -/
theorem turn (good : ExitRunGood x) :
    (∃ u out, exitRunStep x .turn = some (u, out) ∧ ExitRunDone x .turn u out ∧ ExitRunGood u) ↔
      KeepsSuccessor x .turn := by
  obtain ⟨nodes, chain, listed⟩ := good.listed
  have head := Chain.head chain
  by_cases finished : x.finished = true
  · -- After the run there are no more turns.
    refine ⟨fun _ running => absurd finished (by simp [running]), fun _ => ⟨x, .idle, ?_, rfl, good⟩⟩
    simp only [exitRunStep, finished, if_true]
  have running : x.finished = false := by simpa using finished
  -- The condition says that the turn takes the first item of the list.
  have starts_iff : KeepsSuccessor x .turn ↔ x.next.getD x.list.exitList = x.list.exitList := by
    unfold KeepsSuccessor
    cases saved : x.next with
    | none => simp
    | some next =>
      simp only [running, Option.some.injEq, forall_eq', Option.getD_some, true_implies]
      exact eq_comm
  rw [starts_iff]
  simp only [exitRunStep, running, Bool.false_eq_true, if_false]
  cases item : x.next.getD x.list.exitList with
  | none =>
    have ended : (∀ i, ¬ ({ x with finished := true } : ExitRun).Pending i) ↔ x.list.exitList = none := by
      rw [head, List.head?_eq_none_iff, List.eq_nil_iff_forall_not_mem]
      exact forall_congr' fun i => not_congr (listed i).symm
    constructor
    · rintro ⟨u, out, stepped, done, _⟩
      cases stepped
      exact (ended.mp done).symm
    · intro starts
      exact ⟨_, _, rfl, ended.mpr starts.symm, ⟨⟨nodes, chain, listed⟩, good.memory, good.bounded,
        good.known, good.once, good.apart⟩⟩
  | some a =>
    cases found : read x.list.items a with
    | none =>
      -- The saved item was freed, so the list does not start with it.
      simp only [found]
      refine ⟨?_, fun starts => ?_⟩
      · rintro ⟨_, _, impossible, _⟩
        simp at impossible
      · have member : a ∈ nodes := List.mem_of_head? (head ▸ starts.symm)
        obtain ⟨cell, live⟩ := path_live chain member
        rw [found] at live
        simp at live
    | some cell =>
      simp only [found]
      have waiting : x.Pending a := good.memory a (by simp [found])
      obtain ⟨front, rest, rfl⟩ := List.append_of_mem ((listed a).mpr waiting)
      have left := ExitRun.Pending.without chain listed
      have distinct := List.nodup_append.mp (Chain.nodup chain)
      have first_iff : some a = x.list.exitList ↔ front = [] := by
        rw [head]
        cases front with
        | nil => simp
        | cons b front =>
          have other : a ≠ b := fun same => distinct.2.2 b List.mem_cons_self a List.mem_cons_self same.symm
          simp [other]
      -- Freeing the item leaves what stands behind it.
      let u : ExitRun := { x with
        list := { items := free x.list.items a, exitList := cell.next }
        next := some cell.next
        finished := false
        ran := a :: x.ran }
      have pending_iff : ∀ i, u.Pending i ↔ i ∈ front ++ rest := by
        intro i
        rw [left]
        simp only [u, ExitRun.Pending, List.mem_cons, not_or]
        tauto
      have tail : Chain (linkOf nextExitItem u.list.items) u.list.exitList rest := by
        obtain ⟨r, _, linked, tail⟩ := Chain.split chain
        simp only [linkOf, found, Option.map_some, Option.some.injEq] at linked
        subst linked
        refine Seg.frame tail fun i member => ?_
        have other : i ≠ a := fun same => (List.nodup_cons.mp distinct.2.1).1 (same ▸ member)
        rw [linkOf, linkOf, read_free_ne other]
      rw [first_iff]
      constructor
      · rintro ⟨v, out, stepped, _, good'⟩
        cases stepped
        -- What stood in front of the item is still pending, but not on the list any more.
        obtain ⟨nodes, chain', listed'⟩ := good'.listed
        cases Chain.unique chain' tail
        refine List.eq_nil_iff_forall_not_mem.mpr fun i member => ?_
        have behind := (listed' i).mpr ((pending_iff i).mpr (List.mem_append_left _ member))
        exact distinct.2.2 i member i (List.mem_cons_of_mem _ behind) rfl
      · rintro rfl
        refine ⟨u, .runs a cell.fn, rfl, ⟨waiting, by simp [ExitRun.handlerOf, found]⟩,
          ⟨rest, tail, fun i => (pending_iff i).symm⟩, fun i alive => ?_, fun i member => ?_,
          fun i member => ?_, ⟨good.once.1, good.once.2.1, ?_⟩, fun i member => ?_⟩
        · have other : i ≠ a := by
            rintro rfl
            simp [u] at alive
          rw [pending_iff, left]
          refine ⟨good.memory i ?_, other⟩
          rwa [← read_free_ne other]
        · show i < fresh (free x.list.items a)
          rw [fresh_free]
          exact good.bounded i member
        · rcases member with member | member
          · exact good.known i (Or.inl member)
          · rcases List.mem_cons.mp member with rfl | member
            · exact waiting.1
            · exact good.known i (Or.inr member)
        · exact List.nodup_cons.mpr ⟨waiting.2.2, good.once.2.2⟩
        · rcases List.mem_cons.mp member with rfl | member
          · exact waiting.2.1
          · exact good.apart i member

end ExitRunGood

/-- An event is right exactly when it meets its condition. -/
theorem exitRunStep_exact {x : ExitRun} {event : ExitRunEvent} (good : ExitRunGood x) :
    (∃ u out, exitRunStep x event = some (u, out) ∧ ExitRunDone x event u out ∧ ExitRunGood u) ↔
      KeepsSuccessor x event := by
  cases event with
  | call call => exact ⟨fun _ => trivial, fun _ => good.call call⟩
  | turn => exact good.turn

/-- Before anything is registered, nothing is lost. -/
theorem exitRunGood_start : ExitRunGood {} where
  listed := ⟨[], rfl, fun i => by simp [ExitRun.Pending]⟩
  memory := fun i alive => by simp [Cells.read] at alive
  bounded := fun _ absent => by cases absent
  known := fun _ absent => by rcases absent with absent | absent <;> cases absent
  once := ⟨List.nodup_nil, List.nodup_nil, List.nodup_nil⟩
  apart := fun _ absent => by cases absent

/--
Handlers may change the exit list while it is run exactly as long as they keep its successor.

Right means that no item is used after it was freed, no registration is run twice or after it was
removed, none is lost from the list, and the run only ends when none is left.
-/
theorem exit_list_run_reentrant_iff (events : List ExitRunEvent) :
    Runs.StaysGood exitRunStep ExitRunGood ExitRunDone {} events ↔
      Runs.Each exitRunStep KeepsSuccessor {} events :=
  Runs.staysGood_iff_each (fun _ _ good (_ : True) => exitRunStep_exact good) exitRunGood_start
    (Runs.each_of_forall (fun _ _ => trivial) events)

/-- The events of running the list: each handler that is run makes the calls of its script. -/
def exitRunEvents : Nat → List (List ExitCall) → List ExitRunEvent
  | 0, _ => [.turn]
  | handlers + 1, scripts =>
    .turn :: (scripts.headD []).map .call ++ exitRunEvents handlers scripts.tail

/-- The calls of a handler are events that leave the saved successor as it is. -/
theorem runExitCalls_events {calls : List ExitCall} {x : ExitRun} {list : ExitList}
    (ran : runExitCalls calls x.list = some list) :
    ∃ u, Runs.runFrom exitRunStep x (calls.map .call) = some u ∧ u.list = list ∧
      u.next = x.next ∧ u.finished = x.finished := by
  -- The calls are taken one after the other.
  induction calls generalizing x with
  | nil =>
    cases ran
    exact ⟨x, rfl, rfl, rfl, rfl⟩
  | cons call rest ih =>
    simp only [runExitCalls] at ran
    cases answer : DosExitList call x.list with
    | none => simp [answer] at ran
    | some answered =>
      obtain ⟨list', code⟩ := answered
      simp only [answer] at ran
      have books : (x.account call code list').list = list' ∧
          (x.account call code list').next = x.next ∧
          (x.account call code list').finished = x.finished := by
        unfold ExitRun.account
        split
        · exact ⟨rfl, rfl, rfl⟩
        · split
          · exact ⟨rfl, rfl, rfl⟩
          · split <;> exact ⟨rfl, rfl, rfl⟩
      rw [← books.1] at ran
      obtain ⟨u, run, same, saved, ends⟩ := ih ran
      refine ⟨u, ?_, same, saved.trans books.2.1, ends.trans books.2.2⟩
      simpa only [List.map_cons, Runs.runFrom, exitRunStep, answer] using run

/-- Running the exit list is the run of its events. -/
theorem runExitItems_events {why steps : Nat} {scripts : List (List ExitCall)} {x : ExitRun}
    {list : ExitList} {called : List (Nat × Nat)} (running : x.finished = false)
    (ran : runExitItems why steps scripts (x.next.getD x.list.exitList) x.list =
      some (list, called)) :
    ∃ u, Runs.runFrom exitRunStep x (exitRunEvents called.length scripts) = some u ∧
      u.list = list ∧ u.finished = true := by
  -- The induction is on the steps that the loop may take.
  induction steps generalizing x scripts list called with
  | zero => simp [runExitItems] at ran
  | succ steps ih =>
    cases item : x.next.getD x.list.exitList with
    | none =>
      rw [item] at ran
      cases ran
      exact ⟨{ x with finished := true }, by simp [exitRunEvents, Runs.runFrom, exitRunStep, running,
        item], rfl, rfl⟩
    | some a =>
      rw [item] at ran
      simp only [runExitItems] at ran
      cases found : read x.list.items a with
      | none => simp [found] at ran
      | some cell =>
        simp only [found] at ran
        cases calls : runExitCalls (scripts.headD [])
            { items := free x.list.items a, exitList := cell.next } with
        | none =>
          rw [calls] at ran
          cases ran
        | some after =>
          simp only [calls] at ran
          cases rest : runExitItems why steps scripts.tail cell.next after with
          | none => simp [rest] at ran
          | some done =>
            simp only [rest] at ran
            cases ran
            -- The handler is called once its item was taken off and freed.
            let taken : ExitRun := { x with
              list := { items := free x.list.items a, exitList := cell.next }
              next := some cell.next
              ran := a :: x.ran }
            obtain ⟨v, run, same, saved, ends⟩ := runExitCalls_events (x := taken) calls
            have onwards : v.next.getD v.list.exitList = cell.next := by
              rw [saved]
              rfl
            rw [← onwards, ← same] at rest
            obtain ⟨u, run', final, ended⟩ := ih (ends.trans running) rest
            refine ⟨u, ?_, final, ended⟩
            have first : exitRunStep x .turn = some (taken, .runs a cell.fn) := by
              simp only [exitRunStep, running, item, found, taken, Bool.false_eq_true, if_false]
            simp only [List.length_cons, exitRunEvents, List.cons_append, Runs.runFrom, first]
            rw [Runs.runFrom_append, run]
            exact run'

/-- The first of two handlers removes the second one, whose item the loop has saved. -/
def removingSuccessor : List ExitRunEvent :=
  [.call ⟨0x0001, some 20, some ⟨0, 0, none⟩⟩, .call ⟨0x0001, some 10, some ⟨0, 0, none⟩⟩,
    .turn, .call ⟨0x0002, some 20, none⟩, .turn]

/-- The loop goes on at the item that was freed. -/
theorem removing_successor_goes_wrong :
    ¬ Runs.StaysGood exitRunStep ExitRunGood ExitRunDone {} removingSuccessor := by
  intro stays
  obtain ⟨t, ran⟩ := stays.ran
  have faults : Runs.runFrom exitRunStep {} removingSuccessor = none := by decide +kernel
  rw [faults] at ran
  simp at ran

end TwoIne
