import Mathlib.Data.List.ReduceOption
import TwoIne.Lib.Dependencies
import TwoIne.Lib.Outcomes
import TwoIne.LxLoader.Modules

/-! The invariant of the module list, and what dropping a reference to a module does to it. -/

namespace TwoIne

open Cells HeapLists Chains Dependencies Outcomes

/-- The modules that the filled slots of a module point to. -/
def dependenciesOf (modules : Heap LxModule) (p : Nat) : List Nat :=
  match read modules p with
  | none => []
  | some m => m.dependencies.reduceOption

/-- The references that exist: those held outside of any module, and those in the slots of the owners. -/
def referencesTo (modules : Heap LxModule) (owners held : List Nat) : List Nat :=
  held ++ references (dependenciesOf modules) owners

/--
The invariant of the module list.

`order` lists the modules on the list, `outside` those that are complete or under construction but not on it,
and `held` the references to listed modules that no slot accounts for.
-/
structure Registry (s : Loader) (order outside held : List Nat) : Prop where
  listed : Dll (linkOf LxModule.next s.modules) (linkOf LxModule.prev s.modules) s.loadedModules order
  distinct : (outside ++ order).Nodup
  layered : Layered (dependenciesOf s.modules) order
  needs : ∀ p ∈ outside, ∀ q ∈ dependenciesOf s.modules p, q ∈ order
  held_listed : ∀ p ∈ held, p ∈ order
  counted : ∀ p ∈ order, ∃ m, read s.modules p = some m ∧ m.initialized = true ∧
    m.refcount = (referencesTo s.modules (outside ++ order) held).count p ∧ m.refcount < 2 ^ 32
  single : ∀ p ∈ outside, ∃ m, read s.modules p = some m ∧ m.refcount = 1 ∧
    m.prev = none ∧ m.next = none
  main : ∀ p, s.mainModule = some p → p ∈ outside

/-- Two records of one module that differ at most in its references and links. -/
def SameModule (m n : LxModule) : Prop :=
  n = { m with refcount := n.refcount, prev := n.prev, next := n.next }

/-- Whether a module has code that runs when it is released. -/
def LxModule.hasTermination (m : LxModule) : Bool :=
  if m.nativelib then m.nativeDeinit else m.isLx && m.eipObject ≠ 0

/-- Whether the module in the given cell has code that runs when it is released. -/
def terminates (modules : Heap LxModule) (p : Nat) : Bool := (read modules p).any LxModule.hasTermination

/-- The modules whose termination code ran, in order. -/
def terminatedIn (events : List ModuleEvent) : List Nat :=
  events.filterMap fun
    | .terminated p => some p
    | _ => none

/-- The modules that were freed, in order. -/
def freedIn (events : List ModuleEvent) : List Nat :=
  events.filterMap fun
    | .freed p => some p
    | _ => none

/-- A list of owners holds the references of their slots. -/
theorem count_referencesTo (modules : Heap LxModule) (owners held : List Nat) (p : Nat) :
    (referencesTo modules owners held).count p =
      held.count p + (references (dependenciesOf modules) owners).count p := List.count_append

/-- The slots of a module depend on its record alone. -/
theorem dependenciesOf_eq {modules : Heap LxModule} {p : Nat} {m : LxModule}
    (found : read modules p = some m) : dependenciesOf modules p = m.dependencies.reduceOption := by
  simp [dependenciesOf, found]

/-- The slots of a module are the same in two heaps that have the same record of it. -/
theorem dependenciesOf_congr {modules other : Heap LxModule} {p : Nat}
    (same : read other p = read modules p) : dependenciesOf other p = dependenciesOf modules p := by
  simp [dependenciesOf, same]

namespace SameModule

variable {m n k : LxModule}

/-- A record is one of its own module. -/
theorem refl (m : LxModule) : SameModule m m := rfl

/-- Records of one module are records of one module. -/
theorem trans (first : SameModule m n) (second : SameModule n k) : SameModule m k := by
  unfold SameModule at first second ⊢
  rw [second, first]

/-- The slots of a module are not part of its links. -/
theorem dependencies (same : SameModule m n) : n.dependencies = m.dependencies := by
  rw [same]

/-- Neither is whether it is initialised. -/
theorem initialized (same : SameModule m n) : n.initialized = m.initialized := by
  rw [same]

/-- Neither is what runs when it is released. -/
theorem hasTermination (same : SameModule m n) : n.hasTermination = m.hasTermination := by
  rw [same]
  rfl

end SameModule

/-- Every heap cell of one heap is a record of the same module in the other. -/
def SameModules (modules other : Heap LxModule) (p : Nat) : Prop :=
  ∀ m, read modules p = some m → ∃ n, read other p = some n ∧ SameModule m n

section

variable {s t : Loader} {order outside held front rest : List Nat} {p : Nat} {m : LxModule}

/-- A module on the list or outside of it is in memory. -/
theorem Registry.found (reg : Registry s order outside held) (member : p ∈ outside ++ order) :
    ∃ m, read s.modules p = some m := by
  rcases List.mem_append.mp member with member | member
  · obtain ⟨m, found, _⟩ := reg.single p member
    exact ⟨m, found⟩
  · obtain ⟨m, found, _⟩ := reg.counted p member
    exact ⟨m, found⟩

/-- There are no more modules on the list than there are cells. -/
theorem Registry.length_le (reg : Registry s order outside held) :
    (outside ++ order).length ≤ fresh s.modules := by
  have inside : outside ++ order ⊆ List.range (fresh s.modules) := by
    intro p member
    obtain ⟨m, found⟩ := reg.found member
    exact List.mem_range.mpr (read_lt_fresh found)
  simpa using reg.distinct.length_le_of_subset inside

/-- The modules that an owner depends on are on the list. -/
theorem Registry.depends_listed (reg : Registry s order outside held) {q : Nat}
    (owner : p ∈ outside ++ order) (depends : q ∈ dependenciesOf s.modules p) : q ∈ order := by
  rcases List.mem_append.mp owner with member | member
  · exact reg.needs p member q depends
  · exact reg.layered.closed member depends

/-- The invariant only depends on the owners, the head of the list and the program. -/
theorem Registry.frame (reg : Registry s order outside held)
    (same : ∀ p ∈ outside ++ order, read t.modules p = read s.modules p)
    (head : t.loadedModules = s.loadedModules) (main : t.mainModule = s.mainModule) :
    Registry t order outside held := by
  have listed : ∀ p ∈ order, read t.modules p = read s.modules p := fun p member =>
    same p (List.mem_append_right _ member)
  have apart : ∀ p ∈ outside, read t.modules p = read s.modules p := fun p member =>
    same p (List.mem_append_left _ member)
  have slots : ∀ p ∈ outside ++ order, dependenciesOf t.modules p = dependenciesOf s.modules p :=
    fun p member => dependenciesOf_congr (same p member)
  constructor
  · rw [head]
    exact reg.listed.frame (fun p member => by simp [linkOf, listed p member])
      fun p member => by simp [linkOf, listed p member]
  · exact reg.distinct
  · exact reg.layered.congr fun p member => slots p (List.mem_append_right _ member)
  · intro p member q depends
    rw [slots p (List.mem_append_left _ member)] at depends
    exact reg.needs p member q depends
  · exact reg.held_listed
  · intro p member
    obtain ⟨m, found, ready, count, small⟩ := reg.counted p member
    refine ⟨m, (listed p member).trans found, ready, ?_, small⟩
    rw [count, referencesTo, referencesTo, references_congr slots]
  · intro p member
    rw [apart p member]
    exact reg.single p member
  · rw [main]
    exact reg.main

/-- Writing a record of the same module leaves the slots of every module. -/
theorem dependenciesOf_put (found : read s.modules p = some m) {n : LxModule}
    (same : n.dependencies = m.dependencies) (q : Nat) :
    dependenciesOf (s.put p n).modules q = dependenciesOf s.modules q := by
  rcases eq_or_ne q p with rfl | other
  · simp [dependenciesOf, Loader.put, read_write_self n found, found, same]
  · exact dependenciesOf_congr (read_write_ne n other)

/-- Recounting a listed module, when the references held outside of any module change. -/
theorem Registry.recount (reg : Registry s order outside held) (member : p ∈ order)
    (found : read s.modules p = some m) {held' : List Nat} {count : Nat}
    (held_listed : ∀ q ∈ held', q ∈ order) (others : ∀ q, q ≠ p → held'.count q = held.count q)
    (recounted : count = (referencesTo s.modules (outside ++ order) held').count p)
    (small : count < 2 ^ 32) :
    Registry (s.put p { m with refcount := count }) order outside held' := by
  have slots := dependenciesOf_put (n := { m with refcount := count }) found rfl
  have kept : references (dependenciesOf (s.put p { m with refcount := count }).modules)
      (outside ++ order) = references (dependenciesOf s.modules) (outside ++ order) :=
    references_congr fun q _ => slots q
  have read_other : ∀ q, q ≠ p →
      read (s.put p { m with refcount := count }).modules q = read s.modules q := fun q other =>
    read_write_ne _ other
  have distinct := List.nodup_append.mp reg.distinct
  constructor
  · -- The links are as they were.
    refine reg.listed.frame (fun q _ => ?_) fun q _ => ?_
    all_goals
      rw [Loader.put, linkOf_write found]
      split
      · next same => simp [same, linkOf, found]
      · rfl
  · exact reg.distinct
  · exact reg.layered.congr fun q _ => slots q
  · intro q member r depends
    rw [slots q] at depends
    exact reg.needs q member r depends
  · exact held_listed
  · intro q listed
    obtain ⟨n, found', ready, counted, small'⟩ := reg.counted q listed
    rcases eq_or_ne q p with rfl | other
    · cases found.symm.trans found'
      refine ⟨_, read_write_self _ found, ready, ?_, small⟩
      rw [count_referencesTo, kept, ← count_referencesTo]
      exact recounted
    · refine ⟨n, (read_other q other).trans found', ready, ?_, small'⟩
      rw [counted, count_referencesTo, count_referencesTo, kept, others q other]
  · intro q member'
    obtain ⟨n, found', rest⟩ := reg.single q member'
    have other : q ≠ p := distinct.2.2 q member' p member
    exact ⟨n, (read_other q other).trans found', rest⟩
  · exact reg.main

/-- A module that nothing refers to is neither held nor depended on. -/
theorem unreferenced {modules : Heap LxModule} {owners : List Nat}
    (none : (referencesTo modules owners held).count p = 0) :
    p ∉ held ∧ ∀ q ∈ owners, p ∉ dependenciesOf modules q := by
  have absent := List.count_eq_zero.mp none
  simp only [referencesTo, List.mem_append, mem_references, not_or, not_exists, not_and] at absent
  exact absent

/-- A state that differs from another at most in the records of modules and the head of the list. -/
structure Quiet (s t : Loader) : Prop where
  mainModule : t.mainModule = s.mainModule
  running : t.running = s.running
  events : t.events = s.events
  fresh : fresh t.modules = fresh s.modules

/-- Changing a module that is in memory works. -/
theorem modify_eq (found : read s.modules p = some m) (change : LxModule → LxModule) :
    s.modify p change = .ok (s.put p (change m)) := by
  simp [Loader.modify, Loader.get, found, bind, Except.bind, pure, Except.pure]

/-- Writing a module is quiet. -/
theorem quiet_put (s : Loader) (p : Nat) (m : LxModule) : Quiet s (s.put p m) :=
  ⟨rfl, rfl, rfl, fresh_write _ _ _⟩

/-- The record of a module after the module `m` was taken out of the list. -/
def LxModule.bypass (m : LxModule) (q : Nat) (n : LxModule) : LxModule :=
  { n with
    prev := if m.next = some q then m.prev else n.prev
    next := if m.prev = some q then m.next else n.next }

/-- Setting a predecessor is quiet and changes that one link. -/
theorem setPrev_spec {p : Option Nat} (prev : Option Nat)
    (live : ∀ q, p = some q → ∃ n, read s.modules q = some n) :
    ∃ t, setPrev p prev s = .ok t ∧ Quiet s t ∧
      (∀ q, read t.modules q = (read s.modules q).map fun n =>
        { n with prev := if p = some q then prev else n.prev }) ∧
      t.loadedModules = s.loadedModules := by
  cases p with
  | none => exact ⟨s, rfl, ⟨rfl, rfl, rfl, rfl⟩, fun q => by simp, rfl⟩
  | some p =>
    obtain ⟨n, found⟩ := live p rfl
    refine ⟨_, modify_eq found _, quiet_put .., fun q => ?_, rfl⟩
    rcases eq_or_ne q p with rfl | other
    · simp [Loader.put, read_write_self _ found, found]
    · simp [Loader.put, read_write_ne _ other, Ne.symm other]

/-- Setting a successor is quiet and changes that one link. -/
theorem setNext_spec {p : Option Nat} (next : Option Nat)
    (live : ∀ q, p = some q → ∃ n, read s.modules q = some n) :
    ∃ t, setNext p next s = .ok t ∧ Quiet s t ∧
      (∀ q, read t.modules q = (read s.modules q).map fun n =>
        { n with next := if p = some q then next else n.next }) ∧
      t.loadedModules = s.loadedModules := by
  cases p with
  | none => exact ⟨s, rfl, ⟨rfl, rfl, rfl, rfl⟩, fun q => by simp, rfl⟩
  | some p =>
    obtain ⟨n, found⟩ := live p rfl
    refine ⟨_, modify_eq found _, quiet_put .., fun q => ?_, rfl⟩
    rcases eq_or_ne q p with rfl | other
    · simp [Loader.put, read_write_self _ found, found]
    · simp [Loader.put, read_write_ne _ other, Ne.symm other]

/-- Unlinking a module whose neighbours are in memory changes their links alone. -/
theorem unlinkModule_spec (nexts : ∀ q, m.next = some q → ∃ n, read s.modules q = some n)
    (prevs : ∀ q, m.prev = some q → ∃ n, read s.modules q = some n) :
    ∃ t, unlinkModule p m s = .ok t ∧ Quiet s t ∧
      (∀ q, read t.modules q = (read s.modules q).map (m.bypass q)) ∧
      t.loadedModules = if s.loadedModules = some p then m.next else s.loadedModules := by
  -- The successor gets a new predecessor.
  obtain ⟨u, stepped, quiet, reads, head⟩ := setPrev_spec m.prev nexts
  -- The predecessor gets a new successor.
  obtain ⟨v, stepped', quiet', reads', head'⟩ := @setNext_spec u m.prev m.next fun q before => by
    obtain ⟨n, found⟩ := prevs q before
    exact ⟨_, by rw [reads q, found, Option.map_some]⟩
  have reads_both : ∀ q, read v.modules q = (read s.modules q).map (m.bypass q) := by
    intro q
    rw [reads' q, reads q, Option.map_map]
    rfl
  refine ⟨if v.loadedModules = some p then { v with loadedModules := m.next } else v, ?_, ?_, ?_, ?_⟩
  · simp only [unlinkModule, stepped, stepped', bind, Except.bind, pure, Except.pure]
  · split
    all_goals exact ⟨quiet'.mainModule.trans quiet.mainModule, quiet'.running.trans quiet.running,
      quiet'.events.trans quiet.events, quiet'.fresh.trans quiet.fresh⟩
  · split <;> exact reads_both
  · rw [head', head]
    split
    · rfl
    · exact head'.trans head

/-- Taking a module off the list that nothing refers to leaves its own references behind. -/
theorem Registry.unlink (reg : Registry s (front ++ p :: rest) outside held)
    (found : read s.modules p = some { m with refcount := 0 })
    (unused : (referencesTo s.modules (outside ++ (front ++ p :: rest)) held).count p = 0) :
    ∃ t, unlinkModule p m s = .ok t ∧ Quiet s t ∧
      Registry t (front ++ rest) outside (m.dependencies.reverse.reduceOption ++ held) ∧
      (∀ q, q ∉ front ++ rest → read t.modules q = read s.modules q) ∧
      ∀ q, SameModules s.modules t.modules q := by
  obtain ⟨not_held, not_needed⟩ := unreferenced unused
  have next := Chain.next reg.listed.forth
  have prev := reg.listed.prev
  simp only [linkOf, found, Option.map_some, Option.some.injEq] at next prev
  have next_listed : ∀ q, m.next = some q → q ∈ rest := fun q after =>
    List.mem_of_head? (next ▸ after)
  have prev_listed : ∀ q, m.prev = some q → q ∈ front := fun q before =>
    List.mem_of_getLast? (prev ▸ before)
  obtain ⟨t, stepped, quiet, reads, head⟩ := unlinkModule_spec (p := p) (m := m) (s := s)
    (fun q after => reg.found (by simp [next_listed q after]))
    (fun q before => reg.found (by simp [prev_listed q before]))
  have untouched : ∀ q, q ∉ front ++ rest → read t.modules q = read s.modules q := by
    intro q away
    have not_next : m.next ≠ some q := fun after => away (by simp [next_listed q after])
    have not_prev : m.prev ≠ some q := fun before => away (by simp [prev_listed q before])
    rw [reads q]
    cases read s.modules q <;> simp [LxModule.bypass, not_next, not_prev]
  have same : ∀ q, SameModules s.modules t.modules q := by
    intro q n found'
    exact ⟨m.bypass q n, by rw [reads q, found', Option.map_some], rfl⟩
  have slots : ∀ q, dependenciesOf t.modules q = dependenciesOf s.modules q := by
    intro q
    simp only [dependenciesOf, reads q]
    cases read s.modules q <;> rfl
  have own : dependenciesOf s.modules p = m.dependencies.reduceOption := by
    rw [dependenciesOf_eq found]
  have distinct := List.nodup_append.mp reg.distinct
  have fewer : (front ++ rest).Sublist (front ++ p :: rest) :=
    (List.Sublist.refl front).append (List.sublist_cons_self p rest)
  have listed_still : ∀ q, q ∈ front ++ p :: rest → q ≠ p → q ∈ front ++ rest := by
    intro q listed other
    simpa [other] using listed
  refine ⟨t, stepped, quiet, ⟨?_, ?_, ?_, ?_, ?_, ?_, ?_, ?_⟩, untouched, same⟩
  · -- The neighbours point past the module, and the list starts behind it if it was the first.
    have linked : linkOf LxModule.next s.modules p = some m.next := by simp [linkOf, found]
    have backed : linkOf LxModule.prev s.modules p = some m.prev := by simp [linkOf, found]
    refine reg.listed.unlink linked backed ?_ (fun q _ => ?_) fun q _ => ?_
    · rw [head]
      simp only [reg.listed.first_iff backed]
    · simp only [linkOf, reads q, Option.map_map]
      by_cases before : m.prev = some q
      · obtain ⟨n, live⟩ := reg.found (p := q) (by simp [prev_listed q before])
        simp [before, live, LxModule.bypass]
      · cases read s.modules q <;> simp [before, LxModule.bypass]
    · simp only [linkOf, reads q, Option.map_map]
      by_cases after : m.next = some q
      · obtain ⟨n, live⟩ := reg.found (p := q) (by simp [next_listed q after])
        simp [after, live, LxModule.bypass]
      · cases read s.modules q <;> simp [after, LxModule.bypass]
  · exact reg.distinct.sublist ((List.Sublist.refl outside).append fewer)
  · refine Layered.congr (reg.layered.remove fun q member => ?_) fun q _ => slots q
    exact not_needed q (by simp [member])
  · intro q member r depends
    rw [slots q] at depends
    refine listed_still r (reg.needs q member r depends) ?_
    rintro rfl
    exact not_needed q (by simp [member]) depends
  · intro q member
    rcases List.mem_append.mp member with member | member
    · -- The module's own dependencies stand behind it.
      have depends : q ∈ dependenciesOf s.modules p := by
        rw [own]
        simpa [List.reduceOption_mem_iff] using member
      exact List.mem_append_right _ (reg.layered.precedes depends)
    · refine listed_still q (reg.held_listed q member) ?_
      rintro rfl
      exact not_held member
  · intro q member
    obtain ⟨n, found', ready, counted, small⟩ := reg.counted q (fewer.subset member)
    refine ⟨m.bypass q n, by rw [reads q, found', Option.map_some], ready, ?_, small⟩
    have flipped : m.dependencies.reverse.reduceOption.count q = m.dependencies.reduceOption.count q := by
      simp [List.reduceOption, List.filterMap_reverse]
    rw [count_referencesTo, List.count_append, references_congr fun r _ => slots r, flipped, ← own]
    rw [count_referencesTo, ← List.append_assoc, references_remove, List.append_assoc] at counted
    show n.refcount = _
    omega
  · intro q member
    have away : q ∉ front ++ rest := by
      intro listed
      exact distinct.2.2 q member q (fewer.subset listed) rfl
    rw [untouched q away]
    exact reg.single q member
  · rw [quiet.mainModule]
    exact reg.main

end

end TwoIne
