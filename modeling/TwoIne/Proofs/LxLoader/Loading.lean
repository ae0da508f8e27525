import TwoIne.Proofs.LxLoader.Release

/-! Loading a module with its dependencies keeps the invariant of the module list. -/

namespace TwoIne

open Cells HeapLists Chains Dependencies Outcomes

/--
What a load leaves alone.

`own` are the modules it created that are not on the list. Modules that were not on the list are as they were,
every module is accounted for, and what is new was not there before.
-/
structure Settled (s t : Loader) (order order' own : List Nat) : Prop where
  running : t.running = s.running
  untouched : ∀ q m, q ∉ order → read s.modules q = some m → read t.modules q = some m
  live : ∀ q m, read t.modules q = some m →
    q ∈ own ++ order' ∨ q ∉ order ∧ ∃ n, read s.modules q = some n
  listed : ∀ q ∈ own ++ order', q ∈ order ∨ read s.modules q = none

/-- What a load may come to: a library is listed, or a program is there that was not before, or neither. -/
inductive LoadOutcome (s : Loader) (order outside held : List Nat) : Loader × Option Nat → Prop
  | library {t : Loader} {loaded : Option Nat} {order' : List Nat} (settled : Settled s t order order' [])
      (reg : Registry t order' outside (loaded.toList ++ held)) (main : t.mainModule = s.mainModule) :
      LoadOutcome s order outside held (t, loaded)
  | program {t : Loader} {p : Nat} {m : LxModule} {order' : List Nat}
      (settled : Settled s t order order' [p]) (reg : Registry t order' (p :: outside) held)
      (absent : s.mainModule = none) (main : t.mainModule = some p)
      (found : read t.modules p = some m) (stack : m.HasStack) :
      LoadOutcome s order outside held (t, some p)

section

variable {s t u : Loader} {order order' order'' outside held own : List Nat} {p : Nat} {m : LxModule}

/-- Doing nothing leaves everything alone. -/
theorem Settled.refl (s : Loader) (order : List Nat) : Settled s s order order [] where
  running := rfl
  untouched _ _ _ found := found
  live q m found := by
    by_cases member : q ∈ order
    · exact Or.inl member
    · exact Or.inr ⟨member, m, found⟩
  listed q member := Or.inl member

/-- A load inside of another one is part of it. -/
theorem Settled.trans (first : Settled s t order order' own) (second : Settled t u order' order'' [])
    (apart : ∀ q ∈ own, q ∉ order' ∧ ∃ m, read t.modules q = some m) :
    Settled s u order order'' own := by
  have fresh_own : ∀ q ∈ own, q ∉ order'' := by
    intro q member listed
    obtain ⟨away, m, found⟩ := apart q member
    rcases second.listed q listed with before | none
    · exact away before
    · rw [found] at none
      simp at none
  constructor
  · exact second.running.trans first.running
  · intro q m away found
    refine second.untouched q m (fun listed => ?_) (first.untouched q m away found)
    rcases first.listed q (List.mem_append_right _ listed) with before | none
    · exact away before
    · rw [found] at none
      simp at none
  · intro q m found
    rcases second.live q m found with listed | ⟨away, n, found'⟩
    · exact Or.inl (List.mem_append_right _ listed)
    · rcases first.live q n found' with member | before
      · rcases List.mem_append.mp member with member | listed
        · exact Or.inl (List.mem_append_left _ member)
        · exact absurd listed away
      · exact Or.inr before
  · intro q member
    rcases List.mem_append.mp member with member | listed
    · exact first.listed q (List.mem_append_left _ member)
    · rcases second.listed q listed with before | none
      · exact first.listed q (List.mem_append_right _ before)
      · -- A module that is not there in between is on the first list or was not there before.
        by_cases listed : q ∈ order
        · exact Or.inl listed
        · refine Or.inr ?_
          cases found : read s.modules q with
          | none => rfl
          | some m =>
            rw [first.untouched q m listed found] at none
            simp at none

/-- A release leaves everything alone that is not on the list. -/
theorem Release.settled {gone left : List Nat} (release : Release s t outside order gone left) :
    Settled s t order left [] where
  running := release.running
  untouched q m away found := (release.untouched q away).trans found
  live q m found := by
    by_cases member : q ∈ order
    · rcases List.mem_append.mp (release.parts.symm.subset member) with freed | kept
      · rw [release.dead q freed] at found
        simp at found
      · exact Or.inl kept
    · rw [release.untouched q member] at found
      exact Or.inr ⟨member, m, found⟩
  listed q member := Or.inl (release.left_listed member)

/-- A new module without slots to others may stand outside of the list. -/
theorem Registry.allocate (reg : Registry s order outside held) (single : m.refcount = 1)
    (unlinked : m.prev = none ∧ m.next = none) (empty : m.dependencies.reduceOption = []) :
    Registry { s with modules := alloc s.modules m } order (fresh s.modules :: outside) held := by
  have absent : fresh s.modules ∉ outside ++ order := by
    intro member
    obtain ⟨n, found⟩ := reg.found member
    exact Nat.lt_irrefl _ (read_lt_fresh found)
  have own : read (alloc s.modules m) (fresh s.modules) = some m := read_alloc_fresh _ _
  have kept : Registry { s with modules := alloc s.modules m } order outside held := by
    refine reg.frame (fun q member => ?_) rfl rfl
    exact read_alloc_ne m fun same => absent (same ▸ member)
  have slots : dependenciesOf (alloc s.modules m) (fresh s.modules) = [] :=
    (dependenciesOf_eq own).trans empty
  constructor
  · exact kept.listed
  · exact List.nodup_cons.mpr ⟨absent, kept.distinct⟩
  · exact kept.layered
  · intro q member r depends
    rcases List.mem_cons.mp member with rfl | member
    · rw [slots] at depends
      simp at depends
    · exact kept.needs q member r depends
  · exact kept.held_listed
  · intro q member
    obtain ⟨n, found, ready, counted, small⟩ := kept.counted q member
    refine ⟨n, found, ready, ?_, small⟩
    rw [counted, referencesTo, referencesTo, references, references, List.cons_append,
      List.flatMap_cons, slots, List.nil_append]
  · intro q member
    rcases List.mem_cons.mp member with rfl | member
    · exact ⟨m, own, single, unlinked⟩
    · exact kept.single q member
  · intro q program
    exact List.mem_cons_of_mem _ (kept.main q program)

/-- An allocation leaves everything alone. -/
theorem Settled.allocate (s : Loader) (order : List Nat) (m : LxModule) :
    Settled s { s with modules := Cells.alloc s.modules m } order order [fresh s.modules] where
  running := rfl
  untouched q n away found := read_alloc_live m found
  live q n found := by
    by_cases own : q = fresh s.modules
    · exact Or.inl (by simp [own])
    · have before : read s.modules q = some n := (read_alloc_ne m own).symm.trans found
      by_cases member : q ∈ order
      · exact Or.inl (by simp [member])
      · exact Or.inr ⟨member, n, before⟩
  listed q member := by
    rcases List.mem_append.mp member with own | listed
    · rw [List.mem_singleton.mp own]
      exact Or.inr (read_fresh _)
    · exact Or.inl listed

/-- The record of a module after the module `p` was put in front of the list. -/
def LxModule.behind (n : LxModule) (head : Option Nat) (p q : Nat) : LxModule :=
  { n with
    prev := if head = some q then some p else n.prev
    next := if p = q ∧ head.isSome then head else n.next }

/-- Linking a module sets the two links between it and the old head of the list. -/
theorem linkModule_reads (found : read s.modules p = some m)
    (head_live : ∀ q, s.loadedModules = some q → ∃ n, read s.modules q = some n) :
    ∃ t, linkModule p s = .ok t ∧ t.loadedModules = some p ∧ Quiet s t ∧
      ∀ q, read t.modules q = (read s.modules q).map fun n => n.behind s.loadedModules p q := by
  cases head : s.loadedModules with
  | none =>
    refine ⟨{ s with loadedModules := some p }, by simp only [linkModule, head], rfl,
      ⟨rfl, rfl, rfl, rfl⟩, fun q => ?_⟩
    cases read s.modules q <;> simp [LxModule.behind]
  | some first =>
    obtain ⟨u, stepped, quiet, reads, _⟩ := @setNext_spec s (some p) (some first) fun q same => by
      cases same
      exact ⟨m, found⟩
    obtain ⟨v, stepped', quiet', reads', _⟩ := @setPrev_spec u (some first) (some p) fun q same => by
      cases same
      obtain ⟨n, found'⟩ := head_live first head
      exact ⟨_, by rw [reads first, found', Option.map_some]⟩
    refine ⟨{ v with loadedModules := some p }, ?_, rfl, ⟨quiet'.mainModule.trans quiet.mainModule,
      quiet'.running.trans quiet.running, quiet'.events.trans quiet.events,
      quiet'.fresh.trans quiet.fresh⟩, fun q => ?_⟩
    · simp only [linkModule, head, stepped, stepped', bind, Except.bind, pure, Except.pure]
    · show read v.modules q = _
      rw [reads' q, reads q, Option.map_map]
      congr 1
      funext n
      simp [LxModule.behind]

/-- Linking a module that stands outside of the list puts it in front of the list. -/
theorem linkModule_spec (reg : Registry s order (p :: outside) held)
    (found : read s.modules p = some m) (ready : m.initialized = true) (library : s.mainModule ≠ some p) :
    ∃ t, linkModule p s = .ok t ∧ Quiet s t ∧
      (∀ q, q ∉ p :: order → read t.modules q = read s.modules q) ∧
      (∀ q, (read t.modules q).isSome = (read s.modules q).isSome) ∧
      Registry t (p :: order) outside (p :: held) := by
  obtain ⟨n, found', alone, before, after⟩ := reg.single p List.mem_cons_self
  cases found.symm.trans found'
  have start := Chain.head reg.listed.forth
  have head_listed : ∀ q, s.loadedModules = some q → q ∈ order := fun q head =>
    List.mem_of_head? (start ▸ head)
  obtain ⟨t, linked, first, quiet, reads⟩ := linkModule_reads found fun q head =>
    reg.found (List.mem_append_right _ (head_listed q head))
  obtain ⟨unlisted, distinct⟩ := List.nodup_cons.mp reg.distinct
  have away : p ∉ order := fun member => unlisted (List.mem_append_right _ member)
  have not_head : s.loadedModules ≠ some p := fun head => away (head_listed p head)
  have slots : ∀ q, dependenciesOf t.modules q = dependenciesOf s.modules q := by
    intro q
    simp only [dependenciesOf, reads q]
    cases read s.modules q <;> rfl
  have untouched : ∀ q, q ∉ p :: order → read t.modules q = read s.modules q := by
    intro q other
    have ne : p ≠ q := fun same => other (by simp [same])
    have not_first : s.loadedModules ≠ some q := fun head => other (by simp [head_listed q head])
    rw [reads q]
    cases read s.modules q <;> simp [LxModule.behind, ne, not_first]
  have unneeded : ∀ q ∈ p :: outside ++ order, p ∉ dependenciesOf s.modules q := fun q owner depends =>
    away (reg.depends_listed owner depends)
  -- The module moves from one list of owners to the other.
  have moved : (outside ++ p :: order).Perm (p :: outside ++ order) := List.perm_middle
  have counts : ∀ q, (references (dependenciesOf t.modules) (outside ++ p :: order)).count q =
      (references (dependenciesOf s.modules) (p :: outside ++ order)).count q := by
    intro q
    rw [references_congr fun r _ => slots r]
    exact (moved.flatMap_right _).count_eq q
  refine ⟨t, linked, quiet, untouched, fun q => by rw [reads q, Option.isSome_map], ?_⟩
  constructor
  · rw [first]
    refine reg.listed.push ?_ ?_ (fun q member => ?_) fun q member => ?_
    · simp only [linkOf, reads p, found, Option.map_some, LxModule.behind, after]
      cases s.loadedModules <;> simp
    · simp [linkOf, reads p, found, LxModule.behind, not_head, before]
    · have ne : p ≠ q := fun same => away (same ▸ member)
      simp only [linkOf, reads q, Option.map_map]
      cases read s.modules q <;> simp [LxModule.behind, ne]
    · obtain ⟨n, live⟩ := reg.found (List.mem_append_right _ member)
      simp only [linkOf, reads q, live, Option.map_some, LxModule.behind]
      split <;> rfl
  · exact moved.nodup_iff.mpr reg.distinct
  · refine ⟨?_, reg.layered.congr fun q _ => slots q⟩
    rw [slots p]
    exact reg.needs p List.mem_cons_self
  · intro q member r depends
    rw [slots q] at depends
    exact List.mem_cons_of_mem _ (reg.needs q (List.mem_cons_of_mem _ member) r depends)
  · intro q member
    rcases List.mem_cons.mp member with rfl | member
    · exact List.mem_cons_self
    · exact List.mem_cons_of_mem _ (reg.held_listed q member)
  · intro q member
    rcases List.mem_cons.mp member with rfl | member
    · refine ⟨m.behind s.loadedModules q q, by rw [reads q, found, Option.map_some], ready, ?_, ?_⟩
      · -- Only the caller refers to the new module.
        have not_held : q ∉ held := fun member => away (reg.held_listed q member)
        have none : (references (dependenciesOf s.modules) (q :: outside ++ order)).count q = 0 := by
          rw [List.count_eq_zero, mem_references]
          rintro ⟨r, owner, depends⟩
          exact unneeded r owner depends
        rw [count_referencesTo, counts q, none, List.count_cons_self, List.count_eq_zero.mpr not_held]
        exact alone
      · show m.refcount < 2 ^ 32
        omega
    · obtain ⟨n, live, ready', counted, small⟩ := reg.counted q member
      have ne : q ≠ p := fun same => away (same ▸ member)
      refine ⟨n.behind s.loadedModules p q, by rw [reads q, live, Option.map_some], ready', ?_, small⟩
      rw [count_referencesTo, counts q, List.count_cons_of_ne (Ne.symm ne), ← count_referencesTo]
      exact counted
  · intro q member
    have other : q ∉ p :: order := by
      have apart := (List.nodup_append.mp distinct).2.2
      intro listed
      rcases List.mem_cons.mp listed with rfl | listed
      · exact unlisted (List.mem_append_left _ member)
      · exact apart q member q listed rfl
    rw [untouched q other]
    exact reg.single q (List.mem_cons_of_mem _ member)
  · intro q program
    rw [quiet.mainModule] at program
    have member := reg.main q program
    have ne : q ≠ p := by
      rintro rfl
      exact library program
    simpa [ne] using member

/-- A module that a load created was not there before. -/
theorem Settled.created (settled : Settled s t order order' own) {q : Nat} (member : q ∈ own ++ order')
    (away : q ∉ order) (found : read s.modules q = some m) : False := by
  rcases settled.listed q member with before | none
  · exact away before
  · rw [found] at none
    simp at none

/-- A load may change the modules it created. -/
theorem Settled.change (settled : Settled s t order order' own) (running : u.running = t.running)
    (same : ∀ q, q ∉ own → read u.modules q = read t.modules q)
    (live : ∀ q, (read u.modules q).isSome → (read t.modules q).isSome) :
    Settled s u order order' own where
  running := running.trans settled.running
  untouched q m away found := by
    have other : q ∉ own := fun member =>
      settled.created (List.mem_append_left _ member) away found
    exact (same q other).trans (settled.untouched q m away found)
  live q m found := by
    obtain ⟨n, found'⟩ := Option.isSome_iff_exists.mp (live q (by simp [found]))
    exact settled.live q n found'
  listed := settled.listed

/-- A module that a load created may be freed again. -/
theorem Settled.freed (settled : Settled s t order order' [p]) :
    Settled s (t.freed p) order order' [] where
  running := settled.running
  untouched q m away found := by
    have other : q ≠ p := by
      rintro rfl
      exact settled.created (by simp) away found
    exact (read_free_ne other).trans (settled.untouched q m away found)
  live q m found := by
    have other : q ≠ p := by
      rintro rfl
      have gone : read (t.freed q).modules q = none := read_free_self _ _
      rw [gone] at found
      simp at found
    have found' : read t.modules q = some m := (read_free_ne other).symm.trans found
    rcases settled.live q m found' with member | before
    · exact Or.inl (by simpa [other] using member)
    · exact Or.inr before
  listed q member := settled.listed q (List.mem_append_right _ member)

/-- A module that a load created may be put on the list. -/
theorem Settled.enlist (settled : Settled s t order order' [p]) (running : u.running = t.running)
    (same : ∀ q, q ∉ p :: order' → read u.modules q = read t.modules q)
    (live : ∀ q, (read u.modules q).isSome = (read t.modules q).isSome) :
    Settled s u order (p :: order') [] where
  running := running.trans settled.running
  untouched q m away found := by
    have other : q ∉ p :: order' := fun member => settled.created member away found
    exact (same q other).trans (settled.untouched q m away found)
  live q m found := by
    obtain ⟨n, found'⟩ := Option.isSome_iff_exists.mp ((live q).symm.trans (by simp [found]))
    exact settled.live q n found'
  listed := settled.listed

/-- Rewriting the record of a module outside of the list, with the references it takes over or gives up. -/
theorem Registry.rewrite (reg : Registry s order (p :: outside) held)
    (found : read s.modules p = some m) (n : LxModule) {held' : List Nat}
    (links : n.refcount = m.refcount ∧ n.prev = m.prev ∧ n.next = m.next)
    (listed : ∀ q ∈ held', q ∈ order) (needs : ∀ q ∈ n.dependencies.reduceOption, q ∈ order)
    (balance : ∀ q, held'.count q + n.dependencies.reduceOption.count q =
      held.count q + m.dependencies.reduceOption.count q) :
    Registry (s.put p n) order (p :: outside) held' := by
  obtain ⟨unlisted, _⟩ := List.nodup_cons.mp reg.distinct
  have own : dependenciesOf (s.put p n).modules p = n.dependencies.reduceOption :=
    dependenciesOf_eq (read_write_self n found)
  have kept : ∀ q, q ≠ p → read (s.put p n).modules q = read s.modules q := fun q other =>
    read_write_ne n other
  have other_ne : ∀ q ∈ outside ++ order, q ≠ p := by
    rintro q member rfl
    exact unlisted member
  have slots : ∀ q ∈ outside ++ order,
      dependenciesOf (s.put p n).modules q = dependenciesOf s.modules q := fun q member =>
    dependenciesOf_congr (kept q (other_ne q member))
  have kept_listed : ∀ q ∈ order, read (s.put p n).modules q = read s.modules q := fun q member =>
    kept q (other_ne q (List.mem_append_right _ member))
  constructor
  · exact reg.listed.frame (fun q member => by simp [linkOf, kept_listed q member])
      fun q member => by simp [linkOf, kept_listed q member]
  · exact reg.distinct
  · exact reg.layered.congr fun q member => slots q (List.mem_append_right _ member)
  · intro q member r depends
    rcases List.mem_cons.mp member with rfl | member
    · rw [own] at depends
      exact needs r depends
    · rw [slots q (List.mem_append_left _ member)] at depends
      exact reg.needs q (List.mem_cons_of_mem _ member) r depends
  · exact listed
  · intro q member
    obtain ⟨k, found', ready, counted, small⟩ := reg.counted q member
    refine ⟨k, (kept_listed q member).trans found', ready, ?_, small⟩
    have split : ∀ modules, references (dependenciesOf modules) (p :: outside ++ order) =
        dependenciesOf modules p ++ references (dependenciesOf modules) (outside ++ order) :=
      fun _ => rfl
    have balanced := balance q
    rw [count_referencesTo, split, List.count_append, own, references_congr slots]
    rw [count_referencesTo, split, List.count_append, dependenciesOf_eq found] at counted
    omega
  · intro q member
    rcases List.mem_cons.mp member with rfl | member
    · obtain ⟨k, found', alone, unlinked⟩ := reg.single q List.mem_cons_self
      cases found.symm.trans found'
      refine ⟨n, read_write_self n found, links.1.trans alone, links.2.1.trans unlinked.1,
        links.2.2.trans unlinked.2⟩
    · rw [kept q (other_ne q (List.mem_append_left _ member))]
      exact reg.single q (List.mem_cons_of_mem _ member)
  · exact reg.main

/-- Filling an empty slot of a module with a reference that was held before. -/
theorem Registry.fillSlot (reg : Registry s order (p :: outside) (held))
    (found : read s.modules p = some m) {filled empty : List (Option Nat)} {slot : Option Nat}
    {held' : List Nat} (slots : m.dependencies = filled ++ none :: empty)
    (taken : held = slot.toList ++ held') :
    Registry (s.put p { m with dependencies := m.dependencies.set filled.length slot }) order
      (p :: outside) held' := by
  have set : m.dependencies.set filled.length slot = filled ++ slot :: empty := by
    simp [slots]
  have parts : (filled ++ slot :: empty).reduceOption =
      filled.reduceOption ++ (slot.toList ++ empty.reduceOption) := by
    cases slot <;> simp [List.reduceOption_append, List.reduceOption_cons_of_some,
      List.reduceOption_cons_of_none]
  have before : m.dependencies.reduceOption = filled.reduceOption ++ empty.reduceOption := by
    rw [slots, List.reduceOption_append, List.reduceOption_cons_of_none]
  subst taken
  refine reg.rewrite found _ ⟨rfl, rfl, rfl⟩
    (fun q member => reg.held_listed q (List.mem_append_right _ member)) (fun q member => ?_)
    fun q => ?_
  · -- The new slot leads to a listed module, as the others do.
    have member' : q ∈ (filled ++ slot :: empty).reduceOption := set ▸ member
    rw [parts, List.mem_append, List.mem_append] at member'
    have old : ∀ r ∈ filled.reduceOption ++ empty.reduceOption, r ∈ order := by
      intro r listed
      refine reg.needs p List.mem_cons_self r ?_
      rw [dependenciesOf_eq found, before]
      exact listed
    rcases member' with member' | member' | member'
    · exact old q (List.mem_append_left _ member')
    · exact reg.held_listed q (List.mem_append_left _ member')
    · exact old q (List.mem_append_right _ member')
  · show held'.count q + (m.dependencies.set filled.length slot).reduceOption.count q = _
    rw [set, parts, before]
    simp only [List.count_append]
    omega

end

end TwoIne
