import TwoIne.Lib.Outcomes
import TwoIne.Proofs.LxLoader.Registry

/-! Dropping the last reference to a module frees it, and with it what nothing else refers to. -/

namespace TwoIne

open Cells HeapLists Chains Dependencies Outcomes

section

variable {s t : Loader} {order outside held front rest : List Nat} {p : Nat} {m : LxModule}

/-- What a release does: `gone` are the modules that were freed, first to last, and `left` the others. -/
structure Release (s t : Loader) (outside order gone left : List Nat) : Prop where
  parts : (gone ++ left).Perm order
  untouched : ∀ q, q ∉ order → read t.modules q = read s.modules q
  dead : ∀ q ∈ gone, read t.modules q = none
  kept : ∀ q ∈ left, SameModules s.modules t.modules q
  mainModule : t.mainModule = s.mainModule
  running : t.running = s.running
  fresh : fresh t.modules = fresh s.modules
  events : ∃ log, t.events = s.events ++ log ∧
    terminatedIn log = gone.filter (terminates s.modules) ∧ (freedIn log).Perm gone
  firstOut : FirstOut (dependenciesOf s.modules) (outside ++ order) gone

/-- A record of the same module has the same slots. -/
theorem SameModules.slots {modules other : Heap LxModule} {q : Nat} (same : SameModules modules other q)
    (live : ∃ m, read modules q = some m) : dependenciesOf other q = dependenciesOf modules q := by
  obtain ⟨m, found⟩ := live
  obtain ⟨n, found', same⟩ := same m found
  rw [dependenciesOf_eq found, dependenciesOf_eq found', same.dependencies]

/-- A record of the same module has the same termination code. -/
theorem SameModules.terminates {modules other : Heap LxModule} {q : Nat}
    (same : SameModules modules other q) (live : ∃ m, read modules q = some m) :
    terminates other q = terminates modules q := by
  obtain ⟨m, found⟩ := live
  obtain ⟨n, found', same⟩ := same m found
  simp [TwoIne.terminates, found, found', same.hasTermination]

/-- The same cell holds a record of the same module. -/
theorem SameModules.of_eq {modules other : Heap LxModule} {q : Nat}
    (same : read other q = read modules q) : SameModules modules other q :=
  fun m found => ⟨m, same.trans found, SameModule.refl m⟩

/-- Records of the same modules are records of the same modules. -/
theorem SameModules.trans {modules other third : Heap LxModule} {q : Nat}
    (first : SameModules modules other q) (second : SameModules other third q) :
    SameModules modules third q := by
  intro m found
  obtain ⟨n, found', same⟩ := first m found
  obtain ⟨k, found'', same'⟩ := second n found'
  exact ⟨k, found'', same.trans same'⟩

namespace Release

variable {u : Loader} {gone left more : List Nat}

/-- Releasing nothing. -/
theorem nothing (s : Loader) (outside order : List Nat) : Release s s outside order [] order where
  parts := List.Perm.refl order
  untouched _ _ := rfl
  dead q gone := absurd gone List.not_mem_nil
  kept _ _ := SameModules.of_eq rfl
  mainModule := rfl
  running := rfl
  fresh := rfl
  events := ⟨[], by simp, rfl, List.Perm.refl []⟩
  firstOut := FirstOut.nil

/-- A module that is left was listed before. -/
theorem left_listed (release : Release s t outside order gone left) {q : Nat} (member : q ∈ left) :
    q ∈ order := release.parts.subset (List.mem_append_right _ member)

/-- A module that is gone was listed before. -/
theorem gone_listed (release : Release s t outside order gone left) {q : Nat} (member : q ∈ gone) :
    q ∈ order := release.parts.subset (List.mem_append_left _ member)

/-- A module that is gone is not left. -/
theorem apart (release : Release s t outside order gone left) (distinct : order.Nodup) {q : Nat}
    (freed : q ∈ gone) : q ∉ left := by
  have nodup := List.nodup_append.mp (release.parts.nodup_iff.mpr distinct)
  exact fun member => nodup.2.2 q freed q member rfl

/-- Two releases after each other make one. -/
theorem append {final : List Nat} (first : Release s t outside order gone left)
    (second : Release t u outside left more final) (distinct : (outside ++ order).Nodup)
    (live : ∀ q ∈ outside ++ order, ∃ m, read s.modules q = some m) :
    Release s u outside order (gone ++ more) final := by
  have parts_nodup := List.nodup_append.mp distinct
  have away : ∀ q ∈ outside, q ∉ order := fun q member listed => parts_nodup.2.2 q member q listed rfl
  have same : ∀ q, q ∈ outside ∨ q ∈ left → SameModules s.modules t.modules q := by
    rintro q (member | member)
    · exact SameModules.of_eq (first.untouched q (away q member))
    · exact first.kept q member
  have live_left : ∀ q ∈ left, ∃ m, read s.modules q = some m := fun q member =>
    live q (List.mem_append_right _ (first.left_listed member))
  constructor
  · rw [List.append_assoc]
    exact (second.parts.append_left gone).trans first.parts
  · intro q unlisted
    rw [second.untouched q fun member => unlisted (first.left_listed member), first.untouched q unlisted]
  · intro q member
    rcases List.mem_append.mp member with member | member
    · -- What the first release freed, the second does not see.
      rw [second.untouched q (first.apart parts_nodup.2.1 member)]
      exact first.dead q member
    · exact second.dead q member
  · intro q member
    exact (same q (Or.inr (second.left_listed member))).trans (second.kept q member)
  · exact second.mainModule.trans first.mainModule
  · exact second.running.trans first.running
  · exact second.fresh.trans first.fresh
  · obtain ⟨log, events, terminated, freed⟩ := first.events
    obtain ⟨log', events', terminated', freed'⟩ := second.events
    refine ⟨log ++ log', by rw [events', events, List.append_assoc], ?_, ?_⟩
    · have codes : more.filter (terminates t.modules) = more.filter (terminates s.modules) := by
        apply List.filter_congr
        intro q member
        have listed := second.gone_listed member
        exact (same q (Or.inr listed)).terminates (live_left q listed)
      rw [terminatedIn, List.filterMap_append, List.filter_append, ← codes, ← terminated']
      exact congrArg (· ++ terminatedIn log') terminated
    · rw [freedIn, List.filterMap_append]
      exact freed.append freed'
  · refine first.firstOut.append second.firstOut fun q owner => ?_
    rcases List.mem_append.mp owner with member | member
    · exact Or.inr ⟨List.mem_append_left _ member, (same q (Or.inl member)).slots (live q owner)⟩
    · rcases List.mem_append.mp (first.parts.symm.subset member) with freed | kept
      · exact Or.inl freed
      · exact Or.inr ⟨List.mem_append_right _ kept, (same q (Or.inr kept)).slots (live q owner)⟩

/-- The faults of a release: there is no program on whose stack a library could run. -/
def noStack (s : Loader) (fault : Fault) : Prop :=
  fault = .noMainStack ∧ s.running = false ∧ s.mainModule = none

end Release

/-- A module that is in memory is read. -/
theorem get_eq (found : read s.modules p = some m) : s.get p = .ok m := by
  simp [Loader.get, found]

/-- Freeing a module that is in memory works. -/
theorem free_eq (found : read s.modules p = some m) :
    s.free p = .ok ({ s with modules := Cells.free s.modules p }.record (.freed p)) := by
  simp [Loader.free, get_eq found, bind, Except.bind, pure, Except.pure]

/-- Running a library entry point only records that it ran, unless there is no program. -/
theorem runLxLibraryInitOrTerm_ends (reg : Registry s order outside held) (p : Nat)
    (isTermination : Bool) :
    Ends (Release.noStack s) (runLxLibraryInitOrTerm p isTermination s) fun t =>
      t = s.record (if isTermination then .terminated p else .initialized p) := by
  unfold runLxLibraryInitOrTerm
  cases running : s.running with
  | true => simp [Ends]
  | false =>
    cases program : s.mainModule with
    | none => exact ⟨rfl, running, program⟩
    | some main =>
      -- The program is in memory, so its stack can be looked up.
      obtain ⟨m, found⟩ := reg.found (List.mem_append_left _ (reg.main main program))
      simp [Ends, get_eq found, bind, Except.bind, pure, Except.pure]

/-- The state after the termination code of a module ran, if it has any. -/
def afterTermination (p : Nat) (m : LxModule) (s : Loader) : Loader :=
  if m.hasTermination then s.record (.terminated p) else s

/-- Terminating an initialised library runs its termination code. -/
theorem terminateModule_ends (reg : Registry s order outside held) (ready : m.initialized = true)
    (library : s.mainModule ≠ some p) :
    Ends (Release.noStack s) (terminateModule p m s) fun t => t = afterTermination p m s := by
  rw [terminateModule, if_pos ⟨ready, library⟩, runLibraryTerm]
  unfold afterTermination LxModule.hasTermination
  cases native : m.nativelib with
  | true => cases deinit : m.nativeDeinit <;> simp [Ends]
  | false =>
    by_cases code : m.isLx = true ∧ m.eipObject ≠ 0
    · simpa [code] using runLxLibraryInitOrTerm_ends reg p true
    · simp [if_neg code, Ends]

/-- Recording events leaves the modules. -/
theorem afterTermination_modules (p : Nat) (m : LxModule) (s : Loader) :
    (afterTermination p m s).modules = s.modules := by
  unfold afterTermination
  split <;> rfl

/-- Recording events leaves the list. -/
theorem afterTermination_loadedModules (p : Nat) (m : LxModule) (s : Loader) :
    (afterTermination p m s).loadedModules = s.loadedModules := by
  unfold afterTermination
  split <;> rfl

/-- Recording events leaves the program. -/
theorem afterTermination_mainModule (p : Nat) (m : LxModule) (s : Loader) :
    (afterTermination p m s).mainModule = s.mainModule := by
  unfold afterTermination
  split <;> rfl

/-- Recording events leaves whether the program runs. -/
theorem afterTermination_running (p : Nat) (m : LxModule) (s : Loader) :
    (afterTermination p m s).running = s.running := by
  unfold afterTermination
  split <;> rfl

/--
What releasing a module once comes to, for any listed module that the releaser holds.

The module itself is only left when something else refers to it.
-/
def ReleasesListed (release : Option Nat → Loader → Except Fault Loader) (steps : Nat) : Prop :=
  ∀ s order outside held p, Registry s order outside (p :: held) → order.length ≤ steps →
    Ends (Release.noStack s) (release (some p) s) fun t =>
      ∃ gone left, Release s t outside order gone left ∧ Registry t left outside held ∧
        (p ∈ left → 0 < (referencesTo s.modules (outside ++ order) held).count p)

/-- Releasing a null pointer does nothing. -/
@[simp] theorem freeLxModule_none (steps : Nat) (s : Loader) : freeLxModule steps none s = .ok s := by
  cases steps <;> rfl

/-- Releasing held pointers one by one is one release. -/
theorem releaseEach_ends {steps : Nat} (each : ReleasesListed (freeLxModule steps) steps)
    (ptrs : List (Option Nat)) (reg : Registry s order outside (ptrs.reduceOption ++ held))
    (enough : order.length ≤ steps) :
    Ends (Release.noStack s) (releaseEach (freeLxModule steps) ptrs s) fun t =>
      ∃ gone left, Release s t outside order gone left ∧ Registry t left outside held := by
  -- Each release leaves fewer modules, and the references that are still to be released.
  induction ptrs generalizing s order with
  | nil => exact ⟨[], order, Release.nothing s outside order, reg⟩
  | cons p ptrs ih =>
    cases p with
    | none => simpa [releaseEach, bind, Except.bind] using ih reg enough
    | some p =>
      refine Ends.bind (each s order outside _ p reg enough) ?_
      rintro t ⟨gone, left, first, reg', _⟩
      have shorter : left.length ≤ steps := by
        have lengths := first.parts.length_eq
        rw [List.length_append] at lengths
        omega
      refine (ih reg' shorter).mono ?_ ?_
      · rintro u ⟨more, final, second, reg''⟩
        exact ⟨gone ++ more, final, first.append second reg.distinct fun q => reg.found, reg''⟩
      · rintro fault ⟨stack, running, main⟩
        exact ⟨stack, first.running ▸ running, first.mainModule ▸ main⟩

/-- Recounting a listed module releases nothing. -/
theorem Release.recount (found : read s.modules p = some m) (listed : p ∈ order) (count : Nat)
    (outside : List Nat) :
    Release s (s.put p { m with refcount := count }) outside order [] order where
  parts := List.Perm.refl order
  untouched q unlisted := read_write_ne _ fun same => unlisted (same ▸ listed)
  dead q gone := absurd gone List.not_mem_nil
  kept q _ := by
    rcases eq_or_ne q p with rfl | other
    · intro n found'
      cases found.symm.trans found'
      exact ⟨_, read_write_self _ found, rfl⟩
    · exact SameModules.of_eq (read_write_ne _ other)
  mainModule := rfl
  running := rfl
  fresh := fresh_write _ _ _
  events := ⟨[], by simp [Loader.put], rfl, List.Perm.refl []⟩
  firstOut := FirstOut.nil

/-- A listed module is not the program. -/
theorem Registry.library (reg : Registry s order outside held) (listed : p ∈ order) :
    s.mainModule ≠ some p := by
  intro program
  have apart := (List.nodup_append.mp reg.distinct).2.2
  exact apart p (reg.main p program) p listed rfl

/-- A module leaves with what was released after it was unlinked. -/
theorem Release.cons {v : Loader} {gone left : List Nat} (distinct : (front ++ p :: rest).Nodup)
    (found : read s.modules p = some m)
    (unused : ∀ q ∈ outside ++ (front ++ p :: rest), p ∉ dependenciesOf s.modules q)
    (live : ∀ q ∈ outside ++ (front ++ p :: rest), ∃ n, read s.modules q = some n)
    (untouched : ∀ q, q ∉ front ++ rest → read t.modules q = read s.modules q)
    (same : ∀ q, SameModules s.modules t.modules q)
    (quiet : Quiet (afterTermination p m s) t)
    (release : Release t v outside (front ++ rest) gone left) :
    Release s ({ v with modules := Cells.free v.modules p }.record (.freed p)) outside
      (front ++ p :: rest) (p :: gone) left := by
  obtain ⟨unlisted, _⟩ := List.nodup_middle.mp distinct |> List.nodup_cons.mp
  have gone_ne : ∀ q ∈ gone, q ≠ p := by
    rintro q member rfl
    exact unlisted (release.gone_listed member)
  have left_ne : ∀ q ∈ left, q ≠ p := by
    rintro q member rfl
    exact unlisted (release.left_listed member)
  constructor
  · exact (release.parts.cons p).trans List.perm_middle.symm
  · intro q away
    have other : q ≠ p := by
      rintro rfl
      exact away (by simp)
    have outside' : q ∉ front ++ rest := by
      intro member
      rcases List.mem_append.mp member with member | member <;> exact away (by simp [member])
    show read (Cells.free v.modules p) q = _
    rw [read_free_ne other, release.untouched q outside', untouched q outside']
  · intro q member
    show read (Cells.free v.modules p) q = none
    rcases List.mem_cons.mp member with rfl | member
    · exact read_free_self _ _
    · rw [read_free_ne (gone_ne q member)]
      exact release.dead q member
  · intro q member
    have freed : SameModules v.modules (Cells.free v.modules p) q :=
      SameModules.of_eq (read_free_ne (left_ne q member))
    exact ((same q).trans (release.kept q member)).trans freed
  · rw [← afterTermination_mainModule p m s, ← quiet.mainModule]
    exact release.mainModule
  · rw [← afterTermination_running p m s, ← quiet.running]
    exact release.running
  · rw [← afterTermination_modules p m s, ← quiet.fresh, ← release.fresh]
    exact fresh_free v.modules p
  · obtain ⟨log, logged, terminated, freed⟩ := release.events
    have codes : gone.filter (terminates t.modules) = gone.filter (terminates s.modules) := by
      apply List.filter_congr
      intro q member
      have listed := release.gone_listed member
      refine (same q).terminates (live q ?_)
      rcases List.mem_append.mp listed with member | member <;> simp [member]
    have own : terminates s.modules p = m.hasTermination := by simp [terminates, found]
    refine ⟨(if m.hasTermination then [.terminated p] else []) ++ log ++ [.freed p], ?_, ?_, ?_⟩
    · show v.events ++ [.freed p] = _
      rw [logged, quiet.events, afterTermination]
      split <;> simp [Loader.record]
    · rw [List.filter_cons, own, ← codes, ← terminated]
      split <;> simp [terminatedIn]
    · have last : (freedIn log ++ [p]).Perm (p :: gone) :=
        (List.perm_append_singleton p _).trans (freed.cons p)
      split <;> simpa [freedIn] using last
  · refine release.firstOut.cons unused fun q owner => ?_
    rcases eq_or_ne q p with rfl | other
    · exact Or.inl rfl
    · refine Or.inr ⟨?_, (same q).slots (live q owner)⟩
      simpa [other] using owner

/-- What freeing a module does once its last reference is gone. -/
def freeUnreferenced (steps p : Nat) (m : LxModule) (s : Loader) : Except Fault Loader := do
  let s ← terminateModule p m s
  let s ← unlinkModule p m s
  let s ← leaveMainModule p m s
  let s ← releaseEach (freeLxModule steps) m.dependencies.reverse s
  s.free p

/-- Releasing a module that is in memory drops one reference, and frees it with the last one. -/
theorem freeLxModule_succ (steps : Nat) (found : read s.modules p = some m) {count : Nat}
    (dropped : (m.refcount + (2 ^ 32 - 1)) % 2 ^ 32 = count) :
    freeLxModule (steps + 1) (some p) s =
      if 0 < count then .ok (s.put p { m with refcount := count })
      else freeUnreferenced steps p m (s.put p { m with refcount := count }) := by
  simp only [freeLxModule, freeUnreferenced, get_eq found, dropped, bind, Except.bind]

/-- Recording events keeps the invariant. -/
theorem Registry.afterTermination (reg : Registry s order outside held) (p : Nat) (m : LxModule) :
    Registry (afterTermination p m s) order outside held :=
  reg.frame (fun q _ => by rw [afterTermination_modules]) (afterTermination_loadedModules p m s)
    (afterTermination_mainModule p m s)

/-- Freeing the memory of a module that is on no list keeps the invariant. -/
theorem Registry.free (reg : Registry s order outside held) (away : p ∉ outside ++ order) :
    Registry ({ s with modules := Cells.free s.modules p }.record (.freed p)) order outside held :=
  reg.frame (fun _ member => read_free_ne fun same => away (same ▸ member)) rfl rfl

/-- A listed module without references is freed, after it was terminated and unlinked. -/
theorem freeUnreferenced_ends {steps : Nat} (each : ReleasesListed (freeLxModule steps) steps)
    (reg : Registry s order outside held) (listed : p ∈ order)
    (found : read s.modules p = some { m with refcount := 0 }) (ready : m.initialized = true)
    (unused : (referencesTo s.modules (outside ++ order) held).count p = 0)
    (enough : order.length ≤ steps + 1) :
    Ends (Release.noStack s) (freeUnreferenced steps p m s) fun t =>
      ∃ gone left, Release s t outside order gone left ∧ Registry t left outside held ∧ p ∉ left := by
  obtain ⟨front, rest, rfl⟩ := List.append_of_mem listed
  have library := reg.library listed
  obtain ⟨_, not_needed⟩ := unreferenced unused
  have distinct := List.nodup_append.mp reg.distinct
  refine Ends.bind (terminateModule_ends reg ready library) ?_
  rintro _ rfl
  -- The module is taken off the list, and its dependencies become references to release.
  obtain ⟨t, unlinked, quiet, reg', untouched, same⟩ := (reg.afterTermination p m).unlink (m := m)
    (by rw [afterTermination_modules]; exact found) (by rw [afterTermination_modules]; exact unused)
  rw [afterTermination_modules] at untouched same
  have stays : leaveMainModule p m t = .ok t := by
    rw [leaveMainModule, quiet.mainModule, afterTermination_mainModule, if_neg library]
  have unlisted : p ∉ outside ++ (front ++ rest) := by
    intro member
    rcases List.mem_append.mp member with member | member
    · exact distinct.2.2 p member p listed rfl
    · exact (List.nodup_cons.mp (List.nodup_middle.mp distinct.2.1)).1 member
  have shorter : (front ++ rest).length ≤ steps := by
    simp only [List.length_append, List.length_cons] at enough ⊢
    omega
  simp only [unlinked, stays, bind, Except.bind]
  refine Ends.bind ((releaseEach_ends each m.dependencies.reverse reg' shorter).mono
    (fun _ ends => ends) ?_) ?_
  · rintro fault ⟨stack, running, main⟩
    rw [quiet.running, afterTermination_running] at running
    rw [quiet.mainModule, afterTermination_mainModule] at main
    exact ⟨stack, running, main⟩
  · rintro u ⟨gone, left, release, reg''⟩
    have away : p ∉ front ++ rest := fun member => unlisted (List.mem_append_right _ member)
    have found' : read u.modules p = some { m with refcount := 0 } := by
      rw [release.untouched p away, untouched p away, found]
    rw [free_eq found']
    refine ⟨p :: gone, left, ?_, reg''.free fun member => unlisted ?_, fun member =>
      away (release.left_listed member)⟩
    · exact Release.cons distinct.2.1 found not_needed (fun q => reg.found) untouched same
        quiet release
    · rcases List.mem_append.mp member with member | member
      · exact List.mem_append_left _ member
      · exact List.mem_append_right _ (release.left_listed member)

/-- Releasing a held reference to a listed module frees exactly what nothing refers to any more. -/
theorem freeLxModule_ends (steps : Nat) : ReleasesListed (freeLxModule steps) steps := by
  -- Every module that is freed leaves one module less for the releases inside.
  induction steps with
  | zero =>
    intro s order outside held p reg enough
    have listed := reg.held_listed p List.mem_cons_self
    rw [List.length_eq_zero_iff.mp (Nat.le_zero.mp enough)] at listed
    simp at listed
  | succ steps ih =>
    intro s order outside held p reg enough
    have listed := reg.held_listed p List.mem_cons_self
    obtain ⟨m, found, ready, counted, small⟩ := reg.counted p listed
    rw [count_referencesTo, List.count_cons_self] at counted
    have dropped : (m.refcount + (2 ^ 32 - 1)) % 2 ^ 32 = m.refcount - 1 := by omega
    have recounted : m.refcount - 1 =
        (referencesTo s.modules (outside ++ order) held).count p := by
      rw [count_referencesTo]
      omega
    have reg' : Registry (s.put p { m with refcount := m.refcount - 1 }) order outside held := by
      refine reg.recount listed found (fun q member => reg.held_listed q (List.mem_cons_of_mem _ member))
        (fun q other => ?_) recounted (by omega)
      rw [List.count_cons_of_ne (Ne.symm other)]
    have first := Release.recount found listed (m.refcount - 1) outside
    rw [freeLxModule_succ steps found dropped]
    by_cases remains : 0 < m.refcount - 1
    · rw [if_pos remains]
      exact ⟨[], order, first, reg', fun _ => recounted ▸ remains⟩
    · rw [if_neg remains]
      have none_left : m.refcount - 1 = 0 := by omega
      rw [none_left] at reg' first recounted ⊢
      have slots := dependenciesOf_put (n := { m with refcount := 0 }) found rfl
      have unused : (referencesTo (s.put p { m with refcount := 0 }).modules (outside ++ order)
          held).count p = 0 := by
        rw [referencesTo, references_congr fun q _ => slots q]
        exact recounted.symm
      refine (freeUnreferenced_ends ih reg' listed (read_write_self _ found) ready unused enough).mono
        ?_ fun fault stuck => stuck
      rintro t ⟨gone, left, second, reg'', away⟩
      exact ⟨gone, left, first.append second reg.distinct fun q => reg.found, reg'', fun member =>
        absurd member away⟩

/-- The state when a module that is on no list has lost its reference and is no longer the program. -/
def Loader.leave (s : Loader) (p : Nat) (m : LxModule) : Loader :=
  { s.put p { m with refcount := 0 } with
    mainModule := if s.mainModule = some p then none else s.mainModule }

/-- The state when the memory of a module is freed. -/
def Loader.freed (s : Loader) (p : Nat) : Loader :=
  { s with modules := Cells.free s.modules p }.record (.freed p)

/-- Leaving a module that is on no list turns its slots into references to release. -/
theorem Registry.leave (reg : Registry s order (p :: outside) held) (found : read s.modules p = some m) :
    Registry (s.leave p m) order outside (m.dependencies.reverse.reduceOption ++ held) := by
  have distinct := List.nodup_cons.mp reg.distinct
  have kept : ∀ q ∈ outside ++ order, read (s.leave p m).modules q = read s.modules q := by
    intro q member
    exact read_write_ne _ fun same => distinct.1 (same ▸ member)
  have kept_listed : ∀ q ∈ order, read (s.leave p m).modules q = read s.modules q := fun q member =>
    kept q (List.mem_append_right _ member)
  have slots : ∀ q ∈ outside ++ order,
      dependenciesOf (s.leave p m).modules q = dependenciesOf s.modules q := fun q member =>
    dependenciesOf_congr (kept q member)
  have own : dependenciesOf s.modules p = m.dependencies.reduceOption := dependenciesOf_eq found
  constructor
  · exact reg.listed.frame (fun q member => by simp [linkOf, kept_listed q member])
      fun q member => by simp [linkOf, kept_listed q member]
  · exact distinct.2
  · exact reg.layered.congr fun q member => slots q (List.mem_append_right _ member)
  · intro q member r depends
    rw [slots q (List.mem_append_left _ member)] at depends
    exact reg.needs q (List.mem_cons_of_mem _ member) r depends
  · intro q member
    rcases List.mem_append.mp member with member | member
    · refine reg.needs p List.mem_cons_self q ?_
      rw [own]
      simpa [List.reduceOption_mem_iff] using member
    · exact reg.held_listed q member
  · intro q member
    obtain ⟨n, found', ready, counted, small⟩ := reg.counted q member
    refine ⟨n, (kept_listed q member).trans found', ready, ?_, small⟩
    have flipped : m.dependencies.reverse.reduceOption.count q = m.dependencies.reduceOption.count q := by
      simp [List.reduceOption, List.filterMap_reverse]
    have split : references (dependenciesOf s.modules) (p :: outside ++ order) =
        dependenciesOf s.modules p ++ references (dependenciesOf s.modules) (outside ++ order) := rfl
    rw [count_referencesTo, List.count_append, references_congr slots, flipped, ← own]
    rw [count_referencesTo, split, List.count_append] at counted
    omega
  · intro q member
    rw [kept q (List.mem_append_left _ member)]
    exact reg.single q (List.mem_cons_of_mem _ member)
  · intro q program
    have before : s.mainModule = some q ∧ q ≠ p := by
      unfold Loader.leave at program
      split at program
      · simp at program
      · rename_i other
        exact ⟨program, fun same => other (same ▸ program)⟩
    have member := reg.main q before.1
    simpa [before.2] using member

/-- A module whose stack is one of its objects. -/
def LxModule.HasStack (m : LxModule) : Prop := 0 < m.stackObject ∧ m.stackObject ≤ m.numMmaps

/-- How releasing a module that is on no list may fault: the program has no stack, or is not there. -/
def leaveFaults (s : Loader) (p : Nat) (m : LxModule) (fault : Fault) : Prop :=
  s.mainModule = some p ∧ (¬ m.HasStack ∨ fault = .noMainStack ∧ s.running = false) ∨
    Release.noStack s fault

/-- Releasing a module that is on no list, and was not initialised or is the program, frees it. -/
theorem freeLxModule_outside {steps : Nat} (reg : Registry s order (p :: outside) held)
    (found : read s.modules p = some m) (silent : m.initialized = false ∨ s.mainModule = some p)
    (enough : order.length ≤ steps) :
    Ends (leaveFaults s p m) (freeLxModule (steps + 1) (some p) s) fun t =>
      ∃ u gone left, t = u.freed p ∧ Release (s.leave p m) u outside order gone left ∧
        Registry u left outside held := by
  obtain ⟨n, found', alone, before, after⟩ := reg.single p List.mem_cons_self
  cases found.symm.trans found'
  have unlisted := (List.nodup_cons.mp reg.distinct).1
  have away : p ∉ order := fun member => unlisted (List.mem_append_right _ member)
  have dropped : (m.refcount + (2 ^ 32 - 1)) % 2 ^ 32 = 0 := by
    rw [alone]
    decide
  have head : s.loadedModules ≠ some p := by
    intro first
    have start := Chain.head reg.listed.forth
    rw [first] at start
    exact away (List.mem_of_head? start.symm)
  have still : terminateModule p m (s.put p { m with refcount := 0 }) =
      .ok (s.put p { m with refcount := 0 }) := by
    refine if_neg ?_
    rcases silent with silent | silent
    · simp [silent]
    · simp [Loader.put, silent]
  have unlinked : unlinkModule p m (s.put p { m with refcount := 0 }) =
      .ok (s.put p { m with refcount := 0 }) := by
    simp [unlinkModule, setPrev, setNext, before, after, bind, Except.bind, pure, Except.pure,
      Loader.put, head]
  rw [freeLxModule_succ steps found dropped, if_neg (Nat.lt_irrefl 0), freeUnreferenced]
  simp only [still, unlinked, bind, Except.bind]
  -- Only the program has a stack to look up.
  have left : leaveMainModule p m (s.put p { m with refcount := 0 }) = .ok (s.leave p m) ∨
      (s.mainModule = some p ∧ ¬ m.HasStack) ∧
        leaveMainModule p m (s.put p { m with refcount := 0 }) = .error .outsideTable := by
    by_cases program : s.mainModule = some p
    · by_cases inside : 0 < m.stackObject ∧ m.stackObject ≤ m.numMmaps
      · exact Or.inl (by simp [leaveMainModule, Loader.leave, Loader.put, program, inside])
      · exact Or.inr ⟨⟨program, inside⟩, by
          simp only [leaveMainModule, Loader.put, program, if_neg inside, if_true]⟩
    · exact Or.inl (by simp [leaveMainModule, Loader.leave, Loader.put, program])
  rcases left with left | ⟨⟨program, outside'⟩, left⟩
  · rw [left]
    refine Ends.bind ((releaseEach_ends (freeLxModule_ends steps) m.dependencies.reverse
      (reg.leave found) enough).mono (fun _ ends => ends) ?_) ?_
    · rintro fault ⟨stack, running, main⟩
      simp only [Loader.leave] at main
      split at main
      · rename_i program
        exact Or.inl ⟨program, Or.inr ⟨stack, running⟩⟩
      · exact Or.inr ⟨stack, running, main⟩
    · rintro u ⟨gone, final, release, reg'⟩
      have found'' : read u.modules p = some { m with refcount := 0 } := by
        rw [release.untouched p away]
        exact read_write_self _ found
      rw [free_eq found'']
      exact ⟨u, gone, final, rfl, release, reg'⟩
  · rw [left]
    exact Or.inl ⟨program, Or.inl outside'⟩

end

end TwoIne
