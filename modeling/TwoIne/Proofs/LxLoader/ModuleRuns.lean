import TwoIne.Lib.Runs
import TwoIne.Proofs.LxLoader.LoadModule
import TwoIne.Proofs.LxLoader.Shutdown

/-! Every sequence of loads leaves a well-formed registry, from which the process can be ended. -/

namespace TwoIne

open Cells HeapLists Chains Dependencies Outcomes Runs

/-- A load that is asked for from outside: of the program, or by a call of the running program. -/
inductive LoadRequest where
  | program (path : Name)
  | dosLoadModule (modname : Name)
  deriving DecidableEq, Repr

/-- A request, with what the load finds. -/
structure LoadCall where
  env : LoadEnv
  request : LoadRequest

/-- The loader, with the modules that the loads so far returned. -/
structure Session where
  loader : Loader := {}
  direct : List Nat := []
  deriving DecidableEq, Repr

/-- What a request does to the loader. -/
def LoadCall.run (call : LoadCall) (s : Loader) : Loaded :=
  match call.request with
  | .program path => startProgram call.env path s
  | .dosLoadModule modname => loadModuleByPathOrModuleName call.env modname s

/-- A request, after which the module it returned is an outstanding direct load. -/
def Session.load (x : Session) (call : LoadCall) : Option (Session × Option Nat) :=
  match call.run x.loader with
  | .ok (s, loaded) => some ({ loader := s, direct := loaded.toList ++ x.direct }, loaded)
  | .error _ => none

/-- The condition on a load of the file behind a path. -/
def CleanPath (env : LoadEnv) (path : Name) (s : Loader) : Prop :=
  ∀ image, env.file path = some image → CleanImage env maxDependencyDepth image s

/--
The condition on a request.

No image that the load opens, for the module itself or for a dependency, is refused before it has a module,
and no module that it finds has as many references as can be counted.
-/
def CleanCall (x : Session) (call : LoadCall) : Prop :=
  match call.request with
  | .program path => CleanPath call.env path x.loader
  | .dosLoadModule modname =>
    if '/' ∉ modname ∧ '\\' ∉ modname then
      CleanByName call.env (CleanImage call.env maxDependencyDepth) (withoutExtension modname) x.loader
    else ∀ path, call.env.makeUnixPath modname = some path → CleanPath call.env path x.loader

/-- The dependency slots of all modules that are there, by the modules they point to. -/
def slotReferences (modules : Heap LxModule) : List Nat :=
  references (dependenciesOf modules) (List.range (fresh modules))

/--
A well-formed registry.

The list is linked forth and back, it holds every module but the program, each module counts its references,
and each precedes all its dependencies.
-/
def RegistryGood (x : Session) : Prop :=
  ∃ order, Dll (linkOf LxModule.next x.loader.modules) (linkOf LxModule.prev x.loader.modules)
      x.loader.loadedModules order ∧
    (∀ p, (read x.loader.modules p).isSome ↔ x.loader.mainModule = some p ∨ p ∈ order) ∧
    (∀ p m, read x.loader.modules p = some m →
      m.refcount = (slotReferences x.loader.modules).count p + x.direct.count p) ∧
    (∀ p, (read x.loader.modules p).isSome → ∀ q ∈ dependenciesOf x.loader.modules p, q ∈ order) ∧
    ∀ front p rest, order = front ++ p :: rest → ∀ q ∈ dependenciesOf x.loader.modules p, q ∈ rest

/-- The invariant of a session: that of the list, and where the references outside of it come from. -/
structure SessionOk (x : Session) (order held : List Nat) : Prop where
  registry : Registry x.loader order x.loader.mainModule.toList held
  complete : ∀ p m, read x.loader.modules p = some m → p ∈ x.loader.mainModule.toList ++ order
  direct : x.direct.Perm (x.loader.mainModule.toList ++ held)
  program : x.loader.running = true → x.loader.mainModule ≠ none
  stack : ∀ p, x.loader.mainModule = some p → ∃ m, read x.loader.modules p = some m ∧ m.HasStack

section

variable {x : Session} {order held : List Nat}

/-- The slots of the modules that are there are those of the owners. -/
theorem count_slotReferences {modules : Heap LxModule} {owners : List Nat} (distinct : owners.Nodup)
    (members : ∀ p, (read modules p).isSome ↔ p ∈ owners) (q : Nat) :
    (slotReferences modules).count q = (references (dependenciesOf modules) owners).count q := by
  -- Cells that are gone have no slots, and the others are the owners in another order.
  have live : slotReferences modules = references (dependenciesOf modules)
      ((List.range (fresh modules)).filter fun p => (read modules p).isSome) := by
    unfold slotReferences references
    induction List.range (fresh modules) with
    | nil => rfl
    | cons p rest ih =>
      rw [List.flatMap_cons, List.filter_cons, ih]
      cases found : read modules p with
      | none => simp [dependenciesOf, found]
      | some m => simp
  have same : ((List.range (fresh modules)).filter fun p => (read modules p).isSome).Perm owners := by
    refine (List.perm_ext_iff_of_nodup (List.nodup_range.filter _) distinct).mpr fun p => ?_
    rw [List.mem_filter, members p, List.mem_range, and_iff_right_iff_imp]
    intro member
    obtain ⟨m, found⟩ := Option.isSome_iff_exists.mp ((members p).mpr member)
    exact read_lt_fresh found
  rw [live]
  exact (same.flatMap_right _).count_eq q

/-- The modules that are there are the program and those on the list. -/
theorem SessionOk.members (good : SessionOk x order held) (p : Nat) :
    (read x.loader.modules p).isSome ↔ p ∈ x.loader.mainModule.toList ++ order := by
  constructor
  · intro live
    obtain ⟨m, found⟩ := Option.isSome_iff_exists.mp live
    exact good.complete p m found
  · intro member
    obtain ⟨m, found⟩ := good.registry.found member
    simp [found]

/-- The invariant says that the registry is well-formed. -/
theorem SessionOk.registryGood (good : SessionOk x order held) : RegistryGood x := by
  have reg := good.registry
  have distinct := List.nodup_append.mp reg.distinct
  have slots := count_slotReferences reg.distinct good.members
  refine ⟨order, reg.listed, fun p => ?_, fun p m found => ?_, fun p live q depends => ?_, ?_⟩
  · rw [good.members p, List.mem_append, Option.mem_toList]
  · rw [slots p, good.direct.count_eq p, List.count_append]
    rcases List.mem_append.mp (good.complete p m found) with program | listed
    · -- Nothing but the load of the program refers to the program.
      obtain ⟨n, found', alone, _⟩ := reg.single p program
      cases found.symm.trans found'
      have unlisted : p ∉ order := fun member => distinct.2.2 p program p member rfl
      have not_held : p ∉ held := fun member => unlisted (reg.held_listed p member)
      have unneeded : p ∉ references (dependenciesOf x.loader.modules)
          (x.loader.mainModule.toList ++ order) := by
        rw [mem_references]
        rintro ⟨q, owner, depends⟩
        exact unlisted (reg.depends_listed owner depends)
      rw [alone, List.count_eq_zero.mpr not_held, List.count_eq_zero.mpr unneeded, distinct.1.count,
        if_pos program]
    · obtain ⟨n, found', _, counted, _⟩ := reg.counted p listed
      cases found.symm.trans found'
      have not_program : p ∉ x.loader.mainModule.toList := fun member =>
        distinct.2.2 p member p listed rfl
      rw [counted, count_referencesTo, List.count_eq_zero.mpr not_program]
      omega
  · exact reg.depends_listed ((good.members p).mp live) depends
  · rintro front p rest split q depends
    exact (split ▸ reg.layered).precedes depends

/-- From a good state with a running program, the process can be ended. -/
theorem SessionOk.shutDown (good : SessionOk x order held) (running : x.loader.running = true) :
    ∃ v, lxTerminate x.loader = .ok v ∧ ShutDown x.loader v := by
  obtain ⟨main, program⟩ := Option.ne_none_iff_exists'.mp (good.program running)
  obtain ⟨m, found, stack⟩ := good.stack main program
  have reg := good.registry
  have complete := good.complete
  rw [program] at reg complete
  exact (lxTerminate_ends reg program running found stack complete).result fun _ impossible => impossible

/-- A session before anything was loaded. -/
theorem SessionOk.start : SessionOk {} [] [] where
  registry := ⟨Dll.nil, List.nodup_nil, trivial, by simp, by simp, by simp, by simp, by simp⟩
  complete p m found := by simp [Cells.read] at found
  direct := List.Perm.refl []
  program running := by simp at running
  stack p program := by simp at program

/-- A load from a good state ends in a good state, with the module it returned as a direct load. -/
theorem SessionOk.loaded (good : SessionOk x order held) {out : Loader × Option Nat}
    (outcome : LoadOutcome x.loader order x.loader.mainModule.toList held out) :
    ∃ order' held', SessionOk ⟨out.1, out.2.toList ++ x.direct⟩ order' held' ∧
      out.1.running = x.loader.running := by
  have reg := good.registry
  have apart := (List.nodup_append.mp reg.distinct).2.2
  cases outcome with
  | @library t loaded order' settled reg' main =>
    have away : ∀ p, x.loader.mainModule = some p → p ∉ order := fun p program listed =>
      apart p (by simp [program]) p listed rfl
    refine ⟨order', loaded.toList ++ held, ⟨main ▸ reg', fun p m found => ?_, ?_, ?_, ?_⟩,
      settled.running⟩
    · rcases settled.live p m found with listed | ⟨unlisted, n, found'⟩
      · exact List.mem_append_right _ listed
      · have before := (List.mem_append.mp (good.complete p n found')).resolve_right unlisted
        exact List.mem_append_left _ (main.symm ▸ before)
    · show (loaded.toList ++ x.direct).Perm (t.mainModule.toList ++ (loaded.toList ++ held))
      rw [main]
      exact (good.direct.append_left _).trans (List.perm_append_comm_assoc _ _ _)
    · intro running
      have before := good.program (settled.running ▸ running)
      exact main.symm ▸ before
    · intro p program
      have before : x.loader.mainModule = some p := main ▸ program
      obtain ⟨m, found, stack⟩ := good.stack p before
      exact ⟨m, settled.untouched p m (away p before) found, stack⟩
  | @program t p m order' settled reg' absent main found stack =>
    have direct := good.direct
    rw [absent] at reg' direct
    refine ⟨order', held, ⟨?_, fun q n found' => ?_, ?_, ?_, ?_⟩, settled.running⟩
    · show Registry t order' t.mainModule.toList held
      rw [main]
      exact reg'
    · show q ∈ t.mainModule.toList ++ order'
      rw [main]
      rcases settled.live q n found' with listed | ⟨unlisted, k, found''⟩
      · exact listed
      · -- Without a program, every module was on the list.
        have before := good.complete q k found''
        rw [absent] at before
        exact absurd before unlisted
    · show (p :: x.direct).Perm (t.mainModule.toList ++ held)
      rw [main]
      exact direct.cons p
    · intro _
      show t.mainModule ≠ none
      simp [main]
    · intro q program
      have same : p = q := Option.some.inj (main.symm.trans program)
      exact same ▸ ⟨m, found, stack⟩

/-- Starting the program keeps a session good. -/
theorem SessionOk.start_running (good : SessionOk x order held) (program : x.loader.mainModule ≠ none) :
    SessionOk { x with loader := { x.loader with running := true } } order held where
  registry := good.registry.frame (fun _ _ => rfl) rfl rfl
  complete := good.complete
  direct := good.direct
  program _ := program
  stack := good.stack

/-- The load of the file behind a path keeps a session good. -/
theorem SessionOk.path (good : SessionOk x order held) {env : LoadEnv} {path : Name}
    (cleanly : CleanPath env path x.loader) :
    Ends (fun _ => x.loader.mainModule = none) (loadModuleByPath env path x.loader) fun out =>
      LoadOutcome x.loader order x.loader.mainModule.toList held out ∧
        (out.2 ≠ none → out.1.mainModule ≠ none) := by
  unfold loadModuleByPath
  cases opened : env.file path with
  | none =>
    exact ⟨LoadOutcome.library (Settled.refl x.loader order) good.registry rfl, fun worked =>
      absurd rfl worked⟩
  | some image =>
    exact loadModule_ends env maxDependencyDepth image _ _ _ _ good.registry (cleanly image opened)

/-- Every request keeps a session good when its condition is met. -/
theorem SessionOk.run (good : SessionOk x order held) {call : LoadCall} (cleanly : CleanCall x call) :
    Ends (fun _ => x.loader.mainModule = none) (call.run x.loader) fun out =>
      ∃ order' held', SessionOk ⟨out.1, out.2.toList ++ x.direct⟩ order' held' := by
  unfold LoadCall.run
  unfold CleanCall at cleanly
  cases asked : call.request with
  | program path =>
    simp only [asked] at cleanly
    simp only [startProgram, bind, Except.bind]
    refine Ends.bind (good.path cleanly) ?_
    rintro ⟨t, loaded⟩ ⟨outcome, there⟩
    obtain ⟨order', held', good', _⟩ := good.loaded outcome
    cases loaded with
    | none => exact ⟨order', held', good'⟩
    | some p => exact ⟨order', held', good'.start_running (there (by simp))⟩
  | dosLoadModule modname =>
    simp only [asked] at cleanly
    have done : ∀ out, LoadOutcome x.loader order x.loader.mainModule.toList held out →
        ∃ order' held', SessionOk ⟨out.1, out.2.toList ++ x.direct⟩ order' held' := by
      intro out outcome
      obtain ⟨order', held', good', _⟩ := good.loaded outcome
      exact ⟨order', held', good'⟩
    simp only [loadModuleByPathOrModuleName]
    split at cleanly
    · rename_i name
      rw [if_pos name]
      exact (loadByNameWith_ends (loadModule_ends call.env maxDependencyDepth) _ good.registry
        cleanly).mono done fun _ none => none
    · rename_i path
      rw [if_neg path]
      cases converted : call.env.makeUnixPath modname with
      | none => exact done _ (LoadOutcome.library (Settled.refl x.loader order) good.registry rfl)
      | some path =>
        exact (good.path (cleanly path converted)).mono (fun out outcome => done out outcome.1)
          fun _ none => none

end

/-- A host with a program that imports a library of the host. -/
def plainEnv : LoadEnv where
  file _ := some { moduleFlags := 0, imports := ["PMWIN".toList] }
  native _ := some { deinit := true }

/-- The session after that program was loaded and started. -/
def plainSession : Session :=
  ((Session.load {} ⟨plainEnv, .program "app.exe".toList⟩).map Prod.fst).getD {}

/-- A host with a program of two imports, the second of which is a file that may not be loaded. -/
def refusedEnv : LoadEnv where
  file _ := some { moduleFlags := 0, imports := ["A".toList, "B".toList] }
  dll name :=
    if name = "A".toList then some { name := "A".toList }
    else if name = "B".toList then some { name := "B".toList, moduleFlags := 0xA000 }
    else none
  native _ := some {}
  unassigned := some 1

/-- The session after that program was loaded and started. -/
def refusedSession : Session :=
  ((Session.load {} ⟨refusedEnv, .program "app.exe".toList⟩).map Prod.fst).getD {}

end TwoIne
