import TwoIne.Proofs.LxLoader.Loading

/-! Every load ends in a state that keeps the invariant, whichever of its parts fail. -/

namespace TwoIne

open Cells HeapLists Chains Dependencies Outcomes

/-- The condition on a load by name: the reference it adds can be counted, and the file it opens is accepted. -/
def CleanByName (env : LoadEnv) (cleanImage : Image → Loader → Prop) (modname : Name) (s : Loader) : Prop :=
  match findModule modname s with
  | .ok (some p) => ∀ m, read s.modules p = some m → m.refcount + 1 < 2 ^ 32
  | .ok none => ∀ image, env.dll modname = some image → cleanImage image s
  | .error _ => True

/-- The condition on the loads of dependencies, each in the state it is started in. -/
def CleanDependencies (clean : Name → Loader → Prop) (load : Name → Loader → Loaded) (isLx : Bool) (p : Nat) :
    Nat → List Name → Loader → Prop
  | _, [], _ => True
  | i, name :: rest, s =>
    isLx ∧ 127 < name.length ∨
      clean name s ∧ ∀ t q u, load name s = .ok (t, some q) →
        t.modify p (fun m => { m with dependencies := m.dependencies.set i (some q) }) = .ok u →
          CleanDependencies clean load isLx p (i + 1) rest u

/--
The condition on the load of an image.

It is not refused, and neither is any image that is opened for its dependencies, in the state it is opened in.
-/
def CleanImage (env : LoadEnv) : Nat → Image → Loader → Prop
  | 0, image, s => image.refused s.mainModule = false
  | levels + 1, image, s =>
    image.refused s.mainModule = false ∧
      ∀ t p, createModule false image s = .ok (t, some p) →
        CleanDependencies (CleanByName env (CleanImage env levels))
          (loadByNameWith env (loadModule env levels)) image.isLx p 0 image.imports t

/-- What a load inside of another one promises: a library is listed, or nothing is left of it. -/
def NestedLoad (order outside held : List Nat) (s : Loader) (out : Loader × Option Nat) : Prop :=
  ∃ order', Settled s out.1 order order' [] ∧ Registry out.1 order' outside (out.2.toList ++ held) ∧
    out.1.mainModule = s.mainModule

/-- What the loads by name promise, when a program is there and their condition is met. -/
def NestedLoads (clean : Name → Loader → Prop) (load : Name → Loader → Loaded) : Prop :=
  ∀ name s order outside held, Registry s order outside held → s.mainModule ≠ none → clean name s →
    Ends (fun _ => False) (load name s) (NestedLoad order outside held s)

section

variable {s t u : Loader} {order order' outside held : List Nat} {p : Nat} {m : LxModule}

/-- Making a module outside of the list the program. -/
theorem Registry.adopt (reg : Registry s order (p :: outside) held) :
    Registry { s with mainModule := some p } order (p :: outside) held where
  listed := reg.listed
  distinct := reg.distinct
  layered := reg.layered
  needs := reg.needs
  held_listed := reg.held_listed
  counted := reg.counted
  single := reg.single
  main q program := by
    cases program
    exact List.mem_cons_self

/-- A module that was just created is not the program of before. -/
theorem Registry.fresh_ne_main (reg : Registry s order outside held) :
    s.mainModule ≠ some (fresh s.modules) := by
  intro program
  obtain ⟨m, found⟩ := reg.found (List.mem_append_left _ (reg.main _ program))
  exact Nat.lt_irrefl _ (read_lt_fresh found)

/-- Failing with a module that a load created leaves nothing of it, and no program that was not there. -/
theorem abandonModule_ends (settled : Settled s t order order' [p])
    (reg : Registry t order' (p :: outside) held) (found : read t.modules p = some m)
    (unready : m.initialized = false) (new : s.mainModule ≠ some p)
    (program : t.mainModule = s.mainModule ∨ s.mainModule = none ∧ t.mainModule = some p) :
    Ends (fun _ => s.mainModule = none) (abandonModule (some p) t) fun out =>
      out.2 = none ∧ NestedLoad order outside held s out := by
  have enough : order'.length ≤ fresh t.modules := by
    have bound := reg.length_le
    simp only [List.length_append] at bound
    omega
  refine Ends.bind ((freeLxModule_outside reg found (Or.inl unready) enough).mono (fun _ ends => ends) ?_) ?_
  · -- Only the load of a program can fault.
    rintro fault (⟨main, _⟩ | ⟨_, _, none⟩)
    · rcases program with same | ⟨none, _⟩
      · exact absurd (same.symm.trans main) new
      · exact none
    · rcases program with same | ⟨none', _⟩
      · exact same.symm.trans none
      · exact none'
  · rintro v ⟨w, gone, left, rfl, release, reg'⟩
    have unlisted := (List.nodup_cons.mp reg.distinct).1
    have away : p ∉ order' := fun member => unlisted (List.mem_append_right _ member)
    have left_settled : Settled s (t.leave p m) order order' [p] := by
      refine settled.change rfl (fun q other => ?_) fun q live => ?_
      · exact read_write_ne _ (by simpa using other)
      · have same : (read (t.leave p m).modules q).isSome = (read t.modules q).isSome :=
          live_write found _ q
        exact same ▸ live
    have found' : read (t.leave p m).modules p = some { m with refcount := 0 } :=
      read_write_self _ found
    have settled' : Settled s w order left [p] := by
      refine left_settled.trans release.settled fun q member => ?_
      rw [List.mem_singleton.mp member]
      exact ⟨away, _, found'⟩
    refine ⟨rfl, left, settled'.freed, reg'.free fun member => ?_, ?_⟩
    · rcases List.mem_append.mp member with member | member
      · exact unlisted (List.mem_append_left _ member)
      · exact away (release.left_listed member)
    · show w.mainModule = s.mainModule
      rw [release.mainModule]
      rcases program with same | ⟨none, main⟩
      · simp [Loader.leave, same, new]
      · simp [Loader.leave, main, none]

/-- An image that is not refused is a library when a program is there, and a program otherwise. -/
theorem accepted_isDLL {image : Image} {mainModule : Option Nat}
    (accepted : image.refused mainModule = false) : image.isDLL = true ↔ mainModule ≠ none := by
  simp only [Image.refused, Bool.or_eq_false_iff] at accepted
  have kind := accepted.2
  cases library : image.isDLL <;> cases mainModule <;> simp_all

/-- The state with a new module whose tables are there. -/
def withModule (image : Image) (s : Loader) : Loader :=
  let t := { s with modules := alloc s.modules image.toModule }
  if image.isDLL then t else { t with mainModule := some (fresh s.modules) }

/-- A new module stands outside of the list, as the program if it is one. -/
theorem withModule_spec {image : Image} (reg : Registry s order outside held)
    (accepted : image.refused s.mainModule = false) :
    Settled s (withModule image s) order order [fresh s.modules] ∧
      Registry (withModule image s) order (fresh s.modules :: outside) held ∧
      read (withModule image s).modules (fresh s.modules) = some image.toModule ∧
      (withModule image s).mainModule = (if image.isDLL then s.mainModule else some (fresh s.modules)) ∧
      ((withModule image s).mainModule = s.mainModule ∨
        s.mainModule = none ∧ (withModule image s).mainModule = some (fresh s.modules)) := by
  have kind := accepted_isDLL accepted
  have created := Settled.allocate s order image.toModule
  have reg' := @Registry.allocate s order outside held image.toModule reg rfl ⟨rfl, rfl⟩
    List.reduceOption_replicate_none
  have found := read_alloc_fresh s.modules image.toModule
  cases library : image.isDLL with
  | true => simp [withModule, library, created, reg', found]
  | false =>
    have none : s.mainModule = none := by
      rw [library] at kind
      simpa using kind
    have adopted := created.change (u := withModule image s) (by simp [withModule, library])
      (fun q _ => by simp [withModule, library]) fun q live => by simpa [withModule, library] using live
    refine ⟨adopted, ?_, ?_, ?_, ?_⟩
    · simpa [withModule, library] using reg'.adopt
    all_goals simp [withModule, library, found, none]

/-- Creating a module either fails and leaves nothing, or leaves the module outside of the list. -/
theorem createModule_ends (tooDeep : Bool) {image : Image} (reg : Registry s order outside held)
    (accepted : image.refused s.mainModule = false) :
    Ends (fun _ => s.mainModule = none) (createModule tooDeep image s) fun out =>
      out.2 = none ∧ NestedLoad order outside held s out ∨
      out = (withModule image s, some (fresh s.modules)) ∧ tooDeep = false ∧
        (image.isDLL = false → image.hasStack = true) := by
  have kind := accepted_isDLL accepted
  obtain ⟨settled, reg', found, _, program⟩ := withModule_spec reg accepted
  have new := reg.fresh_ne_main
  have abandoned : Ends (fun _ => s.mainModule = none)
      (abandonModule (some (fresh s.modules)) (withModule image s)) fun out =>
        out.2 = none ∧ NestedLoad order outside held s out ∨
        out = (withModule image s, some (fresh s.modules)) ∧ tooDeep = false ∧
          (image.isDLL = false → image.hasStack = true) :=
    (abandonModule_ends settled reg' found rfl new program).mono (fun _ failed => Or.inl failed)
      fun _ none => none
  have program_only : ¬ image.isDLL = true → s.mainModule = none := by
    intro library
    by_contra other
    exact library (kind.mpr other)
  -- The parts of the creation fail one after the other.
  unfold createModule
  split
  · exact Or.inl ⟨rfl, order, Settled.refl s order, reg, rfl⟩
  split
  · exact (abandonModule_ends (Settled.allocate s order _) (reg.allocate rfl ⟨rfl, rfl⟩ rfl)
      (read_alloc_fresh _ _) rfl new (Or.inl rfl)).mono (fun _ failed => Or.inl failed)
      fun _ none => none
  show Ends _ (if tooDeep = true then abandonModule (some (fresh s.modules)) (withModule image s)
    else _) _
  split
  · exact abandoned
  rename_i shallow
  split
  · exact abandoned
  split
  · exact abandoned
  split
  · rename_i stackless
    exact program_only stackless.1
  split
  · rename_i stackless
    exact program_only stackless.1
  rename_i inside
  split
  · exact abandoned
  · refine Or.inr ⟨rfl, by simpa using shallow, fun program => ?_⟩
    simpa [program] using inside

/-- Loading the dependencies of a module fills its slots, up to the first that fails. -/
theorem loadDependencies_ends {clean : Name → Loader → Prop} {load : Name → Loader → Loaded}
    (nested : NestedLoads clean load) (isLx : Bool) {names : List Name} {i : Nat}
    {filled : List (Option Nat)} (settled : Settled s t order order' [p])
    (reg : Registry t order' (p :: outside) held) (found : read t.modules p = some m)
    (slots : m.dependencies = filled ++ List.replicate names.length none) (here : filled.length = i)
    (program : t.mainModule ≠ none) (cleanly : CleanDependencies clean load isLx p i names t) :
    Ends (fun _ => False) (loadDependencies load isLx p i names t) fun out => ∃ order'' n,
      Settled s out.1 order order'' [p] ∧ Registry out.1 order'' (p :: outside) held ∧
        read out.1.modules p = some n ∧ n = { m with dependencies := n.dependencies } ∧
        out.1.mainModule = t.mainModule := by
  -- The slots before `i` are filled, and those from `i` on are empty.
  induction names generalizing t order' m i filled with
  | nil => exact ⟨order', m, settled, reg, found, rfl, rfl⟩
  | cons name rest ih =>
    unfold loadDependencies
    split
    · exact ⟨order', m, settled, reg, found, rfl, rfl⟩
    rename_i short
    have ⟨cleanly_name, cleanly_rest⟩ := cleanly.resolve_left short
    have away : p ∉ order' := fun member =>
      (List.nodup_cons.mp reg.distinct).1 (List.mem_append_right _ member)
    refine Ends.bind_ran (nested name t order' (p :: outside) held reg program cleanly_name) ?_
    rintro ⟨u, dependency⟩ ran ⟨order'', settled', reg', main⟩
    have found' : read u.modules p = some m := settled'.untouched p m away found
    have settled_u : Settled s u order order'' [p] := settled.trans settled' fun q member => by
      rw [List.mem_singleton.mp member]
      exact ⟨away, m, found⟩
    have slots' : m.dependencies = filled ++ none :: List.replicate rest.length none := slots
    have filled_reg : Registry
        (u.put p { m with dependencies := m.dependencies.set filled.length dependency }) order''
        (p :: outside) held := reg'.fillSlot found' slots' rfl
    rw [here] at filled_reg
    have changed := settled_u.change
      (u := u.put p { m with dependencies := m.dependencies.set i dependency }) rfl
      (fun q other => read_write_ne _ (by simpa using other))
      (fun q live => (live_write found' _ q).symm.trans live)
    have found'' : read (u.put p { m with dependencies := m.dependencies.set i dependency }).modules p =
        some { m with dependencies := m.dependencies.set i dependency } := read_write_self _ found'
    simp only [modify_eq found', bind, Except.bind]
    cases dependency with
    | none => exact ⟨order'', _, changed, filled_reg, found'', rfl, main⟩
    | some q =>
      -- The next slot is empty, and everything before it is filled.
      have next : m.dependencies.set i (some q) =
          (filled ++ [some q]) ++ List.replicate rest.length none := by
        rw [slots', ← here]
        simp
      have later := ih changed filled_reg found'' next (by simp [here])
        (by rw [← main] at program; exact program) (cleanly_rest u q _ ran (modify_eq found' _))
      refine Ends.mono later ?_ fun _ impossible => impossible
      rintro out ⟨final, n, settled'', reg'', last_found, same, main'⟩
      exact ⟨final, n, settled'', reg'', last_found, same, main'.trans main⟩

/-- Running the initialisation code of a library changes nothing but the events, with a program there. -/
theorem runLibraryInit_ends (reg : Registry s order outside held) (program : s.mainModule ≠ none) :
    Ends (fun _ => False) (runLibraryInit p m s) fun t =>
      t = s ∨ t = s.record (.initialized p) := by
  unfold runLibraryInit
  split
  · refine (runLxLibraryInitOrTerm_ends reg p false).mono (fun _ same => Or.inr same) ?_
    rintro fault ⟨_, _, none⟩
    exact program none
  · exact Or.inl rfl

/-- Marking a module outside of the list as initialised. -/
theorem Registry.initialize (reg : Registry s order (p :: outside) held)
    (found : read s.modules p = some m) :
    Registry (s.put p { m with initialized := true }) order (p :: outside) held := by
  refine reg.rewrite found _ ⟨rfl, rfl, rfl⟩ reg.held_listed (fun q member => ?_) fun q => rfl
  exact reg.needs p List.mem_cons_self q (by rw [dependenciesOf_eq found]; exact member)

/-- Finishing a library lists it. -/
theorem finishModule_library (settled : Settled s t order order' [p])
    (reg : Registry t order' (p :: outside) held) (found : read t.modules p = some m)
    (main : t.mainModule = s.mainModule) (program : s.mainModule ≠ none) (new : s.mainModule ≠ some p) :
    Ends (fun _ => s.mainModule = none) (finishModule true p t) (LoadOutcome s order outside held) := by
  have there : ¬ (t.mainModule = none ∨ t.mainModule = some p) := by
    rw [main]
    exact not_or.mpr ⟨program, new⟩
  simp only [finishModule, get_eq found, bind, Except.bind, not_true, if_false, if_neg there]
  refine Ends.bind ((runLibraryInit_ends reg (by rw [main]; exact program)).mono
    (fun _ same => same) fun _ impossible => impossible.elim) ?_
  intro u same
  -- The events aside, this is the state before.
  have parts : u.modules = t.modules ∧ u.loadedModules = t.loadedModules ∧
      u.mainModule = t.mainModule ∧ u.running = t.running := by
    rcases same with rfl | rfl <;> exact ⟨rfl, rfl, rfl, rfl⟩
  obtain ⟨modules, head, main', running⟩ := parts
  have found' : read u.modules p = some m := modules ▸ found
  have reg' : Registry u order' (p :: outside) held :=
    reg.frame (fun q _ => by rw [modules]) head main'
  have ready := reg'.initialize found'
  have written : read (u.put p { m with initialized := true }).modules p =
      some { m with initialized := true } := read_write_self _ found'
  obtain ⟨v, linked, quiet, untouched, live, listed⟩ := linkModule_spec ready written rfl
    (by rw [← main] at new; exact main' ▸ new)
  simp only [linked]
  have changed := settled.change (u := u.put p { m with initialized := true }) running
    (fun q other => by rw [← modules]; exact read_write_ne _ (by simpa using other))
    (fun q alive => by rw [← modules]; exact (live_write found' _ q).symm.trans alive)
  exact LoadOutcome.library (changed.enlist quiet.running untouched live) listed
    (quiet.mainModule.trans (main'.trans main))

/-- Finishing a program leaves it outside of the list. -/
theorem finishModule_program (settled : Settled s t order order' [p])
    (reg : Registry t order' (p :: outside) held) (found : read t.modules p = some m)
    (main : t.mainModule = some p) (absent : s.mainModule = none) (stack : m.HasStack) :
    Ends (fun _ => s.mainModule = none) (finishModule false p t) fun out =>
      LoadOutcome s order outside held out ∧ out.1.mainModule ≠ none := by
  simp only [finishModule, get_eq found, bind, Except.bind, Bool.false_eq_true, not_false_eq_true, if_true]
  have ready := reg.initialize found
  have changed := settled.change (u := t.put p { m with initialized := true }) rfl
    (fun q other => read_write_ne _ (by simpa using other))
    fun q live => (live_write found _ q).symm.trans live
  refine ⟨LoadOutcome.program changed ready absent main (read_write_self _ found) stack, ?_⟩
  show t.mainModule ≠ none
  simp [main]

/-- A library of the host is listed at once. -/
theorem loadNativeModule_ends (env : LoadEnv) (modname : Name) (reg : Registry s order outside held) :
    Ends (fun _ => False) (loadNativeModule env modname s) (NestedLoad order outside held s) := by
  unfold loadNativeModule
  cases env.native modname with
  | none => exact ⟨order, Settled.refl s order, reg, rfl⟩
  | some lib =>
    obtain ⟨m, shape⟩ : ∃ m : LxModule, m =
      { nativelib := true, name := modname, nativeDeinit := lib.deinit, initialized := true } := ⟨_, rfl⟩
    have reg' := @Registry.allocate s order outside held m reg (by rw [shape]) (by simp [shape])
      (by simp [shape, List.reduceOption])
    obtain ⟨t, linked, quiet, untouched, live, listed⟩ := linkModule_spec reg'
      (read_alloc_fresh s.modules m) (by rw [shape]) reg.fresh_ne_main
    simp only [← shape, linked, bind, Except.bind]
    exact ⟨_, (Settled.allocate s order m).enlist quiet.running untouched live, listed,
      quiet.mainModule⟩

/-- The search for a name comes back, with a listed module or with none. -/
theorem findModule_spec (modname : Name) (reg : Registry s order outside held) :
    ∃ found, findModule modname s = .ok found ∧ ∀ p, found = some p → p ∈ order := by
  have enough : order.length < s.steps := by
    have bound := reg.length_le
    simp only [List.length_append] at bound
    unfold Loader.steps
    omega
  obtain ⟨before, found, walked, member⟩ :=
    @walkUntil_finds _ LxModule.next (fun m => strcasecmp m.name modname) s.modules order
      s.loadedModules none s.steps reg.listed.forth enough
  exact ⟨found, by simp only [findModule, walked], member⟩

/-- With a program there, a load only ever lists a library. -/
theorem LoadOutcome.nested {out : Loader × Option Nat} (outcome : LoadOutcome s order outside held out)
    (program : s.mainModule ≠ none) : NestedLoad order outside held s out := by
  cases outcome with
  | library settled reg main => exact ⟨_, settled, reg, main⟩
  | program _ _ absent => exact absurd absent program

/-- Listing a library, or nothing, is one of the outcomes of a load. -/
theorem NestedLoad.outcome {out : Loader × Option Nat} (nested : NestedLoad order outside held s out) :
    LoadOutcome s order outside held out := by
  obtain ⟨order', settled, reg, main⟩ := nested
  exact LoadOutcome.library settled reg main

/-- A load never takes the program away that was there before it. -/
theorem LoadOutcome.keeps {out : Loader × Option Nat} (outcome : LoadOutcome s order outside held out)
    (program : s.mainModule ≠ none) : out.1.mainModule ≠ none := by
  cases outcome with
  | library _ _ main => exact main ▸ program
  | program _ _ absent => exact absurd absent program

/-- What a load of an image promises when its condition is met, and that it only works with a program there. -/
def ImageLoads (clean : Image → Loader → Prop) (load : Image → Loader → Loaded) : Prop :=
  ∀ image s order outside held, Registry s order outside held → clean image s →
    Ends (fun _ => s.mainModule = none) (load image s) fun out =>
      LoadOutcome s order outside held out ∧ (out.2 ≠ none → out.1.mainModule ≠ none)

/-- Loading by name finds a listed module, or loads a file, or else a library of the host. -/
theorem loadByNameWith_ends {env : LoadEnv} {clean : Image → Loader → Prop}
    {load : Image → Loader → Loaded} (images : ImageLoads clean load) (modname : Name)
    (reg : Registry s order outside held) (cleanly : CleanByName env clean modname s) :
    Ends (fun _ => s.mainModule = none) (loadByNameWith env load modname s)
      (LoadOutcome s order outside held) := by
  obtain ⟨found, searched, member⟩ := findModule_spec modname reg
  unfold CleanByName at cleanly
  rw [searched] at cleanly
  cases found with
  | some p =>
    -- The module gets another reference.
    have listed := member p rfl
    obtain ⟨m, found, ready, counted, small⟩ := reg.counted p listed
    have room : m.refcount + 1 < 2 ^ 32 := cleanly m found
    have bumped : (m.refcount + 1) % 2 ^ 32 = m.refcount + 1 := Nat.mod_eq_of_lt room
    simp only [loadByNameWith, searched, modify_eq found, bumped, bind, Except.bind, pure, Except.pure]
    have held_listed : ∀ q ∈ p :: held, q ∈ order := by
      intro q member
      rcases List.mem_cons.mp member with rfl | member
      · exact listed
      · exact reg.held_listed q member
    refine LoadOutcome.library (Release.recount found listed _ outside).settled
      (reg.recount listed found held_listed (fun q other => ?_) ?_ room) rfl
    · exact List.count_cons_of_ne (Ne.symm other)
    · show m.refcount + 1 = (referencesTo s.modules (outside ++ order) (p :: held)).count p
      rw [counted, count_referencesTo, count_referencesTo, List.count_cons_self]
      omega
  | none =>
    have native : ∀ t order', Registry t order' outside held →
        Ends (fun _ => s.mainModule = none) (loadNativeModule env modname t)
          (NestedLoad order' outside held t) := fun t order' reg' =>
      (loadNativeModule_ends env modname reg').mono (fun _ listed => listed)
        fun _ impossible => impossible.elim
    have files : Ends (fun _ => s.mainModule = none) (loadLibraryFile env load modname s)
        (LoadOutcome s order outside held) := by
      unfold loadLibraryFile
      cases opened : env.dll modname with
      | none => exact LoadOutcome.library (Settled.refl s order) reg rfl
      | some image =>
        exact (images image s order outside held reg (cleanly image opened)).mono
          (fun _ outcome => outcome.1) fun _ none => none
    simp only [loadByNameWith, searched, bind, Except.bind]
    refine Ends.bind files ?_
    rintro ⟨t, loaded⟩ outcome
    cases loaded with
    | some p => exact outcome
    | none =>
      cases outcome with
      | library settled reg' main =>
        refine (native t _ reg').mono (fun out listed => ?_) fun _ none => none
        obtain ⟨order'', settled', reg'', main'⟩ := listed
        exact LoadOutcome.library (settled.trans settled' (by simp)) reg'' (main'.trans main)

/-- The loads of dependencies keep their promise when the loads of images do. -/
theorem nestedLoads_of_imageLoads (env : LoadEnv) {clean : Image → Loader → Prop}
    {load : Image → Loader → Loaded} (images : ImageLoads clean load) :
    NestedLoads (CleanByName env clean) (loadByNameWith env load) := by
  intro name s order outside held reg program cleanly
  exact (loadByNameWith_ends images name reg cleanly).mono (fun _ outcome => outcome.nested program)
    fun _ none => program none

/-- Every load of an image, nested however deep, keeps the invariant. -/
theorem loadModule_ends (env : LoadEnv) (levels : Nat) :
    ImageLoads (CleanImage env levels) (loadModule env levels) := by
  -- The dependencies are loaded with one level less.
  induction levels with
  | zero =>
    intro image s order outside held reg accepted
    have accepted : image.refused s.mainModule = false := accepted
    simp only [loadModule, loadModuleWith, accepted, Bool.false_eq_true, if_false, Option.isNone_none,
      bind, Except.bind]
    refine Ends.bind (createModule_ends true reg accepted) ?_
    rintro ⟨t, created⟩ (⟨absent, failed⟩ | ⟨_, shallow, _⟩)
    · cases absent
      exact ⟨failed.outcome, fun worked => absurd rfl worked⟩
    · simp at shallow
  | succ levels ih =>
    intro image s order outside held reg cleanly
    obtain ⟨accepted, cleanly⟩ := cleanly
    have kind := accepted_isDLL accepted
    have new := reg.fresh_ne_main
    simp only [loadModule, loadModuleWith, accepted, Bool.false_eq_true, if_false, Option.isNone_some,
      bind, Except.bind]
    refine Ends.bind_ran (createModule_ends false reg accepted) ?_
    rintro ⟨t, created⟩ ran (⟨absent, failed⟩ | ⟨made, _, stack⟩)
    · cases absent
      exact ⟨failed.outcome, fun worked => absurd rfl worked⟩
    obtain ⟨rfl, rfl⟩ := Prod.mk.inj made
    obtain ⟨settled, reg', found, main, program⟩ := withModule_spec reg accepted
    have there : (withModule image s).mainModule ≠ none := by
      rw [main]
      split
      · rename_i library
        exact kind.mp library
      · simp
    refine Ends.bind ((loadDependencies_ends (nestedLoads_of_imageLoads env ih) image.isLx settled reg'
      found (List.nil_append _).symm rfl there (cleanly _ _ ran)).mono (fun _ ends => ends)
      fun _ impossible => impossible.elim) ?_
    rintro ⟨u, complete⟩ ⟨order', n, settled', reg'', found', same, main'⟩
    have program' : u.mainModule = s.mainModule ∨
        s.mainModule = none ∧ u.mainModule = some (fresh s.modules) := by
      rw [main']
      exact program
    show Ends _ (if complete = true ∧ image.finished = true then
      finishModule image.isDLL (fresh s.modules) u else abandonModule (some (fresh s.modules)) u) _
    split
    · -- Everything is there: a library is listed, and a program stays as it is.
      cases library : image.isDLL with
      | true =>
        have before := kind.mp library
        have same_program : u.mainModule = s.mainModule := by rw [main', main, library, if_pos rfl]
        exact (finishModule_library settled' reg'' found' same_program before new).mono
          (fun _ outcome => ⟨outcome, fun _ => outcome.keeps before⟩) fun _ none => none
      | false =>
        have absent : s.mainModule = none := by
          by_contra other
          rw [kind.mpr other] at library
          simp at library
        have inside : n.HasStack := by
          rw [same]
          simpa [LxModule.HasStack, Image.toModule, Image.hasStack] using stack library
        have adopted : u.mainModule = some (fresh s.modules) := by
          rw [main', main, library, if_neg Bool.false_ne_true]
        exact (finishModule_program settled' reg'' found' adopted absent inside).mono
          (fun _ outcome => ⟨outcome.1, fun _ => outcome.2⟩) fun _ none => none
    · have unready : n.initialized = false := by
        rw [same]
        rfl
      refine (abandonModule_ends settled' reg'' found' unready new program').mono ?_ fun _ none => none
      rintro ⟨v, loaded⟩ ⟨absent, failed⟩
      exact ⟨failed.outcome, fun worked => absurd absent worked⟩

end

end TwoIne
