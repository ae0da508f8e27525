import TwoIne.Proofs.LxLoader.Release

/-! Ending the process frees every module once, and terminates each before what it depends on. -/

namespace TwoIne

open Cells HeapLists Chains Dependencies Outcomes

/-- What ending the process does to the modules that are there: the program and those on the list. -/
structure ShutDown (s v : Loader) : Prop where
  emptied : v.loadedModules = none
  dead : ∀ p, read v.modules p = none
  events : ∃ log, v.events = s.events ++ log ∧
    (∀ p, (freedIn log).count p = if (read s.modules p).isSome then 1 else 0) ∧
    (∀ p, (terminatedIn log).count p =
      if terminates s.modules p ∧ s.mainModule ≠ some p then 1 else 0) ∧
    ∀ front q back, terminatedIn log = front ++ q :: back →
      ∀ p, q ∈ dependenciesOf s.modules p → terminates s.modules p → s.mainModule ≠ some p → p ∈ front

section

variable {s t u : Loader} {order held : List Nat} {p : Nat} {m : LxModule}

/-- The first module of the list is released whatever refers to it, once its count is forced to one. -/
theorem releaseFirst_ends {rest : List Nat} (reg : Registry s (p :: rest) [] held)
    (running : s.running = true) (found : read s.modules p = some m) :
    Ends (fun _ => False) (freeLxModule s.steps (some p) (s.put p { m with refcount := 1 })) fun t =>
      ∃ gone left, Release s t [] (p :: rest) gone left ∧
        Registry t left [] (held.filter (· ≠ p)) ∧ p ∉ left := by
  -- No module refers to the first of the list, so the references that are held to it may be forgotten.
  have distinct : (p :: rest).Nodup := reg.distinct
  have unneeded : (references (dependenciesOf s.modules) (p :: rest)).count p = 0 := by
    rw [List.count_eq_zero, mem_references]
    rintro ⟨q, owner, depends⟩
    exact reg.layered.first_unused distinct owner depends
  have forgotten : (held.filter (· ≠ p)).count p = 0 := by
    rw [List.count_eq_zero]
    intro member
    simpa using (List.mem_filter.mp member).2
  have listed : p ∈ p :: rest := List.mem_cons_self
  have forced : Registry (s.put p { m with refcount := 1 }) (p :: rest) []
      (p :: held.filter (· ≠ p)) := by
    refine reg.recount listed found (fun q member => ?_) (fun q other => ?_) ?_ (by omega)
    · rcases List.mem_cons.mp member with rfl | member
      · exact listed
      · exact reg.held_listed q (List.mem_filter.mp member).1
    · rw [List.count_cons_of_ne (Ne.symm other), List.count_filter (by simpa using other)]
    · rw [count_referencesTo, List.nil_append, unneeded, List.count_cons_self, forgotten]
  have enough : (p :: rest).length ≤ s.steps := by
    have bound := reg.length_le
    rw [List.nil_append] at bound
    unfold Loader.steps
    omega
  refine (freeLxModule_ends s.steps _ _ _ _ _ forced enough).mono ?_ ?_
  · rintro t ⟨gone, left, release, reg', referred⟩
    have slots := dependenciesOf_put (n := { m with refcount := 1 }) found rfl
    refine ⟨gone, left, (Release.recount found listed 1 []).append release reg.distinct
      fun q => reg.found, reg', fun member => ?_⟩
    have positive := referred member
    rw [count_referencesTo, List.nil_append, references_congr fun q _ => slots q, unneeded,
      forgotten] at positive
    exact Nat.lt_irrefl 0 positive
  · rintro fault ⟨_, idle, _⟩
    rw [show (s.put p { m with refcount := 1 }).running = s.running from rfl, running] at idle
    simp at idle

/-- Releasing the first of the list over and over empties it. -/
theorem releaseLoaded_ends {rounds : Nat} (reg : Registry s order [] held)
    (running : s.running = true) (enough : order.length ≤ rounds) :
    Ends (fun _ => False) (releaseLoaded rounds s) fun t =>
      t.loadedModules = none ∧ ∃ gone, Release s t [] order gone [] := by
  -- Each round frees at least the first module.
  induction rounds generalizing s order held with
  | zero =>
    have empty := List.length_eq_zero_iff.mp (Nat.le_zero.mp enough)
    subst empty
    have head : s.loadedModules = none := Chain.head reg.listed.forth
    simp only [releaseLoaded, if_pos head]
    exact ⟨head, [], Release.nothing s [] []⟩
  | succ rounds ih =>
    have head := Chain.head reg.listed.forth
    cases order with
    | nil =>
      have head : s.loadedModules = none := head
      simp only [releaseLoaded, head]
      exact ⟨head, [], Release.nothing s [] []⟩
    | cons p rest =>
      have head : s.loadedModules = some p := head
      obtain ⟨m, found⟩ := reg.found (p := p) (by simp)
      have stepped := releaseFirst_ends reg running found
      have steps : (s.put p { m with refcount := 1 }).steps = s.steps :=
        congrArg (· + 1) (fresh_write _ _ _)
      simp only [releaseLoaded, head, modify_eq found, steps, bind, Except.bind]
      refine Ends.bind stepped ?_
      rintro t ⟨gone, left, release, reg', away⟩
      have fewer : left.length ≤ rounds := by
        -- The first module is among those that are gone.
        have first : p ∈ gone := by
          have member := release.parts.symm.subset (List.mem_cons_self (a := p) (l := rest))
          exact (List.mem_append.mp member).resolve_right away
        have lengths := release.parts.length_eq
        have positive := List.length_pos_of_mem first
        simp only [List.length_append, List.length_cons] at lengths enough
        omega
      refine (ih reg' (release.running.trans running) fewer).mono ?_ fun _ impossible => impossible
      rintro u ⟨empty, more, release'⟩
      exact ⟨empty, gone ++ more, release.append release' reg.distinct fun q => reg.found⟩

/-- Ending the process with a running program shuts everything down, and uses nothing that was freed. -/
theorem lxTerminate_ends {main : Nat} (reg : Registry s order [main] held)
    (program : s.mainModule = some main) (running : s.running = true)
    (found : read s.modules main = some m) (stack : m.HasStack)
    (complete : ∀ q n, read s.modules q = some n → q ∈ main :: order) :
    Ends (fun _ => False) (lxTerminate s) (ShutDown s) := by
  obtain ⟨unlisted, distinct⟩ := List.nodup_cons.mp (show (main :: order).Nodup from reg.distinct)
  have enough : order.length ≤ fresh s.modules := by
    have bound := reg.length_le
    simp only [List.length_append] at bound
    omega
  rw [lxTerminate, program]
  refine Ends.bind ((freeLxModule_outside reg found (Or.inr program) enough).mono
    (fun _ ends => ends) ?_) ?_
  · -- The program has a stack, and is running.
    rintro fault (⟨_, stackless | ⟨_, idle⟩⟩ | ⟨_, _, none⟩)
    · exact stackless stack
    · rw [running] at idle
      simp at idle
    · rw [program] at none
      simp at none
  rintro _ ⟨u, gone, left, rfl, release, reg'⟩
  have away : main ∉ [] ++ left := fun member => unlisted (release.left_listed member)
  have released : Registry (u.freed main) left [] held := reg'.free away
  have shorter : left.length ≤ (u.freed main).steps := by
    have bound := released.length_le
    exact Nat.le_succ_of_le bound
  refine (releaseLoaded_ends released (release.running.trans running) shorter).mono ?_
    fun _ impossible => impossible
  rintro v ⟨emptied, more, release'⟩
  have all : (gone ++ more).Perm order := by
    have rest := release'.parts
    rw [List.append_nil] at rest
    exact (rest.append_left gone).trans release.parts
  have same : ∀ q ∈ order, SameModules s.modules (s.leave main m).modules q := fun q member =>
    SameModules.of_eq (read_write_ne _ fun equal => unlisted (equal ▸ member))
  have same_left : ∀ q ∈ left, SameModules (s.leave main m).modules (u.freed main).modules q := by
    intro q member
    refine (release.kept q member).trans (SameModules.of_eq (read_free_ne ?_))
    rintro rfl
    exact unlisted (release.left_listed member)
  have live : ∀ q ∈ order, ∃ n, read s.modules q = some n := fun q member =>
    reg.found (List.mem_append_right _ member)
  have live' : ∀ q ∈ order, ∃ n, read (s.leave main m).modules q = some n := by
    intro q member
    obtain ⟨n, found⟩ := live q member
    obtain ⟨k, found', _⟩ := same q member n found
    exact ⟨k, found'⟩
  obtain ⟨log, logged, terminated, freed⟩ := release.events
  obtain ⟨log', logged', terminated', freed'⟩ := release'.events
  have terminations : terminatedIn (log ++ .freed main :: log') =
      (gone ++ more).filter (terminates s.modules) := by
    have first : gone.filter (terminates (s.leave main m).modules) =
        gone.filter (terminates s.modules) := by
      apply List.filter_congr
      intro q member
      exact (same q (release.gone_listed member)).terminates (live q (release.gone_listed member))
    have second : more.filter (terminates (u.freed main).modules) =
        more.filter (terminates s.modules) := by
      apply List.filter_congr
      intro q member
      have listed := release'.gone_listed member
      have before := release.left_listed listed
      rw [(same_left q listed).terminates (live' q before), (same q before).terminates (live q before)]
    rw [List.filter_append, ← first, ← second, ← terminated, ← terminated']
    simp [terminatedIn]
  have deaths : (freedIn (log ++ .freed main :: log')).Perm (main :: order) := by
    have parts : freedIn (log ++ .freed main :: log') = freedIn log ++ main :: freedIn log' := by
      simp [freedIn]
    rw [parts]
    exact List.perm_middle.trans (((freed.append freed').trans all).cons main)
  have members : ∀ q, (read s.modules q).isSome ↔ q ∈ main :: order := by
    intro q
    constructor
    · intro alive
      obtain ⟨n, found⟩ := Option.isSome_iff_exists.mp alive
      exact complete q n found
    · intro member
      obtain ⟨n, found⟩ := reg.found (show q ∈ [main] ++ order from member)
      simp [found]
  refine ⟨emptied, fun q => ?_, log ++ .freed main :: log', ?_, fun q => ?_, fun q => ?_, ?_⟩
  · by_cases listed : q ∈ left
    · refine release'.dead q ?_
      have rest := release'.parts
      rw [List.append_nil] at rest
      exact rest.symm.subset listed
    · rw [release'.untouched q listed]
      show read (Cells.free u.modules main) q = none
      rcases eq_or_ne q main with rfl | other
      · exact read_free_self _ _
      rw [read_free_ne other]
      by_cases member : q ∈ order
      · exact release.dead q ((List.mem_append.mp (release.parts.symm.subset member)).resolve_right listed)
      · rw [release.untouched q member]
        show read (write s.modules main { m with refcount := 0 }) q = none
        rw [read_write_ne _ other, ← Option.not_isSome_iff_eq_none, members q]
        simp [other, member]
  · rw [logged']
    show (u.events ++ [.freed main]) ++ log' = _
    rw [logged]
    simp [Loader.leave, Loader.put]
  · rw [deaths.count_eq q, (List.nodup_cons.mpr ⟨unlisted, distinct⟩).count]
    simp only [members q]
  · rw [terminations]
    by_cases code : terminates s.modules q = true
    · rw [List.count_filter code, all.count_eq q, distinct.count]
      have alive : q ∈ main :: order := by
        rw [← members q]
        revert code
        cases h : read s.modules q <;> simp [terminates, h]
      have listed : q ∈ order ↔ s.mainModule ≠ some q := by
        rw [program, ne_eq, Option.some.injEq]
        constructor
        · rintro member rfl
          exact unlisted member
        · intro other
          simpa [Ne.symm other] using alive
      simp only [listed, code, true_and]
    · have absent : q ∉ (gone ++ more).filter (terminates s.modules) := fun member =>
        code (List.mem_filter.mp member).2
      rw [List.count_eq_zero.mpr absent, if_neg fun both => code both.1]
  · intro front q back split p depends code other
    rw [terminations] at split
    have listed : p ∈ order := by
      have alive : p ∈ main :: order := by
        rw [← members p]
        revert code
        cases h : read s.modules p <;> simp [terminates, h]
      rw [program, ne_eq, Option.some.injEq] at other
      simpa [Ne.symm other] using alive
    have leaving := release.firstOut.append release'.firstOut fun b owner => by
      rcases List.mem_append.mp (release.parts.symm.subset owner) with out | kept
      · exact Or.inl out
      · exact Or.inr ⟨kept, (same_left b kept).slots (live' b owner)⟩
    refine leaving.filter (terminates s.modules) split listed ?_ code
    rw [(same p listed).slots (live p listed)]
    exact depends

end

end TwoIne
