import Mathlib.Logic.Basic

/-! Runs of a step function that may fault, and the exact condition under which a run stays good. -/

namespace Runs

variable {σ α β : Type*} (step : σ → α → Option (σ × β))

/-- The state a run of actions ends in, unless one of its steps faults. -/
def runFrom : σ → List α → Option σ
  | s, [] => some s
  | s, a :: rest =>
    -- A fault ends the process, so no later action is taken.
    match step s a with
    | none => none
    | some (t, _) => runFrom t rest

/-- Every action of the run satisfies the predicate in the state it is taken in. -/
def Each (holds : σ → α → Prop) : σ → List α → Prop
  | _, [] => True
  | s, a :: rest => holds s a ∧ ∀ t out, step s a = some (t, out) → Each holds t rest

/--
No step faults, every state on the way is good, and every step does what it is specified to do.
-/
def StaysGood (good : σ → Prop) (spec : σ → α → σ → β → Prop) : σ → List α → Prop
  | s, [] => good s
  | s, a :: rest =>
    good s ∧ ∃ t out, step s a = some (t, out) ∧ spec s a t out ∧ StaysGood good spec t rest

/-- A predicate that can be tested on single actions can be tested along a run. -/
instance Each.decide (holds : σ → α → Prop) [∀ s a, Decidable (holds s a)] :
    ∀ s acts, Decidable (Each step holds s acts)
  | _, [] => .isTrue trivial
  | s, a :: rest =>
    match stepped : step s a with
    | none => decidable_of_iff (holds s a) (by simp [Each, stepped])
    | some (t, out) =>
      haveI := Each.decide holds t rest
      decidable_of_iff (holds s a ∧ Each step holds t rest) (by simp [Each, stepped])

variable {step}

/-- A run of two parts is the run of the first and then of the second. -/
theorem runFrom_append {s : σ} (first second : List α) :
    runFrom step s (first ++ second) = (runFrom step s first).bind (runFrom step · second) := by
  -- The first part is taken action by action.
  induction first generalizing s with
  | nil => rfl
  | cons a rest ih =>
    simp only [List.cons_append, runFrom]
    cases step s a with
    | none => rfl
    | some taken => exact ih

/-- What holds of every action in every state holds along every run. -/
theorem each_of_forall {holds : σ → α → Prop} (always : ∀ s a, holds s a) {s : σ} (acts : List α) :
    Each step holds s acts := by
  -- The predicate holds of the first action, and of the later ones by induction.
  induction acts generalizing s with
  | nil => trivial
  | cons a rest ih => exact ⟨always s a, fun _ _ _ => ih⟩

/-- A step that is known is followed by the rest of the run. -/
theorem Each.cons {holds : σ → α → Prop} {s t : σ} {a : α} {out : β} {rest : List α}
    (stepped : step s a = some (t, out)) (here : holds s a) (later : Each step holds t rest) :
    Each step holds s (a :: rest) := by
  refine ⟨here, fun u other again => ?_⟩
  cases stepped.symm.trans again
  exact later

/-- A run that stays good starts in a good state. -/
theorem StaysGood.start {good : σ → Prop} {spec : σ → α → σ → β → Prop} {s : σ} {acts : List α}
    (stays : StaysGood step good spec s acts) : good s := by
  -- Both shapes of a run record the state it starts in.
  cases acts with
  | nil => exact stays
  | cons a rest => exact stays.1

/-- A run that stays good ends in a good state. -/
theorem StaysGood.finish {good : σ → Prop} {spec : σ → α → σ → β → Prop} {s t : σ} {acts : List α}
    (stays : StaysGood step good spec s acts) (ran : runFrom step s acts = some t) : good t := by
  -- The run and the predicate take the same steps.
  induction acts generalizing s with
  | nil => cases ran; exact stays
  | cons a rest ih =>
    obtain ⟨_, u, out, stepped, _, later⟩ := stays
    simp only [runFrom, stepped] at ran
    exact ih later ran

/-- A run that stays good does not fault. -/
theorem StaysGood.ran {good : σ → Prop} {spec : σ → α → σ → β → Prop} {s : σ} {acts : List α}
    (stays : StaysGood step good spec s acts) : ∃ t, runFrom step s acts = some t := by
  -- Each step recorded by the predicate is the one the run takes.
  induction acts generalizing s with
  | nil => exact ⟨s, rfl⟩
  | cons a rest ih =>
    obtain ⟨_, u, out, stepped, _, later⟩ := stays
    simpa only [runFrom, stepped] using ih later

/-- A condition that is enough for single steps is enough for runs. -/
theorem staysGood_of_each {good : σ → Prop} {spec : σ → α → σ → β → Prop} {may cond : σ → α → Prop}
    (enough : ∀ s a, good s → may s a → cond s a →
      ∃ t out, step s a = some (t, out) ∧ spec s a t out ∧ good t)
    {s : σ} (start : good s) {acts : List α} (issued : Each step may s acts)
    (met : Each step cond s acts) : StaysGood step good spec s acts := by
  -- The induction follows the run, so the starting state stays quantified over.
  induction acts generalizing s with
  | nil => exact start
  | cons a rest ih =>
    obtain ⟨t, out, stepped, done, good_next⟩ := enough s a start issued.1 met.1
    refine ⟨start, t, out, stepped, done, ?_⟩
    exact ih good_next (issued.2 t out stepped) (met.2 t out stepped)

/-- A condition that is needed for single steps is needed for runs. -/
theorem each_of_staysGood {good : σ → Prop} {spec : σ → α → σ → β → Prop} {may cond : σ → α → Prop}
    (needed : ∀ s a t out, good s → may s a → step s a = some (t, out) → spec s a t out → good t →
      cond s a)
    {s : σ} {acts : List α} (issued : Each step may s acts)
    (stays : StaysGood step good spec s acts) : Each step cond s acts := by
  induction acts generalizing s with
  | nil => trivial
  | cons a rest ih =>
    obtain ⟨start, t, out, stepped, done, later⟩ := stays
    refine ⟨needed s a t out start issued.1 stepped done later.start, ?_⟩
    intro u other again
    -- The step function is deterministic, so the run continues from the same state.
    cases stepped.symm.trans again
    exact ih (issued.2 t out stepped) later

/--
A condition that is exact for single steps is exact for runs.

The step lemma decides one action from a good state, and the run lemmas carry it through any
sequence.
-/
theorem staysGood_iff_each {good : σ → Prop} {spec : σ → α → σ → β → Prop}
    {may cond : σ → α → Prop}
    (exact_step : ∀ s a, good s → may s a →
      ((∃ t out, step s a = some (t, out) ∧ spec s a t out ∧ good t) ↔ cond s a))
    {s : σ} (start : good s) {acts : List α} (issued : Each step may s acts) :
    StaysGood step good spec s acts ↔ Each step cond s acts := by
  constructor
  · -- What a step did shows that it met the condition.
    apply each_of_staysGood _ issued
    intro s a t out here permitted stepped done good_next
    exact (exact_step s a here permitted).mp ⟨t, out, stepped, done, good_next⟩
  · apply staysGood_of_each _ start issued
    exact fun s a here permitted => (exact_step s a here permitted).mpr

/--
The same where steps are decided by an invariant that says more than that a state is good, and that
every step keeps which meets the condition.
-/
theorem staysGood_iff_each_of_inv {good inv : σ → Prop} {spec : σ → α → σ → β → Prop}
    {may cond : σ → α → Prop} (good_of_inv : ∀ s, inv s → good s)
    (exact_step : ∀ s a, inv s → may s a →
      ((∃ t out, step s a = some (t, out) ∧ spec s a t out ∧ good t) ↔ cond s a))
    (kept : ∀ s a t out, inv s → may s a → cond s a → step s a = some (t, out) → inv t)
    {s : σ} (start : inv s) {acts : List α} (issued : Each step may s acts) :
    StaysGood step good spec s acts ↔ Each step cond s acts := by
  induction acts generalizing s with
  | nil => exact iff_of_true (good_of_inv s start) trivial
  | cons a rest ih =>
    constructor
    · rintro ⟨_, t, out, stepped, done, later⟩
      have met := (exact_step s a start issued.1).mp ⟨t, out, stepped, done, later.start⟩
      refine ⟨met, fun u other again => ?_⟩
      -- The step function is deterministic, so the run continues from the same state.
      cases stepped.symm.trans again
      exact (ih (kept s a t out start issued.1 met stepped) (issued.2 t out stepped)).mp later
    · rintro ⟨met, later⟩
      obtain ⟨t, out, stepped, done, _⟩ := (exact_step s a start issued.1).mpr met
      refine ⟨good_of_inv s start, t, out, stepped, done, ?_⟩
      exact (ih (kept s a t out start issued.1 met stepped) (issued.2 t out stepped)).mpr
        (later t out stepped)

/-- The states that some run of permitted actions leads to. -/
inductive Reaches (step : σ → α → Option (σ × β)) (may : σ → α → Prop) (s : σ) : σ → Prop
  | here : Reaches step may s s
  | next {t u : σ} {a : α} {out : β} (before : Reaches step may s t) (permitted : may t a)
      (stepped : step t a = some (u, out)) : Reaches step may s u

/-- What holds at the start and survives every permitted step holds in every state reached. -/
theorem Reaches.invariant {may : σ → α → Prop} {s t : σ} (reached : Reaches step may s t)
    (inv : σ → Prop) (start : inv s)
    (kept : ∀ t a u out, inv t → may t a → step t a = some (u, out) → inv u) : inv t := by
  -- The last step of the run is the one that needs the step lemma.
  induction reached with
  | here => exact start
  | next _ permitted stepped ih => exact kept _ _ _ _ ih permitted stepped

end Runs
