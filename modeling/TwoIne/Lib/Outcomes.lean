import Mathlib.Logic.Basic

/-!
What a computation that may fail promises: a condition on its result, and which faults it may end
in.
-/

namespace Outcomes

universe u v

variable {ε : Type u} {α β : Type v} {may other : ε → Prop} {post later : α → Prop}

/-- The computation ends in a result that meets the condition, or in one of the faults allowed. -/
def Ends (may : ε → Prop) (run : Except ε α) (post : α → Prop) : Prop :=
  match run with
  | .ok result => post result
  | .error fault => may fault

/-- A result that meets the condition. -/
theorem Ends.ok {result : α} (meets : post result) : Ends may (.ok result) post := meets

/-- What follows a computation may rely on its promise. -/
theorem Ends.bind {run : Except ε α} {next : α → Except ε β} {final : β → Prop}
    (first : Ends may run post) (rest : ∀ result, post result → Ends may (next result) final) :
    Ends may (run >>= next) final := by
  -- A fault of the first part is the fault of the whole.
  cases run with
  | error fault => exact first
  | ok result => exact rest result first

/-- What follows a computation may rely on its promise, and on what it actually came to. -/
theorem Ends.bind_ran {run : Except ε α} {next : α → Except ε β} {final : β → Prop}
    (first : Ends may run post)
    (rest : ∀ result, run = .ok result → post result → Ends may (next result) final) :
    Ends may (run >>= next) final := by
  cases run with
  | error fault => exact first
  -- The result is the one the first part actually came to.
  | ok result => exact rest result rfl first

/-- A promise may be weakened. -/
theorem Ends.mono {run : Except ε α} (ends : Ends may run post)
    (weaker : ∀ result, post result → later result) (faults : ∀ fault, may fault → other fault) :
    Ends other run later := by
  -- Both ends of the promise are weakened at once.
  cases run with
  | error fault => exact faults fault ends
  | ok result => exact weaker result ends

/-- A computation of two parts has a result where both parts have one. -/
theorem bind_ok {run : Except ε α} {next : α → Except ε β} {result : β} :
    run >>= next = .ok result ↔ ∃ between, run = .ok between ∧ next between = .ok result := by
  constructor
  · intro done
    cases run with
    | error fault => cases done
    | ok between => exact ⟨between, rfl, done⟩
  · rintro ⟨between, rfl, done⟩
    exact done

/-- A computation that may not fault has a result. -/
theorem Ends.result {run : Except ε α} (ends : Ends may run post) (safe : ∀ fault, ¬ may fault) :
    ∃ result, run = .ok result ∧ post result := by
  -- The fault is excluded, so the computation came back.
  cases run with
  | error fault => exact absurd ends (safe fault)
  | ok result => exact ⟨result, rfl, ends⟩

end Outcomes
