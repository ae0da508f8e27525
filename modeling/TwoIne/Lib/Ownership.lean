import Mathlib.Logic.Function.Basic

/-! Resources of which each one in use has exactly one owner, and each owner at most one resource. -/

namespace Ownership

variable {ι δ : Type*}

/-- No two owners have the same resource, and the resources in use are those that are owned. -/
structure Owns (owner : ι → Option δ) (used : δ → Prop) : Prop where
  apart : ∀ {i j : ι} {d : δ}, owner i = some d → owner j = some d → i = j
  used_iff : ∀ d, used d ↔ ∃ i, owner i = some d

variable {owner : ι → Option δ} {used used' : δ → Prop} {i : ι} {d : δ}

/-- What is owned is in use. -/
theorem Owns.inUse (owns : Owns owner used) (owned : owner i = some d) : used d :=
  (owns.used_iff d).mpr ⟨i, owned⟩

/-- What counts as in use may be said in another way. -/
theorem Owns.congr (owns : Owns owner used) (same : ∀ d, used' d ↔ used d) : Owns owner used' :=
  ⟨owns.apart, fun d => (same d).trans (owns.used_iff d)⟩

variable [DecidableEq ι]

/-- An owner without a resource takes one that is not in use. -/
theorem Owns.acquire (owns : Owns owner used) (idle : owner i = none) (unused : ¬ used d) :
    Owns (Function.update owner i (some d)) fun e => e = d ∨ used e where
  apart {j k e} first second := by
    rw [Function.update_apply] at first second
    -- A resource that another one owns is in use, and so is not the new one.
    split at first
    · next same =>
      cases first
      split at second
      · next also => rw [same, also]
      · exact absurd (owns.inUse second) unused
    · split at second
      · cases second
        exact absurd (owns.inUse first) unused
      · exact owns.apart first second
  used_iff e := by
    constructor
    · rintro (rfl | before)
      · exact ⟨i, Function.update_self _ _ _⟩
      · obtain ⟨j, owned⟩ := (owns.used_iff e).mp before
        have other : j ≠ i := by
          rintro rfl
          rw [idle] at owned
          cases owned
        exact ⟨j, (Function.update_of_ne other _ _).trans owned⟩
    · rintro ⟨j, owned⟩
      rw [Function.update_apply] at owned
      split at owned
      · cases owned
        exact .inl rfl
      · exact .inr (owns.inUse owned)

/-- An owner gives up its resource. -/
theorem Owns.release (owns : Owns owner used) (owned : owner i = some d) :
    Owns (Function.update owner i none) fun e => e ≠ d ∧ used e where
  apart {j k e} first second := by
    rw [Function.update_apply] at first second
    split at first
    · cases first
    · split at second
      · cases second
      · exact owns.apart first second
  used_iff e := by
    constructor
    · rintro ⟨other, before⟩
      obtain ⟨j, held⟩ := (owns.used_iff e).mp before
      have away : j ≠ i := by
        rintro rfl
        exact other (Option.some.inj (held.symm.trans owned))
      exact ⟨j, (Function.update_of_ne away _ _).trans held⟩
    · rintro ⟨j, held⟩
      rw [Function.update_apply] at held
      split at held
      · cases held
      · next away =>
        -- Its owner would be the one that gave it up.
        refine ⟨?_, owns.inUse held⟩
        rintro rfl
        exact away (owns.apart held owned)

end Ownership
