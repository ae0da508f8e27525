import Mathlib.Algebra.Group.Nat.Defs
import Mathlib.Data.Nat.Basic

/-!
Spreading a remainder over steps: it is added up, and each time the sum has reached a modulus, the
modulus is taken away once and the step is made longer by one.
-/

namespace ErrorDiffusion

/-- How many of the first `n` steps are longer by one. -/
def extras (remainder modulus n : Nat) : Nat :=
  if remainder < modulus then n * remainder / modulus else n

/-- What is left of the sum after `n` steps. -/
def rest (remainder modulus n : Nat) : Nat :=
  n * remainder - modulus * extras remainder modulus n

variable {remainder modulus : Nat}

/-- Nothing has been spread before the first step. -/
@[simp] theorem extras_zero : extras remainder modulus 0 = 0 := by
  unfold extras
  split
  · rw [Nat.zero_mul, Nat.zero_div]
  · rfl

/-- Nothing is left over before the first step. -/
@[simp] theorem rest_zero : rest remainder modulus 0 = 0 := by
  rw [rest, Nat.zero_mul, Nat.zero_sub]

/-- The steps and what is left of them come to the whole. -/
theorem extras_rest (remainder modulus n : Nat) :
    modulus * extras remainder modulus n + rest remainder modulus n = n * remainder := by
  unfold rest extras
  split
  · exact Nat.add_sub_cancel' (Nat.mul_div_le _ _)
  · rename_i large
    rw [Nat.mul_comm modulus n]
    exact Nat.add_sub_cancel' (Nat.mul_le_mul_left n (Nat.le_of_not_lt large))

/-- A remainder below the modulus leaves less than the modulus. -/
theorem rest_lt (small : remainder < modulus) (n : Nat) : rest remainder modulus n < modulus := by
  have split := extras_rest remainder modulus n
  rw [extras, if_pos small] at split
  have divided := Nat.div_add_mod (n * remainder) modulus
  have below := Nat.mod_lt (n * remainder) (Nat.zero_lt_of_lt small)
  omega

/-- A step takes the modulus away if the sum has reached it. -/
theorem step (remainder modulus n : Nat) :
    (modulus ≤ rest remainder modulus n + remainder ∧
      extras remainder modulus (n + 1) = extras remainder modulus n + 1 ∧
      rest remainder modulus (n + 1) = rest remainder modulus n + remainder - modulus) ∨
    (rest remainder modulus n + remainder < modulus ∧
      extras remainder modulus (n + 1) = extras remainder modulus n ∧
      rest remainder modulus (n + 1) = rest remainder modulus n + remainder) := by
  have now := extras_rest remainder modulus n
  have next := extras_rest remainder modulus (n + 1)
  rw [Nat.succ_mul] at next
  by_cases small : remainder < modulus
  · -- The quotient goes up by one where the sum passes the modulus.
    have below := rest_lt small n
    have quotient : extras remainder modulus (n + 1) =
        (rest remainder modulus n + remainder) / modulus + extras remainder modulus n := by
      have positive : 0 < modulus := Nat.zero_lt_of_lt small
      rw [← Nat.add_mul_div_left _ _ positive, extras, if_pos small, Nat.succ_mul, ← now]
      congr 1
      omega
    by_cases passed : modulus ≤ rest remainder modulus n + remainder
    · have one : (rest remainder modulus n + remainder) / modulus = 1 :=
        Nat.div_eq_of_lt_le (by omega) (by omega)
      rw [one, Nat.add_comm 1] at quotient
      rw [quotient, Nat.mul_succ] at next
      exact Or.inl ⟨passed, quotient, by omega⟩
    · rw [Nat.div_eq_of_lt (Nat.lt_of_not_le passed), Nat.zero_add] at quotient
      rw [quotient] at next
      exact Or.inr ⟨Nat.lt_of_not_le passed, quotient, by omega⟩
  · -- Each step takes the modulus away, but only once.
    have all : extras remainder modulus (n + 1) = extras remainder modulus n + 1 := by
      rw [extras, if_neg small, extras, if_neg small]
    rw [all, Nat.mul_succ] at next
    exact Or.inl ⟨by omega, all, by omega⟩

end ErrorDiffusion
