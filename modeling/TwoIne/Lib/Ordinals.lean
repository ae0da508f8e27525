import Mathlib.Data.BitVec
import Mathlib.Data.List.Range
import Mathlib.Tactic.Common

/-! Numbering the items of groups, where some groups only take numbers and have no items. -/

namespace Ordinals

/-- A group of items; one that is not used takes numbers for items that are not there. -/
structure Group where
  count : Nat
  used : Bool
  deriving DecidableEq, Repr

/-- The numbers of the items, from one on. -/
def positions : Nat → List Group → List Nat
  | _, [] => []
  | start, group :: rest =>
    (if group.used then List.range' start group.count else []) ++
      positions (start + group.count) rest

/-- How many items there are. -/
def items (groups : List Group) : Nat :=
  (groups.map fun group => if group.used then group.count else 0).sum

/-- How many numbers are taken. -/
def numbers (groups : List Group) : Nat := (groups.map Group.count).sum

variable {start w : Nat} {groups : List Group}

/-- Each item has a number. -/
@[simp] theorem length_positions (start : Nat) (groups : List Group) :
    (positions start groups).length = items groups := by
  induction groups generalizing start with
  | nil => rfl
  | cons group rest ih =>
    have later : items (group :: rest) =
        (if group.used then group.count else 0) + items rest := rfl
    rw [positions, List.length_append, ih, later]
    cases group.used <;> simp

/-- All numbers are from the first one on, and among those that are taken. -/
theorem mem_positions {position : Nat} (member : position ∈ positions start groups) :
    start ≤ position ∧ position < start + numbers groups := by
  induction groups generalizing start with
  | nil => cases member
  | cons group rest ih =>
    have taken : numbers (group :: rest) = group.count + numbers rest := rfl
    rw [positions, List.mem_append] at member
    rcases member with here | later
    · split at here
      · have inside := List.mem_range'_1.mp here
        omega
      · cases here
    · have inside := ih later
      omega

/-- The numbers increase. -/
theorem positions_increasing (start : Nat) (groups : List Group) :
    (positions start groups).Pairwise (· < ·) := by
  induction groups generalizing start with
  | nil => exact List.Pairwise.nil
  | cons group rest ih =>
    rw [positions, List.pairwise_append]
    refine ⟨?_, ih _, fun here before there behind => ?_⟩
    · split
      · exact List.pairwise_lt_range'
      · exact List.Pairwise.nil
    · -- All numbers of a group are before those of the groups behind it.
      have after := (mem_positions behind).1
      split at before
      · have inside := List.mem_range'_1.mp before
        omega
      · cases before

/-- Numbers that are cut to some width are the numbers exactly if the width has room for them. -/
theorem positions_cut_iff (w start : Nat) (groups : List Group) :
    ((positions start groups).map fun position => (BitVec.ofNat w position).toNat) =
        positions start groups ↔
      ∀ position ∈ positions start groups, position < 2 ^ w := by
  have each : ∀ position, (BitVec.ofNat w position).toNat = position ↔ position < 2 ^ w := by
    intro position
    rw [BitVec.toNat_ofNat]
    exact ⟨fun same => same ▸ Nat.mod_lt _ (Nat.two_pow_pos w), Nat.mod_eq_of_lt⟩
  constructor
  · intro same position member
    have all := List.map_inj_left.mp (same.trans (List.map_id _).symm)
    exact (each position).mp (all position member)
  · intro small
    refine (List.map_inj_left.mpr fun position member => ?_).trans (List.map_id _)
    exact (each position).mpr (small position member)

end Ordinals
