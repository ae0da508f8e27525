import Mathlib.Data.List.Basic

/-! Pieces one behind the other, each of which says at its front how long it is. -/

namespace Frames

variable {α : Type} {size : List α → Nat} {data : List α}

/-- Whether data begin with a piece; a size of zero says that there is none. -/
def Begins (size : List α → Nat) (data : List α) : Prop := 0 < size data ∧ size data ≤ data.length

instance (size : List α → Nat) (data : List α) : Decidable (Begins size data) :=
  inferInstanceAs (Decidable (_ ∧ _))

/-- What is behind a piece is shorter. -/
theorem Begins.shorter (begins : Begins size data) :
    (data.drop (size data)).length < data.length := by
  rw [List.length_drop]
  exact Nat.sub_lt (Nat.lt_of_lt_of_le begins.1 begins.2) begins.1

/-- The pieces at the front of data. -/
def frames (size : List α → Nat) (data : List α) : List (List α) :=
  if _ : Begins size data then data.take (size data) :: frames size (data.drop (size data))
  else []
termination_by data.length
decreasing_by exact Begins.shorter ‹_›

/-- What is behind the pieces. -/
def behind (size : List α → Nat) (data : List α) : List α :=
  if _ : Begins size data then behind size (data.drop (size data)) else data
termination_by data.length
decreasing_by exact Begins.shorter ‹_›

/-- The first piece, and the others. -/
theorem frames_begins (begins : Begins size data) :
    frames size data = data.take (size data) :: frames size (data.drop (size data)) := by
  rw [frames, dif_pos begins]

/-- Without a piece there are no others. -/
theorem frames_ends (ends : ¬ Begins size data) : frames size data = [] := by
  rw [frames, dif_neg ends]

/-- What is behind the pieces is behind the others. -/
theorem behind_begins (begins : Begins size data) :
    behind size data = behind size (data.drop (size data)) := by
  rw [behind, dif_pos begins]

/-- Without a piece everything is left. -/
theorem behind_ends (ends : ¬ Begins size data) : behind size data = data := by
  rw [behind, dif_neg ends]

/-- What holds of data without a piece, and in front of a piece if it holds behind it. -/
theorem induct (size : List α → Nat) {P : List α → Prop} (ends : ∀ data, ¬ Begins size data → P data)
    (begins : ∀ data, Begins size data → P (data.drop (size data)) → P data) (data : List α) :
    P data := by
  induction length : data.length using Nat.strongRecOn generalizing data with
  | ind n ih =>
    by_cases piece : Begins size data
    · exact begins data piece (ih _ (length ▸ piece.shorter) _ rfl)
    · exact ends data piece

end Frames
