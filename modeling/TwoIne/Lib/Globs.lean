import Mathlib.Data.List.Infix

/-!
Patterns whose items stand for one letter or for any number of them, and the scan that settles how
much an item of the second kind takes without ever trying again.
-/

namespace Globs

variable {α : Type*}

/--
An item of a pattern: one letter, which the end of the text may stand in for, or any number of
letters, with the letters that the committed scan stops at.
-/
inductive Item (α : Type*) where
  | one (accepts : α → Bool) (atEnd : Bool)
  | many (stop : α → Bool)

/-- The items of a pattern take up a whole text. -/
inductive Matches : List (Item α) → List α → Prop where
  | done : Matches [] []
  | one {accepts : α → Bool} {atEnd : Bool} {items : List (Item α)} {letter : α} {text : List α} :
    accepts letter = true → Matches items text →
      Matches (.one accepts atEnd :: items) (letter :: text)
  | ended {accepts : α → Bool} {items : List (Item α)} :
    Matches items [] → Matches (.one accepts true :: items) []
  | many {stop : α → Bool} {items : List (Item α)} {rest text : List α} :
    rest <:+ text → Matches items rest → Matches (.many stop :: items) text

/-- What is left of a text from the first letter on that a scan stops at. -/
def fromStop (stop : α → Bool) (text : List α) : List α := text.dropWhile fun letter => !stop letter

/-- The scan that goes on from the first letter it stops at, and from nowhere else. -/
def committed : List (Item α) → List α → Bool
  | [], text => text.isEmpty
  | .one _ atEnd :: items, [] => atEnd && committed items []
  | .one accepts _ :: items, letter :: text => accepts letter && committed items text
  | .many stop :: items, text => committed items (fromStop stop text)

/--
Wherever the committed scan comes to an item for any number of letters, going on from the first
letter it stops at is as good as going on from any other place.
-/
def Safe : List (Item α) → List α → Prop
  | [], _ => True
  | .one _ atEnd :: items, [] => atEnd = true → Safe items []
  | .one accepts _ :: items, letter :: text => accepts letter = true → Safe items text
  | .many stop :: items, text =>
    ((∃ rest, rest <:+ text ∧ Matches items rest) → Matches items (fromStop stop text)) ∧
      Safe items (fromStop stop text)

variable {items : List (Item α)} {accepts stop : α → Bool} {atEnd : Bool} {letter : α}
  {text : List α}

/-- No items take up only the empty text. -/
@[simp] theorem matches_nil : Matches [] text ↔ text = [] := by
  constructor
  · intro taken
    cases taken
    rfl
  · intro empty
    rw [empty]
    exact .done

/-- The end of the text stands in for one letter as far as the item says. -/
@[simp] theorem matches_one_nil :
    Matches (.one accepts atEnd :: items) [] ↔ atEnd = true ∧ Matches items [] := by
  constructor
  · intro taken
    cases taken with
    | ended rest => exact ⟨rfl, rest⟩
  · intro both
    obtain ⟨rfl, rest⟩ := both
    exact .ended rest

/-- An item for one letter takes a letter that it accepts. -/
@[simp] theorem matches_one_cons :
    Matches (.one accepts atEnd :: items) (letter :: text) ↔
      accepts letter = true ∧ Matches items text := by
  constructor
  · intro taken
    cases taken with
    | one accepted rest => exact ⟨accepted, rest⟩
  · intro both
    exact .one both.1 both.2

/-- An item for any number of letters leaves some end of the text. -/
@[simp] theorem matches_many :
    Matches (.many stop :: items) text ↔ ∃ rest, rest <:+ text ∧ Matches items rest := by
  constructor
  · intro taken
    cases taken with
    | many suffix rest => exact ⟨_, suffix, rest⟩
  · intro left
    obtain ⟨rest, suffix, later⟩ := left
    exact .many suffix later

/-- What is left where a scan stops is an end of the text. -/
theorem fromStop_suffix (stop : α → Bool) (text : List α) : fromStop stop text <:+ text :=
  List.dropWhile_suffix _

/-- What the committed scan accepts is matched by the pattern. -/
theorem matches_of_committed (accepted : committed items text = true) : Matches items text := by
  -- The induction follows the scan.
  fun_induction committed items text with
  | case1 text => simpa using accepted
  | case2 accepts atEnd items ih =>
    rw [Bool.and_eq_true] at accepted
    exact matches_one_nil.mpr ⟨accepted.1, ih accepted.2⟩
  | case3 accepts atEnd items letter text ih =>
    rw [Bool.and_eq_true] at accepted
    exact matches_one_cons.mpr ⟨accepted.1, ih accepted.2⟩
  | case4 stop items text ih =>
    exact .many (fromStop_suffix stop text) (ih accepted)

/-- The committed scan finds a match of the pattern exactly if committing itself is safe. -/
theorem committed_complete_iff :
    (Matches items text → committed items text = true) ↔ Safe items text := by
  fun_induction committed items text with
  | case1 text => simp [Safe]
  | case2 accepts atEnd items ih =>
    rw [Safe, ← ih, matches_one_nil, Bool.and_eq_true]
    tauto
  | case3 accepts atEnd items letter text ih =>
    rw [Safe, ← ih, matches_one_cons, Bool.and_eq_true]
    tauto
  | case4 stop items text ih =>
    rw [Safe, ← ih, matches_many]
    constructor
    · -- The scan goes on from where it stops, so what it accepts is matched from there.
      intro complete
      refine ⟨fun left => matches_of_committed (complete left), fun stopped => ?_⟩
      exact complete ⟨_, fromStop_suffix stop text, stopped⟩
    · intro both left
      exact both.2 (both.1 left)

/-- The committed scan decides whether a pattern matches exactly if committing itself is safe. -/
theorem committed_decides_iff :
    (committed items text = true ↔ Matches items text) ↔ Safe items text := by
  rw [← committed_complete_iff]
  exact ⟨fun decides => decides.mpr, fun complete => ⟨matches_of_committed, complete⟩⟩

end Globs
