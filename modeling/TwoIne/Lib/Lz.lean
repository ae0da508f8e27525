import Mathlib.Data.List.Basic

/-! Streams of tokens that say new values, or repeat values that were produced before. -/

namespace Lz

variable {α : Type}

/-- What a token adds to the output. -/
inductive Token (α : Type) where
  | literal (values : List α)
  | run (count : Nat) (value : α)
  /-- So many values from a distance in front of the end on, which may overlap what they add. -/
  | copy (distance count : Nat)
  deriving DecidableEq, Repr

/-- How many values a token adds. -/
def Token.size : Token α → Nat
  | .literal values => values.length
  | .run count _ => count
  | .copy _ count => count

/-- The value at a distance in front of the end, where there is one. -/
def lookBack (distance : Nat) (out : List α) : Option α :=
  if distance ≤ out.length then out[out.length - distance]? else none

/-- Repeating values one after the other. -/
def copyBack (distance : Nat) (out : List α) : Nat → Option (List α)
  | 0 => some out
  | count + 1 => do
    let out ← copyBack distance out count
    let value ← lookBack distance out
    return out ++ [value]

/-- The output behind a token. -/
def expandToken (out : List α) : Token α → Option (List α)
  | .literal values => some (out ++ values)
  | .run count value => some (out ++ List.replicate count value)
  | .copy distance count => copyBack distance out count

/-- The output behind several tokens. -/
def expand (out : List α) (tokens : List (Token α)) : Option (List α) :=
  tokens.foldlM expandToken out

/-- Where a token ends that starts at a place, if it fits and does not reach back too far. -/
def Token.place (room made : Nat) : Token α → Option Nat
  | .literal values => if made + values.length ≤ room then some (made + values.length) else none
  | .run count _ => if made + count ≤ room then some (made + count) else none
  | .copy distance count =>
    if made + count ≤ room ∧ distance ≤ made then some (made + count) else none

/-- Where several tokens end. -/
def placeAll (room made : Nat) (tokens : List (Token α)) : Option Nat :=
  tokens.foldlM (Token.place room) made

/-- A token that adds something has its values in front of the end. -/
def Token.Backward : Token α → Prop
  | .copy distance count => 0 < count → 0 < distance
  | _ => True

/-- The end of the output is not there yet. -/
theorem lookBack_zero (out : List α) : lookBack 0 out = none := by
  simp [lookBack]

/-- What is in front of the end is there. -/
theorem lookBack_positive {distance : Nat} (out : List α) (positive : 0 < distance)
    (reached : distance ≤ out.length) : ∃ value, lookBack distance out = some value := by
  have below : out.length - distance < out.length := by omega
  exact ⟨out[out.length - distance], by
    rw [lookBack, if_pos reached, List.getElem?_eq_getElem below]⟩

/-- A repetition has the length that it says. -/
theorem copyBack_length {distance : Nat} {out after : List α} {count : Nat}
    (copied : copyBack distance out count = some after) :
    after.length = out.length + count := by
  induction count generalizing after with
  | zero =>
    rw [copyBack] at copied
    rw [Option.some.inj copied, Nat.add_zero]
  | succ count ih =>
    simp only [copyBack, Option.bind_eq_bind, Option.bind_eq_some_iff] at copied
    obtain ⟨front, reached, value, _, last⟩ := copied
    have front_length := ih reached
    rw [← Option.some.inj last, List.length_append, front_length, List.length_singleton,
      Nat.add_assoc]

/-- A repetition is made up step by step, so that its shorter ones are there as well. -/
theorem copyBack_shorter {distance : Nat} {out final : List α} {count index : Nat}
    (copied : copyBack distance out count = some final) (below : index ≤ count) :
    ∃ after, copyBack distance out index = some after := by
  induction count generalizing final with
  | zero => exact ⟨final, by rw [Nat.le_zero.mp below, copied]⟩
  | succ count ih =>
    by_cases last : index = count + 1
    · exact ⟨final, last ▸ copied⟩
    · simp only [copyBack, Option.bind_eq_bind, Option.bind_eq_some_iff] at copied
      obtain ⟨front, reached, _⟩ := copied
      exact ih reached (by omega)

/-- The next step of a repetition adds what is found at its distance. -/
theorem copyBack_next {distance : Nat} {out after next : List α} {index : Nat}
    (copied : copyBack distance out index = some after)
    (more : copyBack distance out (index + 1) = some next) :
    ∃ value, lookBack distance after = some value ∧ next = after ++ [value] := by
  simp only [copyBack, copied, Option.bind_eq_bind, Option.bind_some,
    Option.bind_eq_some_iff] at more
  obtain ⟨value, found, last⟩ := more
  exact ⟨value, found, (Option.some.inj last).symm⟩

/-- Values that are there can be repeated as often as one likes. -/
theorem copyBack_positive {distance : Nat} {out : List α} (positive : 0 < distance)
    (reached : distance ≤ out.length) (count : Nat) :
    ∃ after, copyBack distance out count = some after := by
  induction count with
  | zero => exact ⟨out, rfl⟩
  | succ count ih =>
    -- What was repeated so far does not take anything away.
    obtain ⟨front, copied⟩ := ih
    have front_length := copyBack_length copied
    obtain ⟨value, found⟩ := lookBack_positive front positive (by omega)
    exact ⟨front ++ [value], by simp [copyBack, copied, found]⟩

/-- What is not there yet is not repeated. -/
theorem copyBack_zero (out : List α) {count : Nat} (positive : 0 < count) :
    copyBack 0 out count = none := by
  cases count with
  | zero => omega
  | succ count => simp [copyBack, lookBack_zero]

/-- A token that expands adds as many values as it says. -/
theorem expandToken_length {out after : List α} {token : Token α}
    (expanded : expandToken out token = some after) :
    after.length = out.length + token.size := by
  cases token with
  | literal values =>
    rw [← Option.some.inj expanded, List.length_append]
    rfl
  | run count value =>
    rw [← Option.some.inj expanded, List.length_append, List.length_replicate]
    rfl
  | copy distance count => exact copyBack_length expanded

/-- A token that has a place ends behind what it adds. -/
theorem Token.place_eq {room made next : Nat} {token : Token α}
    (placed : token.place room made = some next) : next = made + token.size ∧ next ≤ room := by
  cases token with
  | literal values =>
    simp only [Token.place, Option.ite_none_right_eq_some, Option.some.injEq] at placed
    exact ⟨placed.2.symm, placed.2 ▸ placed.1⟩
  | run count value =>
    simp only [Token.place, Option.ite_none_right_eq_some, Option.some.injEq] at placed
    exact ⟨placed.2.symm, placed.2 ▸ placed.1⟩
  | copy distance count =>
    simp only [Token.place, Option.ite_none_right_eq_some, Option.some.injEq] at placed
    exact ⟨placed.2.symm, placed.2 ▸ placed.1.1⟩

/-- A token that has a place expands exactly if it looks backward. -/
theorem expandToken_isSome_iff {room next : Nat} {out : List α} {token : Token α}
    (placed : token.place room out.length = some next) :
    (∃ after, expandToken out token = some after) ↔ token.Backward := by
  cases token with
  | literal values => exact ⟨fun _ => trivial, fun _ => ⟨_, rfl⟩⟩
  | run count value => exact ⟨fun _ => trivial, fun _ => ⟨_, rfl⟩⟩
  | copy distance count =>
    simp only [Token.place, Option.ite_none_right_eq_some] at placed
    constructor
    · -- With distance zero nothing can be read.
      intro expands positive
      obtain ⟨after, copied⟩ := expands
      by_contra zero
      have distance_zero : distance = 0 := by omega
      subst distance_zero
      rw [expandToken, copyBack_zero out positive] at copied
      cases copied
    · intro backward
      by_cases empty : count = 0
      · subst empty
        exact ⟨out, rfl⟩
      · exact copyBack_positive (backward (by omega)) placed.1.2 count

/-- Tokens that have their places expand exactly if all of them look backward. -/
theorem expand_isSome_iff {room next : Nat} {out : List α} {tokens : List (Token α)}
    (placed : placeAll room out.length tokens = some next) :
    (∃ after, expand out tokens = some after) ↔ ∀ token ∈ tokens, token.Backward := by
  induction tokens generalizing out with
  | nil => exact ⟨fun _ _ member => absurd member (List.not_mem_nil), fun _ => ⟨out, rfl⟩⟩
  | cons token tokens ih =>
    simp only [placeAll, List.foldlM_cons, Option.bind_eq_bind, Option.bind_eq_some_iff] at placed
    obtain ⟨middle, first, rest⟩ := placed
    simp only [expand, List.foldlM_cons, Option.bind_eq_bind, Option.bind_eq_some_iff,
      List.forall_mem_cons]
    constructor
    · intro expands
      obtain ⟨after, front, expanded, continued⟩ := expands
      -- The other tokens go on where the first one ends.
      have front_length : front.length = middle := by
        rw [expandToken_length expanded, (Token.place_eq first).1]
      exact ⟨(expandToken_isSome_iff first).mp ⟨front, expanded⟩,
        (ih (front_length ▸ rest)).mp ⟨after, continued⟩⟩
    · intro backward
      obtain ⟨front, expanded⟩ := (expandToken_isSome_iff first).mpr backward.1
      have front_length : front.length = middle := by
        rw [expandToken_length expanded, (Token.place_eq first).1]
      obtain ⟨after, continued⟩ := (ih (front_length ▸ rest)).mpr backward.2
      exact ⟨after, front, expanded, continued⟩

/-- Placing one token. -/
theorem placeAll_single (room made : Nat) (token : Token α) :
    placeAll room made [token] = token.place room made := by
  simp [placeAll]

/-- Expanding one token. -/
theorem expand_single (out : List α) (token : Token α) :
    expand out [token] = expandToken out token := by
  simp [expand]

/-- New values and then repeated ones fit if all of them do. -/
theorem placeAll_pair (room made : Nat) (values : List α) (distance count : Nat) :
    placeAll room made [.literal values, .copy distance count] =
      if made + (values.length + count) ≤ room ∧ distance ≤ made + values.length then
        some (made + values.length + count)
      else none := by
  rw [placeAll, List.foldlM_cons, Token.place]
  by_cases first : made + values.length ≤ room
  · rw [if_pos first]
    simp only [Option.bind_eq_bind, Option.bind_some, List.foldlM_cons, Token.place,
      Nat.add_assoc]
    simp
  · rw [if_neg first, if_neg (by omega)]
    rfl

/-- New values and then repeated ones, which may repeat the new ones. -/
theorem expand_pair (out values : List α) (distance count : Nat) :
    expand out [.literal values, .copy distance count] =
      copyBack distance (out ++ values) count := by
  simp [expand, expandToken]

/-- Expanding tokens one group after the other. -/
theorem expand_append (out : List α) (tokens more : List (Token α)) :
    expand out (tokens ++ more) = (expand out tokens).bind fun out => expand out more := by
  rw [expand, List.foldlM_append]
  rfl

/-- Placing tokens one group after the other. -/
theorem placeAll_append (room made : Nat) (tokens more : List (Token α)) :
    placeAll room made (tokens ++ more) =
      (placeAll room made tokens).bind fun made => placeAll room made more := by
  rw [placeAll, List.foldlM_append]
  rfl

/-- Tokens that have their places and expand end where their places do. -/
theorem expand_length {room next : Nat} {out after : List α} {tokens : List (Token α)}
    (placed : placeAll room out.length tokens = some next)
    (expanded : expand out tokens = some after) : after.length = next := by
  induction tokens generalizing out with
  | nil =>
    rw [← Option.some.inj expanded]
    exact Option.some.inj placed
  | cons token tokens ih =>
    simp only [placeAll, List.foldlM_cons, Option.bind_eq_bind, Option.bind_eq_some_iff] at placed
    obtain ⟨middle, first, rest⟩ := placed
    simp only [expand, List.foldlM_cons, Option.bind_eq_bind, Option.bind_eq_some_iff] at expanded
    obtain ⟨front, head, continued⟩ := expanded
    have front_length : front.length = middle := by
      rw [expandToken_length head, (Token.place_eq first).1]
    exact ih (front_length ▸ rest) continued

end Lz
