import TwoIne.Lib.Paths

/-!
Buffers with a string that is changed in place.

The string ends at the first nul of the buffer, and nothing is read or written outside of the buffer.
A loop has fuel, and one that runs out of it is a fault as well.
-/

namespace StringBuffers

open Paths

section Writing

variable {α : Type*} (nul : α)

/-- Writing a letter. -/
def store (buf : List α) (i : Nat) (letter : α) : Option (List α) :=
  if i < buf.length then some (buf.set i letter) else none

/-- Moving so many letters from one place to another. -/
def memmove (buf : List α) (dst src count : Nat) : Option (List α) :=
  if dst + count ≤ buf.length ∧ src + count ≤ buf.length then
    some (buf.take dst ++ (buf.drop src).take count ++ buf.drop (dst + count))
  else none

/-- Writing a text over a place and what is behind it, with a nul. -/
def strcpy (buf : List α) (i : Nat) (text : List α) : Option (List α) :=
  if i + text.length + 1 ≤ buf.length then
    some (buf.take i ++ text ++ nul :: buf.drop (i + text.length + 1))
  else none

/-- Writing a text to the start of a buffer, cut off where the buffer is said to end. -/
def snprintf (buf : List α) (size : Nat) (text : List α) : Option (List α) :=
  if size = 0 then some buf
  else if size ≤ buf.length then
    let written := text.take (size - 1)
    some (written ++ nul :: buf.drop (written.length + 1))
  else none

/-- A buffer has a string at its start. -/
def Holds (buf text : List α) : Prop :=
  nul ∉ text ∧ ∃ rest, buf = text ++ nul :: rest

/-- A string that was cut in two: a nul stands behind the front, and the rest is behind the nul. -/
def Cut (buf front rest : List α) : Prop :=
  nul ∉ front ∧ nul ∉ rest ∧ ∃ junk, buf = front ++ nul :: (rest ++ nul :: junk)

variable {nul} {buf front text rest gone : List α} {letter other : α}

/-- A string is shorter than its buffer. -/
theorem Holds.fits (holds : Holds nul buf text) : text.length < buf.length := by
  obtain ⟨_, rest, rfl⟩ := holds
  simp

/-- Writing a letter over another one leaves everything else as it is. -/
theorem store_at (front : List α) (letter other : α) (rest : List α) :
    store (front ++ letter :: rest) front.length other = some (front ++ other :: rest) := by
  rw [store, if_pos (by simp), List.set_append_right _ _ (Nat.le_refl _), Nat.sub_self]
  rfl

/-- Writing a text over one of the same length leaves everything else as it is. -/
theorem strcpy_at {old : List α} (same : text.length = old.length) (front rest : List α) :
    strcpy nul (front ++ (old ++ nul :: rest)) front.length text =
      some (front ++ (text ++ nul :: rest)) := by
  have behind : (front ++ (old ++ nul :: rest)).drop (front.length + text.length + 1) = rest := by
    rw [Nat.add_assoc, List.drop_length_add_append, same, List.drop_length_add_append]
    rfl
  rw [strcpy, if_pos (by simp only [List.length_append, List.length_cons]; omega), behind,
    List.take_left, List.append_assoc]

/-- Writing a letter over another one. -/
theorem Holds.store (holds : Holds nul buf (front ++ letter :: rest)) (clean : other ≠ nul) :
    ∃ after, store buf front.length other = some after ∧
      Holds nul after (front ++ other :: rest) ∧ after.length = buf.length := by
  obtain ⟨inside, junk, rfl⟩ := holds
  have written := StringBuffers.store_at front letter other (rest ++ nul :: junk)
  refine ⟨front ++ other :: (rest ++ nul :: junk), ?_, ⟨?_, junk, by simp⟩, by simp⟩
  · rw [List.append_assoc]
    exact written
  · intro member
    rcases List.mem_append.mp member with early | late
    · exact inside (List.mem_append_left _ early)
    · rcases List.mem_cons.mp late with same | later
      · exact clean same.symm
      · exact inside (List.mem_append_right _ (List.mem_cons_of_mem _ later))

/-- Writing a nul over a letter cuts the string, and leaves what is behind where it is. -/
theorem Holds.cut (holds : Holds nul buf (front ++ letter :: rest)) :
    ∃ after, StringBuffers.store buf front.length nul = some after ∧ Cut nul after front rest ∧
      after.length = buf.length := by
  obtain ⟨inside, junk, rfl⟩ := holds
  refine ⟨front ++ nul :: (rest ++ nul :: junk), ?_, ⟨?_, ?_, junk, rfl⟩, by simp⟩
  · rw [List.append_assoc]
    exact store_at front letter nul (rest ++ nul :: junk)
  · exact fun member => inside (List.mem_append_left _ member)
  · exact fun member => inside (List.mem_append_right _ (List.mem_cons_of_mem _ member))

/-- The string of a buffer that was cut is the front. -/
theorem Cut.holds (cut : Cut nul buf front rest) : Holds nul buf front := by
  obtain ⟨inside, _, junk, rfl⟩ := cut
  exact ⟨inside, rest ++ nul :: junk, rfl⟩

/-- Writing a letter over the nul puts the string together again. -/
theorem Cut.restore (cut : Cut nul buf front rest) (clean : letter ≠ nul) :
    ∃ after, store buf front.length letter = some after ∧
      Holds nul after (front ++ letter :: rest) ∧ after.length = buf.length := by
  obtain ⟨early, late, junk, rfl⟩ := cut
  refine ⟨front ++ letter :: (rest ++ nul :: junk), store_at front nul letter _,
    ⟨?_, junk, by simp⟩, by simp⟩
  rw [List.mem_append, List.mem_cons]
  intro member
  rcases member with kept | same | behind
  · exact early kept
  · exact clean same.symm
  · exact late behind

/-- A string ends where a nul is written into it. -/
theorem Holds.truncate (holds : Holds nul buf text) {n : Nat} (inside : n < text.length) :
    ∃ after, StringBuffers.store buf n nul = some after ∧ Holds nul after (text.take n) ∧
      after.length = buf.length := by
  have length : (text.take n).length = n := List.length_take_of_le (Nat.le_of_lt inside)
  have split : text = text.take n ++ text[n] :: text.drop (n + 1) := by
    rw [← List.drop_eq_getElem_cons, List.take_append_drop]
  rw [split] at holds
  obtain ⟨after, stored, cut, same⟩ := holds.cut
  rw [length] at stored
  exact ⟨after, stored, cut.holds, same⟩

/-- Moving the end of a buffer to the front. -/
theorem memmove_parts (front gone moved junk : List α) :
    ∃ later, memmove (front ++ (gone ++ (moved ++ junk))) front.length
        (front.length + gone.length) moved.length = some (front ++ (moved ++ later)) ∧
      later.length = gone.length + junk.length := by
  have source : (front ++ (gone ++ (moved ++ junk))).drop (front.length + gone.length) =
      moved ++ junk := by
    rw [List.drop_length_add_append, List.drop_left]
  have target : (front ++ (gone ++ (moved ++ junk))).drop (front.length + moved.length) =
      (gone ++ (moved ++ junk)).drop moved.length := by
    rw [List.drop_length_add_append]
  refine ⟨(gone ++ (moved ++ junk)).drop moved.length, ?_, ?_⟩
  · rw [memmove, if_pos (by simp only [List.length_append]; omega), source, target, List.take_left,
      List.take_left, List.append_assoc]
  · simp only [List.length_drop, List.length_append]
    omega

/-- Taking letters out of a string. -/
theorem Holds.memmove (holds : Holds nul buf (front ++ (gone ++ rest))) :
    ∃ after, memmove buf front.length (front.length + gone.length) (rest.length + 1) = some after ∧
      Holds nul after (front ++ rest) ∧ after.length = buf.length := by
  obtain ⟨inside, junk, rfl⟩ := holds
  obtain ⟨later, moved, length⟩ := memmove_parts front gone (rest ++ [nul]) junk
  have split : front ++ (gone ++ rest) ++ nul :: junk =
      front ++ (gone ++ (rest ++ [nul] ++ junk)) := by simp
  rw [List.length_append, List.length_singleton] at moved
  refine ⟨_, by rw [split]; exact moved, ⟨?_, later, by simp⟩, ?_⟩
  · intro member
    rcases List.mem_append.mp member with early | late
    · exact inside (List.mem_append_left _ early)
    · exact inside (List.mem_append_right _ (List.mem_append_right _ late))
  · simp only [List.length_append, List.length_cons, List.length_nil, length]
    omega

/-- Moving what stands behind a cut over letters in front of it. -/
theorem Cut.memmove (cut : Cut nul buf (front ++ gone) rest) :
    ∃ after, StringBuffers.memmove buf front.length ((front ++ gone).length + 1)
        (rest.length + 1) = some after ∧
      Holds nul after (front ++ rest) ∧ after.length = buf.length := by
  obtain ⟨early, late, junk, rfl⟩ := cut
  obtain ⟨later, moved, length⟩ := memmove_parts front (gone ++ [nul]) (rest ++ [nul]) junk
  have split : (front ++ gone) ++ nul :: (rest ++ nul :: junk) =
      front ++ ((gone ++ [nul]) ++ ((rest ++ [nul]) ++ junk)) := by simp
  have source : (front ++ gone).length + 1 = front.length + (gone ++ [nul]).length := by
    simp only [List.length_append, List.length_singleton]
    omega
  have count : rest.length + 1 = (rest ++ [nul]).length := by
    rw [List.length_append, List.length_singleton]
  refine ⟨_, by rw [split, source, count]; exact moved, ⟨?_, later, by simp⟩, ?_⟩
  · intro member
    rcases List.mem_append.mp member with kept | behind
    · exact early (List.mem_append_left _ kept)
    · exact late behind
  · simp only [List.length_append, List.length_cons, List.length_nil, length]
    omega

/-- A text with room for its nul is written whole. -/
theorem snprintf_holds {size : Nat} (inside : nul ∉ text) (room : text.length < size)
    (buf_length : buf.length = size) :
    ∃ after, snprintf nul buf size text = some after ∧ Holds nul after text ∧
      after.length = buf.length := by
  have whole : text.take (size - 1) = text := List.take_of_length_le (by omega)
  refine ⟨text ++ nul :: buf.drop (text.length + 1), ?_, ⟨inside, _, rfl⟩, ?_⟩
  · rw [snprintf, if_neg (by omega), if_pos (by omega), whole]
  · simp only [List.length_append, List.length_cons, List.length_drop]
    omega

end Writing

section Reading

variable {α : Type*} [DecidableEq α] (nul : α)

/-- The string from a place on, which some nul has to end. -/
def readFrom (buf : List α) (i : Nat) : Option (List α) :=
  if nul ∈ buf.drop i then some ((buf.drop i).takeWhile (· ≠ nul)) else none

/-- The length of the string from a place on. -/
def strlen (buf : List α) (i : Nat) : Option Nat := (readFrom nul buf i).map List.length

/-- The next place of a letter in the string from a place on, if it stands there. -/
def strchr (buf : List α) (i : Nat) (letter : α) : Option (Option Nat) :=
  (readFrom nul buf i).map fun text =>
    if letter ∈ text then some (i + text.idxOf letter) else none

/-- Where a letter stands twice, one behind the other. -/
def pairIndex (letter : α) : List α → Option Nat
  | [] => none
  | first :: rest =>
    if first = letter ∧ rest.head? = some letter then some 0
    else (pairIndex letter rest).map (· + 1)

/-- The last place of a letter in the string from a place on, if it stands there. -/
def strrchr (buf : List α) (i : Nat) (letter : α) : Option (Option Nat) :=
  (readFrom nul buf i).map fun text =>
    if letter ∈ text then some (i + (text.length - 1 - text.reverse.idxOf letter)) else none

/-- The next place in the string from a place on where a letter stands twice, if there is one. -/
def strstrPair (buf : List α) (i : Nat) (letter : α) : Option (Option Nat) :=
  (readFrom nul buf i).map fun text => (pairIndex letter text).map (i + ·)

/-- Replacing one letter by another one from a place on. -/
def replaceFrom (letter other : α) : Nat → List α → Nat → Option (List α)
  | 0, _, _ => none
  | fuel + 1, buf, ptr =>
    match strchr nul buf ptr letter with
    | none => none
    | some none => some buf
    | some (some ptr) =>
      (store buf ptr other).bind fun buf => replaceFrom letter other fuel buf (ptr + 1)

/-- Taking out one of two letters that follow each other, from a place on. -/
def squeezeFrom (letter : α) : Nat → List α → Nat → Option (List α)
  | 0, _, _ => none
  | fuel + 1, buf, ptr =>
    match strstrPair nul buf ptr letter with
    | none => none
    | some none => some buf
    | some (some ptr) =>
      (strlen nul buf ptr).bind fun count =>
        (memmove buf ptr (ptr + 1) count).bind fun buf => squeezeFrom letter fuel buf ptr

variable {nul} {buf front text rest : List α} {letter other : α}

/-- A string ends at its first nul. -/
theorem readFrom_at (inside : nul ∉ text) (front rest : List α) :
    StringBuffers.readFrom nul (front ++ (text ++ nul :: rest)) front.length = some text := by
  have clean : ∀ letter ∈ text, decide (letter ≠ nul) = true := by
    intro letter member
    have other : letter ≠ nul := by
      rintro rfl
      exact inside member
    exact decide_eq_true other
  rw [StringBuffers.readFrom, List.drop_left, if_pos (by simp), List.takeWhile_append_of_pos clean]
  simp

/-- The string of a buffer is read from any of its places. -/
theorem Holds.readFrom (holds : Holds nul buf (front ++ text)) :
    readFrom nul buf front.length = some text := by
  obtain ⟨inside, rest, rfl⟩ := holds
  rw [List.append_assoc]
  exact readFrom_at (fun member => inside (List.mem_append_right _ member)) front rest

/-- The whole string of a buffer. -/
theorem Holds.whole (holds : Holds nul buf text) : StringBuffers.readFrom nul buf 0 = some text := by
  have start : Holds nul buf ([] ++ text) := holds
  exact start.readFrom

/-- The length of the string behind a place. -/
theorem Holds.strlen (holds : Holds nul buf (front ++ text)) :
    strlen nul buf front.length = some text.length := by
  rw [StringBuffers.strlen, holds.readFrom]
  rfl

/-- The length of what stands behind a cut. -/
theorem Cut.strlen (cut : Cut nul buf front rest) :
    strlen nul buf (front.length + 1) = some rest.length := by
  obtain ⟨_, late, junk, rfl⟩ := cut
  have read := readFrom_at late (front ++ [nul]) junk
  rw [List.length_append, List.length_singleton, List.append_assoc] at read
  rw [StringBuffers.strlen, show front ++ nul :: (rest ++ nul :: junk) =
    front ++ ([nul] ++ (rest ++ nul :: junk)) from rfl, read]
  rfl

/-- A letter that does not stand behind a place. -/
theorem Holds.strchr_none (holds : Holds nul buf (front ++ text)) (outside : letter ∉ text) :
    strchr nul buf front.length letter = some none := by
  rw [strchr, holds.readFrom, Option.map_some, if_neg outside]

/-- The first place of a letter behind a place. -/
theorem Holds.strchr_some (holds : Holds nul buf (front ++ (text ++ letter :: rest)))
    (outside : letter ∉ text) :
    strchr nul buf front.length letter = some (some (front.length + text.length)) := by
  have member : letter ∈ text ++ letter :: rest := by simp
  have index : (text ++ letter :: rest).idxOf letter = text.length := by
    rw [List.idxOf_append_of_notMem outside]
    simp
  rw [strchr, holds.readFrom, Option.map_some, if_pos member, index]

/-- A letter that does not stand in a string has no last place there. -/
theorem strrchr_none (inside : nul ∉ text) (outside : letter ∉ text) (rest : List α) :
    strrchr nul (text ++ nul :: rest) 0 letter = some none := by
  have read := readFrom_at inside [] rest
  rw [List.nil_append, List.length_nil] at read
  rw [strrchr, read, Option.map_some, if_neg outside]

/-- The last place of a letter in a string. -/
theorem strrchr_some (inside : nul ∉ front ++ letter :: text) (outside : letter ∉ text)
    (rest : List α) :
    strrchr nul (front ++ letter :: text ++ nul :: rest) 0 letter = some (some front.length) := by
  have read := readFrom_at inside [] rest
  rw [List.nil_append, List.length_nil] at read
  have member : letter ∈ front ++ letter :: text := by simp
  have reversed : (front ++ letter :: text).reverse = text.reverse ++ letter :: front.reverse := by
    simp
  have index : (front ++ letter :: text).reverse.idxOf letter = text.length := by
    rw [reversed, List.idxOf_append_of_notMem (by simpa using outside)]
    simp
  have place : 0 + ((front ++ letter :: text).length - 1 - text.length) = front.length := by
    simp only [List.length_append, List.length_cons]
    omega
  rw [strrchr, read, Option.map_some, if_pos member, index, place]

/-! Loops -/

/-- Replacing a letter that does not stand in a text leaves it as it is. -/
theorem map_replace_of_notMem (outside : letter ∉ text) :
    text.map (fun each => if each = letter then other else each) = text := by
  rw [List.map_congr_left (g := id), List.map_id]
  intro each found
  rw [if_neg (fun equal : each = letter => outside (equal ▸ found)), id]

/-- Replacing a letter from a place on replaces it everywhere behind, and ends. -/
theorem Holds.replaceFrom (letter : α) {fuel : Nat} (holds : Holds nul buf (front ++ text))
    (clean : other ≠ nul) (enough : text.length < fuel) :
    ∃ after, replaceFrom nul letter other fuel buf front.length = some after ∧
      Holds nul after (front ++ text.map fun each => if each = letter then other else each) ∧
        after.length = buf.length := by
  induction fuel generalizing buf front text with
  | zero => exact absurd enough (Nat.not_lt_zero _)
  | succ fuel ih =>
    by_cases member : letter ∈ text
    · -- The loop goes on behind the letter that was replaced.
      obtain ⟨before, behind, rfl, outside⟩ := List.eq_append_cons_of_mem member
      have here : Holds nul buf ((front ++ before) ++ letter :: behind) := by
        simpa using holds
      obtain ⟨next, written, held, same⟩ := here.store clean
      have ahead : Holds nul next ((front ++ before ++ [other]) ++ behind) := by
        simpa using held
      have shorter : behind.length < fuel := by
        simp only [List.length_append, List.length_cons] at enough
        omega
      obtain ⟨after, went, whole, kept⟩ := ih ahead shorter
      refine ⟨after, ?_, ?_, kept.trans same⟩
      · rw [StringBuffers.replaceFrom, holds.strchr_some outside]
        simp only [List.length_append, List.length_singleton] at written went
        simp only [written, Option.bind_some]
        exact went
      · have early : before.map (fun each => if each = letter then other else each) = before :=
          map_replace_of_notMem outside
        rw [List.map_append, early, List.map_cons, if_pos rfl]
        simpa using whole
    · rw [map_replace_of_notMem member]
      refine ⟨buf, ?_, holds, rfl⟩
      rw [StringBuffers.replaceFrom, holds.strchr_none member]

/-- Where no letter stands twice nothing is taken out. -/
theorem squeeze_of_pairIndex_none (none_there : pairIndex letter text = none) :
    squeeze letter text = text := by
  induction text with
  | nil => rfl
  | cons first rest ih =>
    rw [pairIndex] at none_there
    split at none_there
    · cases none_there
    · next single =>
      rw [squeeze, if_neg single, ih (Option.map_eq_none_iff.mp none_there)]

/-- What stands in front of a letter that stands twice stays as it is. -/
theorem squeeze_of_pairIndex_some {i : Nat} (found : pairIndex letter text = some i) :
    ∃ before behind, text = before ++ letter :: letter :: behind ∧ before.length = i ∧
      squeeze letter text = before ++ squeeze letter (letter :: behind) := by
  induction text generalizing i with
  | nil => cases found
  | cons first rest ih =>
    rw [pairIndex] at found
    split at found
    · next pair =>
      cases found
      obtain ⟨rfl, twice⟩ := pair
      obtain ⟨behind, rfl⟩ : ∃ behind, rest = first :: behind := by
        cases rest with
        | nil => cases twice
        | cons second behind =>
          cases twice
          exact ⟨behind, rfl⟩
      refine ⟨[], behind, rfl, rfl, ?_⟩
      rw [squeeze, if_pos ⟨rfl, rfl⟩]
      rfl
    · next single =>
      obtain ⟨j, later, rfl⟩ := Option.map_eq_some_iff.mp found
      obtain ⟨before, behind, rfl, rfl, squeezed⟩ := ih later
      refine ⟨first :: before, behind, rfl, rfl, ?_⟩
      rw [squeeze, if_neg single, squeezed]
      rfl

/-- Taking out letters that stand twice leaves one of each, and ends. -/
theorem Holds.squeezeFrom (letter : α) {fuel : Nat} (holds : Holds nul buf (front ++ text))
    (enough : text.length < fuel) :
    ∃ after, squeezeFrom nul letter fuel buf front.length = some after ∧
      Holds nul after (front ++ squeeze letter text) ∧ after.length = buf.length := by
  induction fuel generalizing buf front text with
  | zero => exact absurd enough (Nat.not_lt_zero _)
  | succ fuel ih =>
    rw [StringBuffers.squeezeFrom, strstrPair, holds.readFrom, Option.map_some]
    cases found : pairIndex letter text with
    | none =>
      rw [squeeze_of_pairIndex_none found]
      exact ⟨buf, rfl, holds, rfl⟩
    | some i =>
      -- One of the two is taken out, and the search goes on at the other one.
      obtain ⟨before, behind, rfl, rfl, squeezed⟩ := squeeze_of_pairIndex_some found
      have here : Holds nul buf ((front ++ before) ++ ([letter] ++ letter :: behind)) := by
        simpa using holds
      obtain ⟨next, moved, held, same⟩ := here.memmove
      have length := here.strlen
      rw [List.length_append] at length moved
      have shorter : (letter :: behind).length < fuel := by
        simp only [List.length_append, List.length_cons] at enough ⊢
        omega
      obtain ⟨after, went, whole, kept⟩ := ih held shorter
      rw [List.length_append] at went
      refine ⟨after, ?_, ?_, kept.trans same⟩
      · simp only [Option.map_some, length, Option.bind_some]
        have count : ([letter] ++ letter :: behind).length = (letter :: behind).length + 1 := by
          simp
        rw [count]
        simp only [List.length_singleton] at moved
        rw [moved]
        exact went
      · rw [squeezed, ← List.append_assoc]
        exact whole

end Reading

end StringBuffers
