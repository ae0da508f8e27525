import Mathlib.Data.Finset.Card
import Mathlib.Data.Finset.Range

/-!
Walks along links of two bytes, the lowest byte first, each of which is overwritten once it was
read. Where the places that are written overlap, the walk may read what it wrote itself.
-/

namespace LinkWalks

/-- The link at a place. -/
def link (memory : Nat → Nat) (place : Nat) : Nat := memory place + 256 * memory (place + 1)

/-- Writing bytes from a place on. -/
def put (memory : Nat → Nat) (place : Nat) (bytes : List Nat) : Nat → Nat := fun k =>
  if place ≤ k then (bytes[k - place]?).getD (memory k) else memory k

/-- The walk that writes some bytes leaves the first places in the end. -/
inductive Ends (size : Nat) (bytes : List Nat) : Nat → (Nat → Nat) → Prop
  | left {place : Nat} {memory : Nat → Nat} (outside : size ≤ place) : Ends size bytes place memory
  | next {place : Nat} {memory : Nat → Nat}
      (later : Ends size bytes (link memory place) (put memory place bytes)) :
      Ends size bytes place memory

section Walks

variable {size place low high : Nat} {memory : Nat → Nat} {visited : Finset Nat}

/-- A single byte is written where it is written. -/
theorem put_byte (memory : Nat → Nat) (place low k : Nat) :
    put memory place [low] k = if k = place then low else memory k := by
  unfold put
  by_cases same : k = place
  · rw [if_pos same, if_pos (by omega), same, Nat.sub_self]
    rfl
  · rw [if_neg same]
    split
    · rw [List.getElem?_eq_none (by simp only [List.length_singleton]; omega)]
      rfl
    · rfl

/-- Two bytes are written where they are written. -/
theorem put_word (memory : Nat → Nat) (place low high k : Nat) :
    put memory place [low, high] k =
      if k = place then low else if k = place + 1 then high else memory k := by
  unfold put
  by_cases first : k = place
  · rw [if_pos first, if_pos (by omega), first, Nat.sub_self]
    rfl
  by_cases second : k = place + 1
  · rw [if_neg first, if_pos second, if_pos (by omega), second, Nat.add_sub_cancel_left]
    rfl
  rw [if_neg first, if_neg second]
  split
  · rw [List.getElem?_eq_none (by simp only [List.length_cons, List.length_nil]; omega)]
    rfl
  · rfl

/-- Whoever goes from a place to itself and changes nothing stays there. -/
theorem stays {bytes : List Nat} (inside : place < size) (here : link memory place = place)
    (same : put memory place bytes = memory) : ¬ Ends size bytes place memory := by
  intro ends
  -- Each step of the walk leads back to where it started.
  induction ends with
  | left outside => omega
  | next later ih =>
    rw [here, same] at ih
    exact ih inside here same

/--
Going to new places comes to an end, so a walk ends if it does from each place where it was.

What is known of the bytes holds of those that are written.
-/
theorem ends_of_revisits {bytes : List Nat} (known : Finset Nat → (Nat → Nat) → Prop)
    (written : ∀ {visited : Finset Nat} {memory : Nat → Nat} (place : Nat), known visited memory →
      known (insert place visited) (put memory place bytes))
    (revisit : ∀ {visited : Finset Nat},
      (∀ {memory : Nat → Nat} {place : Nat}, known visited memory → place ∉ visited →
        Ends size bytes place memory) →
      ∀ {memory : Nat → Nat} {place : Nat}, known visited memory → place ∈ visited →
        Ends size bytes place memory)
    (start : known visited memory) (place : Nat) : Ends size bytes place memory := by
  -- The places where the walk was not yet are counted.
  induction count : (Finset.range size \ visited).card using Nat.strong_induction_on
    generalizing visited memory place with
  | _ count ih =>
    have fresh : ∀ {memory : Nat → Nat} {place : Nat}, known visited memory → place ∉ visited →
        Ends size bytes place memory := by
      intro memory place holds new
      by_cases outside : size ≤ place
      · exact .left outside
      refine .next (ih _ ?_ (written place holds) _ rfl)
      rw [← count]
      refine Finset.card_lt_card ⟨?_, fun back => ?_⟩
      · exact Finset.sdiff_subset_sdiff (Finset.Subset.refl _) (Finset.subset_insert _ _)
      · have member : place ∈ Finset.range size \ visited :=
          Finset.mem_sdiff.mpr ⟨Finset.mem_range.mpr (by omega), new⟩
        exact (Finset.mem_sdiff.mp (back member)).2 (Finset.mem_insert_self _ _)
    by_cases old : place ∈ visited
    · exact revisit fresh start old
    · exact fresh start old

/-- A walk that writes one byte ends if this byte alone leads out. -/
theorem byte_ends (out : size ≤ low) (memory : Nat → Nat) (place : Nat) :
    Ends size [low] place memory := by
  have start : ∀ place ∈ (∅ : Finset Nat), memory place = low :=
    fun other member => absurd member (Finset.notMem_empty other)
  refine ends_of_revisits (fun visited memory => ∀ place ∈ visited, memory place = low) ?_ ?_
    start place
  · intro visited memory place holds other member
    rw [put_byte]
    split
    · rfl
    · rename_i different
      exact holds other ((Finset.mem_insert.mp member).resolve_left different)
  · intro visited _ memory place holds member
    refine .next (.left ?_)
    rw [link, holds place member]
    omega

/-- The two bytes of a place are among those that are written. -/
def KnownBytes (low high : Nat) (memory : Nat → Nat) (place : Nat) : Prop :=
  (memory place = low ∨ memory place = high) ∧
    (memory (place + 1) = low ∨ memory (place + 1) = high)

/-- Writing the two bytes keeps places that have them, and makes one of the place itself. -/
theorem KnownBytes.put {other : Nat} (known : place = other ∨ KnownBytes low high memory other) :
    KnownBytes low high (put memory place [low, high]) other := by
  simp only [KnownBytes, put_word] at known ⊢
  rcases known with rfl | ⟨first, second⟩
  · simp
  · grind

/-- The link that was just written, if nothing else was written since. -/
theorem link_put (memory : Nat → Nat) (place low high : Nat) :
    link (put memory place [low, high]) place = low + 256 * high := by
  simp [link, put_word]

/-- Going to a place twice in a row leads out if the two bytes do. -/
theorem again (out : size ≤ low + 256 * high) (memory : Nat → Nat) (place : Nat) :
    Ends size [low, high] place (put memory place [low, high]) :=
  .next (.left (by rw [link_put]; exact out))

/-- From a place that has the two bytes there are four ways to go on, one of which leads out. -/
theorem KnownBytes.ends (known : KnownBytes low high memory place) (out : size ≤ low + 256 * high)
    (double_low : Ends size [low, high] (low + 256 * low) (LinkWalks.put memory place [low, high]))
    (swapped : Ends size [low, high] (high + 256 * low) (LinkWalks.put memory place [low, high]))
    (double_high :
      Ends size [low, high] (high + 256 * high) (LinkWalks.put memory place [low, high])) :
    Ends size [low, high] place memory := by
  refine .next ?_
  unfold link
  obtain ⟨first, second⟩ := known
  rcases first with first | first <;> rcases second with second | second <;> rw [first, second]
  · exact double_low
  · exact .left out
  · exact swapped
  · exact double_high

/-- All places where the walk was have the two bytes. -/
def AllKnown (low high : Nat) (visited : Finset Nat) (memory : Nat → Nat) : Prop :=
  ∀ place ∈ visited, KnownBytes low high memory place

/-- The walk goes on from places where it was to the same bytes. -/
theorem AllKnown.put (known : AllKnown low high visited memory) (place : Nat) :
    AllKnown low high visited (LinkWalks.put memory place [low, high]) :=
  fun other member => KnownBytes.put (.inr (known other member))

section Revisits

variable (fresh : ∀ {memory : Nat → Nat} {place : Nat}, AllKnown low high visited memory →
  place ∉ visited → Ends size [low, high] place memory) (out : size ≤ low + 256 * high)

include fresh out

/-- If the second byte is less, only that byte twice is inside, and leads out the second time. -/
theorem falling_ends (less : high < low) (known : AllKnown low high visited memory)
    (member : place ∈ visited) : Ends size [low, high] place memory := by
  have double_high : ∀ {memory : Nat → Nat}, AllKnown low high visited memory →
      Ends size [low, high] (high + 256 * high) memory := by
    intro memory known
    by_cases member : high + 256 * high ∈ visited
    · exact (known _ member).ends out (.left (by omega)) (.left (by omega)) (again out _ _)
    · exact fresh known member
  exact (known _ member).ends out (.left (by omega)) (.left (by omega))
    (double_high (known.put _))

/--
If the first byte is less, that byte twice and both bytes the other way round are inside; between
these two the walk cannot go back and forth.
-/
theorem rising_ends (less : low < high) (known : AllKnown low high visited memory)
    (member : place ∈ visited) : Ends size [low, high] place memory := by
  -- What was written at the other place last may have replaced the second byte.
  have back : ∀ memory : Nat → Nat, Ends size [low, high] (low + 256 * low)
      (put (put memory (low + 256 * low) [low, high]) (high + 256 * low) [low, high]) := by
    intro memory
    refine .next ?_
    by_cases beside : high = low + 1
    · have same : link (put (put memory (low + 256 * low) [low, high]) (high + 256 * low)
          [low, high]) (low + 256 * low) = low + 256 * low := by
        simp only [link, put_word]
        grind
      rw [same]
      exact again out _ _
    · have same : link (put (put memory (low + 256 * low) [low, high]) (high + 256 * low)
          [low, high]) (low + 256 * low) = low + 256 * high := by
        simp only [link, put_word]
        grind
      rw [same]
      exact .left out
  have double_low : ∀ {memory : Nat → Nat}, AllKnown low high visited memory →
      Ends size [low, high] (low + 256 * low) memory := by
    intro memory known
    by_cases member : low + 256 * low ∈ visited
    · refine (known _ member).ends out (again out _ _) ?_ (.left (by omega))
      by_cases other : high + 256 * low ∈ visited
      · exact (known.put _ _ other).ends out (back memory) (again out _ _) (.left (by omega))
      · exact fresh (known.put _) other
    · exact fresh known member
  have swapped : ∀ {memory : Nat → Nat}, AllKnown low high visited memory →
      Ends size [low, high] (high + 256 * low) memory := by
    intro memory known
    by_cases member : high + 256 * low ∈ visited
    · exact (known _ member).ends out (double_low (known.put _)) (again out _ _)
        (.left (by omega))
    · exact fresh known member
  exact (known _ member).ends out (double_low (known.put _)) (swapped (known.put _))
    (.left (by omega))

end Revisits

/-- A walk that writes two bytes ends if together, in their order, they lead out. -/
theorem word_ends (out : size ≤ low + 256 * high) (memory : Nat → Nat) (place : Nat) :
    Ends size [low, high] place memory := by
  have start : AllKnown low high ∅ memory :=
    fun other member => absurd member (Finset.notMem_empty other)
  refine ends_of_revisits (AllKnown low high) ?_ ?_ start place
  · intro visited memory place known other member
    refine KnownBytes.put ?_
    rcases Finset.mem_insert.mp member with rfl | member
    · exact .inl rfl
    · exact .inr (known other member)
  · intro visited fresh memory place known member
    rcases Nat.lt_trichotomy low high with less | rfl | greater
    · exact rising_ends fresh out less known member
    · -- All four ways lead out.
      exact (known _ member).ends out (.left out) (.left out) (.left out)
    · exact falling_ends fresh out greater known member

end Walks

end LinkWalks
