import TwoIne.Debugger.ApiNames

/-!
The name of a call is that of the entry closest to its target where the table names that entry
first, and only there.
-/

namespace TwoIne

/-- An entry within the window of a target: at it, or below it by less than 256 bytes. -/
def ApiEntry.InWindow (target : BitVec 32) (entry : ApiEntry) : Prop :=
  entry.addr ≠ 0 ∧ entry.addr ≤ target ∧ target - entry.addr < 256

instance (target : BitVec 32) (entry : ApiEntry) : Decidable (entry.InWindow target) :=
  inferInstanceAs (Decidable (_ ∧ _ ∧ _))

/-- An entry with the greatest address within the window of a target. -/
structure Closest (entries : List ApiEntry) (target : BitVec 32) (entry : ApiEntry) : Prop where
  member : entry ∈ entries
  near : entry.InWindow target
  greatest : ∀ other ∈ entries, other.InWindow target → other.addr ≤ entry.addr

/-- The name of a closest entry is shown, and none where no entry is within the window. -/
def ShowsClosest (entries : List ApiEntry) (target : BitVec 32) : Option (List UInt8) → Prop
  | some name => ∃ entry, Closest entries target entry ∧ entry.name = name
  | none => ∀ entry ∈ entries, ¬ entry.InWindow target

/--
The table names a closest entry first: an entry is right at the target, or the first entry within
the window has the name of a closest one.
-/
def ClosestFirst (entries : List ApiEntry) (target : BitVec 32) : Prop :=
  (∃ entry ∈ entries, entry.InWindow target ∧ entry.addr = target) ∨
    ∀ first, entries.find? (fun entry => entry.InWindow target) = some first →
      ∃ entry, Closest entries target entry ∧ entry.name = first.name

section Names

variable {entries : List ApiEntry} {target : BitVec 32} {entry : ApiEntry}

/-- The first lookup finds the entries that are right at the target. -/
theorem ApiEntry.isAt_iff : entry.isAt target = true ↔
    entry.InWindow target ∧ entry.addr = target := by
  unfold ApiEntry.isAt ApiEntry.InWindow
  simp only [ne_eq, Bool.and_eq_true, decide_eq_true_eq]
  constructor
  · intro found
    obtain ⟨used, same⟩ := found
    -- Such an entry is below the target by nothing.
    subst same
    refine ⟨⟨used, BitVec.le_refl _, ?_⟩, rfl⟩
    rw [BitVec.sub_self]
    decide
  · exact fun near => ⟨near.1.1, near.2⟩

/-- The second lookup finds the entries within the window that are not at the target. -/
theorem ApiEntry.isBelow_iff : entry.isBelow target = true ↔
    entry.InWindow target ∧ entry.addr ≠ target := by
  unfold ApiEntry.isBelow ApiEntry.InWindow
  simp only [ne_eq, Bool.and_eq_true, decide_eq_true_eq]
  constructor
  · intro found
    obtain ⟨⟨used, below⟩, short⟩ := found
    refine ⟨⟨used, BitVec.le_of_lt below, short⟩, fun same => ?_⟩
    rw [same] at below
    exact BitVec.lt_irrefl _ below
  · intro near
    obtain ⟨⟨used, below, short⟩, other⟩ := near
    exact ⟨⟨used, BitVec.lt_of_le_ne below other⟩, short⟩

/-- An entry right at the target is a closest one. -/
theorem closest_of_at (member : entry ∈ entries) (near : entry.InWindow target)
    (same : entry.addr = target) : Closest entries target entry := by
  refine ⟨member, near, fun other _ found => ?_⟩
  rw [same]
  exact found.2.1

/-- The name that is shown where an entry is right at the target is that of a closest one. -/
theorem shows_at (found : entries.find? (ApiEntry.isAt target) = some entry) :
    ShowsClosest entries target (resolveOs2Api (some entries) target) := by
  -- The first lookup decides what is shown.
  have here := ApiEntry.isAt_iff.mp (List.find?_some found)
  have member := List.mem_of_find?_eq_some found
  have shown : resolveOs2Api (some entries) target = some entry.name := by
    unfold resolveOs2Api
    dsimp only
    rw [found]
  rw [shown]
  exact ⟨entry, closest_of_at member here.1 here.2, rfl⟩

/-- Where no entry is right at the target, the second lookup is for any within the window. -/
theorem find_below (missing : ∀ entry ∈ entries, entry.isAt target = false) :
    entries.find? (ApiEntry.isBelow target) =
      entries.find? fun entry => entry.InWindow target := by
  -- The lookups test the same of each entry.
  induction entries with
  | nil => rfl
  | cons entry rest ih =>
    have here := missing entry (List.mem_cons_self ..)
    have tests : entry.isBelow target = decide (entry.InWindow target) := by
      rw [Bool.eq_iff_iff, ApiEntry.isBelow_iff, decide_eq_true_iff]
      refine ⟨fun near => near.1, fun near => ⟨near, fun same => ?_⟩⟩
      rw [ApiEntry.isAt_iff.mpr ⟨near, same⟩] at here
      exact Bool.noConfusion here
    rw [List.find?_cons, List.find?_cons, tests,
      ih fun other member => missing other (List.mem_cons_of_mem _ member)]

/-- The name that is shown where no entry is right at the target. -/
theorem resolve_below (missing : entries.find? (ApiEntry.isAt target) = none) :
    resolveOs2Api (some entries) target =
      (entries.find? fun entry => entry.InWindow target).map ApiEntry.name := by
  have none_at : ∀ entry ∈ entries, entry.isAt target = false := fun entry member =>
    Bool.eq_false_iff.mpr (List.find?_eq_none.mp missing entry member)
  unfold resolveOs2Api
  dsimp only
  rw [missing, ← find_below none_at]

end Names

/--
The name shown for a target is that of the closest entry within the window exactly if an entry is
right at the target, or if the first one within the window has the name of a closest one.
-/
theorem closest_shown_iff (entries : List ApiEntry) (target : BitVec 32) :
    ShowsClosest entries target (resolveOs2Api (some entries) target) ↔
      ClosestFirst entries target := by
  cases exact_match : entries.find? (ApiEntry.isAt target) with
  | some entry =>
    -- An entry right at the target decides both sides.
    have here := ApiEntry.isAt_iff.mp (List.find?_some exact_match)
    have member := List.mem_of_find?_eq_some exact_match
    exact iff_of_true (shows_at exact_match) (.inl ⟨entry, member, here⟩)
  | none =>
    have no_exact : ¬ ∃ entry ∈ entries, entry.InWindow target ∧ entry.addr = target := by
      intro here
      obtain ⟨entry, member, near⟩ := here
      exact List.find?_eq_none.mp exact_match entry member (ApiEntry.isAt_iff.mpr near)
    unfold ClosestFirst
    rw [or_iff_right no_exact, resolve_below exact_match]
    -- What is left is the first entry within the window, if there is one.
    cases first_match : entries.find? fun entry => entry.InWindow target with
    | none =>
      have empty : ∀ entry ∈ entries, ¬ entry.InWindow target := fun entry member near =>
        List.find?_eq_none.mp first_match entry member (decide_eq_true near)
      apply iff_of_true empty
      intro first found
      cases found
    | some first =>
      constructor
      · intro closest other found
        cases found
        exact closest
      · exact fun closest => closest first rfl

/-- A table of two calls, with a target within the code of the second one. -/
def nearbyCalls : List ApiEntry :=
  [⟨0x1000, [0x41]⟩, ⟨0x1040, [0x42]⟩]

/-- The name of the first call is shown for a target that is within the second one. -/
theorem first_call_shown :
    ¬ ShowsClosest nearbyCalls 0x1044 (resolveOs2Api (some nearbyCalls) 0x1044) := by
  have shown : resolveOs2Api (some nearbyCalls) 0x1044 = some [0x41] := by decide
  rw [shown]
  intro closest
  obtain ⟨entry, found, name⟩ := closest
  -- The second call is closer to the target than the one that has the name.
  have greater := found.greatest ⟨0x1040, [0x42]⟩ (by decide) (by decide)
  have member := found.member
  simp only [nearbyCalls, List.mem_cons, List.not_mem_nil, or_false] at member
  rcases member with first | second
  · subst first
    exact absurd greater (by decide)
  · subst second
    exact absurd name (by decide)

end TwoIne
