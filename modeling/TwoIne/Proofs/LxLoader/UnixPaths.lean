import TwoIne.LxLoader.UnixPaths

/-! How paths are taken apart, and when the search for a path of the host comes to its end. -/

namespace TwoIne

open Paths

section Drives

/-- The letters are as many as the drives. -/
theorem driveIndex_lt {letter : Char} {drive : Nat} (found : driveIndex letter = some drive) :
    drive < driveLetters := by
  rw [driveIndex] at found
  split at found
  · next inside =>
    have last : letter.toUpper.toNat ≤ 'Z'.toNat := inside.2
    have zed : 'Z'.toNat = 90 := rfl
    have first : 'A'.toNat = 65 := rfl
    rw [← Option.some.inj found, driveLetters]
    omega
  · cases found

/-- The null device is not behind a drive letter. -/
theorem splitDrive_null {path : Name} (device : isNullDevice path = true) (disk : Nat) :
    splitDrive disk path = (disk - 1, path) := by
  -- Its second letter is not a colon in any case.
  unfold splitDrive
  split
  · exfalso
    simp [isNullDevice, strcasecmp] at device
  · rfl

end Drives

/-- Whether the search for an element lists no directory that does not open. -/
def ElementOpens (files : FileSystem) (buf : Name) : Prop :=
  files.accessible buf = true ∨ files.listing (elementDirectory buf) ≠ none

/-- Whether the search for the elements of a path lists no directory that does not open. -/
def ElementsOpen (files : FileSystem) : Name → List Name → Prop
  | buf, [] => ElementOpens files buf
  | buf, next :: rest =>
    ElementOpens files buf ∧
      ∀ located, locateOneElement files buf = some (true, located) →
        ElementsOpen files (located ++ '/' :: next) rest

/-- Whether the search for a path lists no directory that does not open. -/
def PathOpens (files : FileSystem) (buf : Name) : Prop :=
  files.accessible buf = true ∨
    match buf with
    | [] => True
    | first :: rest => ∀ element more, rest.splitOn '/' = element :: more →
        ElementsOpen files (first :: element) more

section Locating

variable {files : FileSystem}

/-- The search for an element fails exactly at a directory that does not open. -/
theorem locateOneElement_isSome (buf : Name) :
    (locateOneElement files buf).isSome ↔ ElementOpens files buf := by
  rw [locateOneElement, ElementOpens]
  by_cases here : files.accessible buf = true
  · simp [here]
  · rw [if_neg here]
    cases listed : files.listing (elementDirectory buf) with
    | none => simp [here]
    | some entries =>
      cases found : entries.find? (strcasecmp · (soughtElement buf)) <;> simp [found]

/-- The search for elements fails exactly at a directory that does not open. -/
theorem locateElements_isSome (rest : List Name) :
    ∀ buf, (locateElements files buf rest).isSome ↔ ElementsOpen files buf rest := by
  induction rest with
  | nil =>
    intro buf
    rw [locateElements, ElementsOpen, Option.isSome_map]
    exact locateOneElement_isSome buf
  | cons next rest ih =>
    intro buf
    rw [locateElements, ElementsOpen, ← locateOneElement_isSome]
    cases located : locateOneElement files buf with
    | none => simp
    | some answer =>
      obtain ⟨found, text⟩ := answer
      cases found with
      | false => simp
      | true => simpa using ih (text ++ '/' :: next)

/-- The search for a path fails exactly at a directory that does not open. -/
theorem locatePath_isSome (files : FileSystem) (buf : Name) :
    (locatePathCaseInsensitive files buf).isSome ↔ PathOpens files buf := by
  unfold locatePathCaseInsensitive PathOpens
  by_cases here : files.accessible buf = true
  · simp [here]
  · rw [if_neg here]
    cases buf with
    | nil => simp
    | cons first rest =>
      obtain ⟨element, more, pieces⟩ := List.exists_cons_of_ne_nil (List.splitOn_ne_nil '/' rest)
      simp [here, pieces, locateElements_isSome]

/-- A path is what stands in front of its last element, and that element. -/
theorem front_append_last (buf : Name) : frontOfElement buf ++ lastElement buf = buf := by
  have suffix : lastElement buf <:+ buf := by
    rw [lastElement, ← List.reverse_prefix, List.reverse_reverse]
    exact List.takeWhile_prefix _
  have last := List.suffix_iff_eq_drop.mp suffix
  have whole := List.take_append_drop (buf.length - (lastElement buf).length) buf
  rw [← last] at whole
  exact whole

/-- A path is what is kept of it, and what is compared with the entries. -/
theorem kept_append_sought (buf : Name) : keptFront buf ++ soughtElement buf = buf := by
  rw [keptFront, soughtElement]
  split
  · rfl
  · exact front_append_last buf

/-- An element is found with the letters that it was looked for with. -/
theorem locateOneElement_letters {buf : Name} {found : Bool} {located : Name}
    (answer : locateOneElement files buf = some (found, located)) :
    located.map Char.toLower = buf.map Char.toLower := by
  rw [locateOneElement] at answer
  split at answer
  · cases answer
    rfl
  · split at answer
    · cases answer
    · split at answer
      · next entry matched =>
        -- The entry differs from the element only in the case of its letters.
        cases answer
        have same : entry.map Char.toLower = (soughtElement buf).map Char.toLower := by
          simpa [strcasecmp] using List.find?_some matched
        rw [List.map_append, same, ← List.map_append, kept_append_sought]
      · cases answer
        rfl

/-- Elements are found with the letters that they were looked for with. -/
theorem locateElements_letters (rest : List Name) :
    ∀ buf path, locateElements files buf rest = some path →
      path.map Char.toLower = (['/'].intercalate (buf :: rest)).map Char.toLower := by
  induction rest with
  | nil =>
    intro buf path answer
    rw [locateElements, Option.map_eq_some_iff] at answer
    obtain ⟨⟨found, located⟩, one, rfl⟩ := answer
    rw [List.intercalate_singleton]
    exact locateOneElement_letters one
  | cons next rest ih =>
    intro buf path answer
    rw [locateElements] at answer
    split at answer
    · cases answer
    · next located one =>
      have same := locateOneElement_letters one
      rw [ih _ _ answer]
      cases rest with
      | nil => simp [List.intercalate_cons_of_ne_nil, same]
      | cons later rest => simp [List.intercalate_cons_of_ne_nil, same]
    · cases answer
      rfl

/-- A path is found with the letters that it was looked for with. -/
theorem locatePath_letters {buf path : Name}
    (answer : locatePathCaseInsensitive files buf = some path) :
    path.map Char.toLower = buf.map Char.toLower := by
  unfold locatePathCaseInsensitive at answer
  split at answer
  · cases answer
    rfl
  · split at answer
    · cases answer
      rfl
    · next first rest _ =>
      split at answer
      · cases answer
        rfl
      · next element more pieces =>
        -- The first letter stands in front of the first element.
        have joined : ['/'].intercalate ((first :: element) :: more) = first :: rest := by
          have whole : ['/'].intercalate (rest.splitOn '/') = rest := List.intercalate_splitOn '/'
          rw [pieces] at whole
          cases more with
          | nil => simpa using whole
          | cons next more => simpa [List.intercalate_cons_cons] using whole
        rw [locateElements_letters more _ _ answer, joined]

end Locating

/-- What stands in front of the small letters is nothing else's small letter. -/
theorem toLower_eq_below {letter small : Char} (below : small.val.toNat < 'a'.val.toNat)
    (lower : letter.toLower = small) : letter = small := by
  unfold Char.toLower at lower
  split at lower
  · next capital =>
    -- The small letter of a capital one is not in front of them.
    exfalso
    have sum : letter.val + ('a'.val - 'A'.val) = small.val := congrArg Char.val lower
    have first : 'A'.val.toNat ≤ letter.val.toNat := UInt32.le_iff_toNat_le.mp capital.1
    have last : letter.val.toNat ≤ 'Z'.val.toNat := UInt32.le_iff_toNat_le.mp capital.2
    have shift : 'a'.val - 'A'.val = 32 := by decide
    have start : 'a'.val.toNat = 97 := by decide
    have low : 'A'.val.toNat = 65 := by decide
    have high : 'Z'.val.toNat = 90 := by decide
    rw [shift] at sum
    have numbers := congrArg UInt32.toNat sum
    rw [UInt32.toNat_add] at numbers
    have shift_number : (32 : UInt32).toNat = 32 := rfl
    omega
  · exact lower

/-- Whether a path has such a letter does not depend on the case of its letters. -/
theorem mem_iff_of_letters {small : Char} (below : small.val.toNat < 'a'.val.toNat)
    (kept : small.toLower = small) {path other : Name} (same : path.map Char.toLower = other.map Char.toLower) :
    small ∈ path ↔ small ∈ other := by
  have lower : ∀ text : Name, small ∈ text ↔ small ∈ text.map Char.toLower := by
    intro text
    rw [List.mem_map]
    constructor
    · exact fun member => ⟨small, member, kept⟩
    · intro found
      obtain ⟨letter, member, letter_lower⟩ := found
      exact toLower_eq_below below letter_lower ▸ member
  rw [lower, same, ← lower]

/-- Whether a path has a backslash does not depend on the case of its letters. -/
theorem backslash_mem_iff {path other : Name}
    (same : path.map Char.toLower = other.map Char.toLower) : '\\' ∈ path ↔ '\\' ∈ other :=
  mem_iff_of_letters (by decide) (by decide) same

end TwoIne
