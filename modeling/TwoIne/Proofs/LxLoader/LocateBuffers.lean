import Mathlib.Data.List.TakeWhile
import TwoIne.LxLoader.LocateBuffers
import TwoIne.Proofs.LxLoader.UnixPaths

/-!
The search in a buffer finds what the search for a text finds, and leaves what stands behind the path
as it is.
-/

namespace TwoIne

open Paths StringBuffers

/-- What the search answers, with the text that is left. -/
def locateFrom (files : FileSystem) : Name → List Name → Option (Int × Name)
  | buf, [] =>
    (locateOneElement files buf).map fun (found, located) => (if found then 0 else -1, located)
  | buf, next :: rest =>
    match locateOneElement files buf with
    | none => none
    | some (true, located) => locateFrom files (located ++ '/' :: next) rest
    | some (false, located) => some (-2, ['/'].intercalate (located :: next :: rest))

/-- What the search for a path answers, with the text that is left. -/
def locatePathCode (files : FileSystem) (path : Name) : Option (Int × Name) :=
  if files.accessible path then some (0, path)
  else
    match path with
    | [] => some (0, [])
    | first :: rest =>
      match rest.splitOn '/' with
      | [] => some (0, path)
      | element :: more => locateFrom files (first :: element) more

section Elements

variable {name : Name}

/-- A path without separators is its last element. -/
theorem lastElement_single (inside : '/' ∉ name) : lastElement name = name := by
  have clean : ∀ letter ∈ name.reverse, decide (letter ≠ '/') = true := by
    intro letter member
    apply decide_eq_true
    intro same
    exact inside (List.mem_reverse.mp (same ▸ member))
  rw [lastElement, List.takeWhile_eq_self_iff.mpr clean, List.reverse_reverse]

/-- The last element of a path is behind its last separator. -/
theorem lastElement_append (inside : '/' ∉ name) (front : Name) :
    lastElement (front ++ '/' :: name) = name := by
  have clean : ∀ letter ∈ name.reverse, decide (letter ≠ '/') = true := by
    intro letter member
    apply decide_eq_true
    intro same
    exact inside (List.mem_reverse.mp (same ▸ member))
  have reversed : (front ++ '/' :: name).reverse = name.reverse ++ '/' :: front.reverse := by simp
  rw [lastElement, reversed, List.takeWhile_append_of_pos clean]
  simp

/-- Nothing is in front of a path without separators. -/
theorem frontOfElement_single (inside : '/' ∉ name) : frontOfElement name = [] := by
  rw [frontOfElement, lastElement_single inside, Nat.sub_self, List.take_zero]

/-- What is in front of the last element ends with a separator. -/
theorem frontOfElement_append (inside : '/' ∉ name) (front : Name) :
    frontOfElement (front ++ '/' :: name) = front ++ ['/'] := by
  have split : front ++ '/' :: name = (front ++ ['/']) ++ name := by simp
  have length : (front ++ '/' :: name).length - name.length = (front ++ ['/']).length := by
    simp only [List.length_append, List.length_cons, List.length_nil]
    omega
  rw [frontOfElement, lastElement_append inside, length, split, List.take_left]

/-- A path with a separator has a last one. -/
theorem exists_last_separator {path : Name} (member : '/' ∈ path) :
    ∃ front name, path = front ++ '/' :: name ∧ '/' ∉ name := by
  obtain ⟨behind, before, split, inside⟩ :=
    List.eq_append_cons_of_mem (List.mem_reverse.mpr member)
  refine ⟨before.reverse, behind.reverse, ?_, fun found => inside (List.mem_reverse.mp found)⟩
  have whole := congrArg List.reverse split
  rw [List.reverse_reverse] at whole
  simpa using whole

end Elements

section Locating

variable {files : FileSystem} {buf : Name}

/-- The directory of an element in a buffer, and where the element is compared. -/
theorem openElement_eq (files : FileSystem) (inside : nul ∉ buf) (tail : Name) :
    openElement files (buf ++ nul :: tail) =
      (files.listing (elementDirectory buf)).map fun entries =>
        (entries, keptFront buf ++ (soughtElement buf ++ nul :: tail), (keptFront buf).length) := by
  have whole : keptFront buf ++ (soughtElement buf ++ nul :: tail) = buf ++ nul :: tail := by
    rw [← List.append_assoc, kept_append_sought]
  rw [whole]
  by_cases separator : '/' ∈ buf
  · obtain ⟨front, name, rfl, behind⟩ := exists_last_separator separator
    have found := strrchr_some inside behind tail
    have front_inside : nul ∉ front := fun member => inside (List.mem_append_left _ member)
    unfold openElement elementDirectory keptFront
    rw [frontOfElement_append behind]
    simp only [Option.bind_eq_bind, found, Option.bind_some]
    cases front with
    | nil =>
      -- The directory is the root, and the place stays at its separator.
      simp only [List.length_nil, List.nil_append, if_neg (List.cons_ne_nil '/' []), if_true]
      cases files.listing ['/'] <;> rfl
    | cons first front =>
      -- The path is cut off for as long as its directory is opened.
      have stored := store_at (first :: front) '/' nul (name ++ nul :: tail)
      have restored := store_at (first :: front) nul '/' (name ++ nul :: tail)
      have read := readFrom_at front_inside [] (name ++ nul :: tail)
      rw [List.nil_append, List.length_nil] at read
      have text : first :: front ++ '/' :: name ++ nul :: tail =
          first :: front ++ '/' :: (name ++ nul :: tail) := by simp
      have proper : first :: front ++ ['/'] ≠ ['/'] := by
        intro same
        have length := congrArg List.length same
        simp at length
      rw [List.length_cons] at stored restored ⊢
      rw [text]
      simp only [stored, read, restored, Option.bind_some, if_neg proper]
      rw [if_neg (by simp), List.dropLast_concat]
      cases files.listing (first :: front) with
      | none => rfl
      | some entries => simp
  · -- A path of one element is looked for in the current directory.
    have found := strrchr_none inside separator tail
    unfold openElement elementDirectory keptFront
    rw [frontOfElement_single separator]
    simp only [Option.bind_eq_bind, found, Option.bind_some, reduceCtorEq, if_true, if_false]
    cases files.listing ['.'] <;> rfl

/-- Looking for an element in a buffer. -/
theorem locateOneBuffer_eq (inside : nul ∉ buf) (tail : Name) :
    locateOneBuffer files (buf ++ nul :: tail) =
      (locateOneElement files buf).map fun (found, located) => (found, located ++ nul :: tail) := by
  have read := readFrom_at inside [] tail
  rw [List.nil_append, List.length_nil] at read
  rw [locateOneBuffer, locateOneElement]
  simp only [Option.bind_eq_bind, read, Option.bind_some]
  by_cases here : files.accessible buf = true
  · rw [if_pos here, if_pos here]
    rfl
  rw [if_neg here, if_neg here, openElement_eq files inside]
  have sought_inside : nul ∉ soughtElement buf := by
    intro member
    apply inside
    rw [← kept_append_sought buf]
    exact List.mem_append_right _ member
  cases files.listing (elementDirectory buf) with
  | none => rfl
  | some entries =>
    have element := readFrom_at sought_inside (keptFront buf) tail
    simp only [Option.map_some, Option.bind_some, element]
    cases found : entries.find? (strcasecmp · (soughtElement buf)) with
    | none =>
      have whole : keptFront buf ++ (soughtElement buf ++ nul :: tail) = buf ++ nul :: tail := by
        rw [← List.append_assoc, kept_append_sought]
      simp [whole]
    | some entry =>
      -- The entry has as many letters as what it is written over.
      have same : entry.map Char.toLower = (soughtElement buf).map Char.toLower := by
        simpa [strcasecmp] using List.find?_some found
      have length : entry.length = (soughtElement buf).length := by
        simpa using congrArg List.length same
      have written : strcpy nul (keptFront buf ++ (soughtElement buf ++ nul :: tail))
          (keptFront buf).length entry = some (keptFront buf ++ (entry ++ nul :: tail)) :=
        strcpy_at length (keptFront buf) tail
      simp [written]

/-- Nothing is written where nothing is found. -/
theorem locateOneElement_missing {located : Name}
    (answer : locateOneElement files buf = some (false, located)) : located = buf := by
  rw [locateOneElement] at answer
  split at answer
  · cases answer
  · split at answer
    · cases answer
    · split at answer <;> cases answer
      rfl

/-- What is found has the same letters, and so it is a string of the same length. -/
theorem located_shape {found : Bool} {located : Name}
    (answer : locateOneElement files buf = some (found, located)) (inside : nul ∉ buf) :
    located.length = buf.length ∧ nul ∉ located := by
  have same := locateOneElement_letters answer
  refine ⟨by simpa using congrArg List.length same, fun member => inside ?_⟩
  exact (mem_iff_of_letters (by decide) (by decide) same).mp member

/-- Looking for the elements of a path in a buffer, one after the other. -/
theorem locateElementsBuffer_eq (files : FileSystem) (rest : List Name) (tail : Name)
    {front name : Name} {fuel ptr : Nat}
    (place : ptr + 1 = front.length) (name_inside : '/' ∉ name)
    (rest_inside : ∀ next ∈ rest, '/' ∉ next)
    (inside : nul ∉ ['/'].intercalate ((front ++ name) :: rest)) (enough : rest.length < fuel) :
    locateElementsBuffer files fuel (['/'].intercalate ((front ++ name) :: rest) ++ nul :: tail)
        ptr =
      (locateFrom files (front ++ name) rest).map fun (code, text) =>
        (code, text ++ nul :: tail) := by
  induction rest generalizing front name fuel ptr with
  | nil =>
    obtain ⟨fuel, rfl⟩ := Nat.exists_eq_add_of_lt enough
    rw [List.intercalate_singleton] at inside ⊢
    have holds : Holds nul (front ++ name ++ nul :: tail) (front ++ name) := ⟨inside, tail, rfl⟩
    have last := holds.strchr_none name_inside
    rw [locateElementsBuffer, place, locateFrom]
    simp only [Option.bind_eq_bind, last, Option.bind_some, locateOneBuffer_eq inside]
    cases locateOneElement files (front ++ name) with
    | none => rfl
    | some answer => rfl
  | cons next rest ih =>
    obtain ⟨fuel, rfl⟩ := Nat.exists_eq_add_of_lt (Nat.lt_of_le_of_lt (Nat.zero_le _) enough)
    rw [Nat.zero_add] at enough ⊢
    have split (text : Name) : ['/'].intercalate (text :: next :: rest) =
        text ++ '/' :: ['/'].intercalate (next :: rest) := by
      rw [List.intercalate_cons_of_ne_nil (List.cons_ne_nil _ _)]
      simp
    rw [split] at inside ⊢
    generalize later : ['/'].intercalate (next :: rest) = more at inside
    have element_inside : nul ∉ front ++ name :=
      fun member => inside (List.mem_append_left _ member)
    have more_inside : nul ∉ more :=
      fun member => inside (List.mem_append_right _ (List.mem_cons_of_mem _ member))
    have holds : Holds nul (front ++ name ++ '/' :: more ++ nul :: tail)
        (front ++ (name ++ '/' :: more)) := ⟨by simpa using inside, tail, by simp⟩
    have found := holds.strchr_some name_inside
    rw [← List.length_append] at found
    have stored := store_at (front ++ name) '/' nul (more ++ nul :: tail)
    have text : front ++ name ++ '/' :: more ++ nul :: tail =
        front ++ name ++ '/' :: (more ++ nul :: tail) := by simp
    rw [text] at found ⊢
    rw [locateElementsBuffer, place, locateFrom]
    simp only [Option.bind_eq_bind, found, stored, Option.bind_some,
      locateOneBuffer_eq element_inside]
    cases answer : locateOneElement files (front ++ name) with
    | none => rfl
    | some answers =>
      obtain ⟨here, located⟩ := answers
      -- The separator is put back behind the element, which is as long as before.
      obtain ⟨length, located_inside⟩ := located_shape answer element_inside
      have restored := store_at located nul '/' (more ++ nul :: tail)
      rw [length] at restored
      simp only [Option.map_some, Option.bind_some, restored]
      cases here with
      | false => simp [split, later]
      | true =>
        have joined : ['/'].intercalate ((located ++ ['/'] ++ next) :: rest) =
            located ++ '/' :: more := by
          rw [intercalate_front, later]
          simp
        have longer : (front ++ name).length + 1 = (located ++ ['/']).length := by
          rw [← length]
          simp
        have clean : nul ∉ ['/'].intercalate ((located ++ ['/'] ++ next) :: rest) := by
          rw [joined, List.mem_append, List.mem_cons]
          intro member
          rcases member with early | same | behind
          · exact located_inside early
          · exact absurd same (by decide)
          · exact more_inside behind
        have shorter : rest.length < fuel := by
          rw [List.length_cons] at enough
          omega
        have ahead := ih longer (rest_inside next List.mem_cons_self)
          (fun name member => rest_inside name (List.mem_cons_of_mem _ member)) clean shorter
        have text : located ++ ['/'] ++ next = located ++ '/' :: next := by simp
        rw [joined, text, List.append_assoc] at ahead
        simpa using ahead

/-- Looking for a path in a buffer leaves what stands behind it as it is. -/
theorem locatePathBuffer_eq (files : FileSystem) {path : Name} (inside : nul ∉ path) (tail : Name) :
    locatePathBuffer files (path ++ nul :: tail) =
      (locatePathCode files path).map fun (code, text) => (code, text ++ nul :: tail) := by
  have read := readFrom_at inside [] tail
  rw [List.nil_append, List.length_nil] at read
  rw [locatePathBuffer]
  unfold locatePathCode
  simp only [Option.bind_eq_bind, read, Option.bind_some]
  cases path with
  | nil => simp
  | cons first rest =>
    rw [if_neg (List.cons_ne_nil first rest)]
    by_cases here : files.accessible (first :: rest) = true
    · rw [if_pos here, if_pos here]
      rfl
    rw [if_neg here, if_neg here]
    obtain ⟨element, more, pieces⟩ := List.exists_cons_of_ne_nil (List.splitOn_ne_nil '/' rest)
    obtain ⟨pieces_inside, count⟩ := splitOn_pieces '/' rest
    rw [pieces] at pieces_inside count
    dsimp only
    rw [pieces]
    -- The first letter stands in front of the first element, and the loop starts behind it.
    have whole : ['/'].intercalate (element :: more) = rest := by
      rw [← pieces]
      exact List.intercalate_splitOn '/'
    have joined : ['/'].intercalate (([first] ++ element) :: more) = first :: rest := by
      rw [intercalate_front, whole]
      rfl
    have clean : nul ∉ ['/'].intercalate (([first] ++ element) :: more) := by
      rw [joined]
      exact inside
    have enough : more.length < (first :: rest ++ nul :: tail).length := by
      have letters := List.count_le_length (a := '/') (l := rest)
      simp only [List.length_cons, List.length_append] at count ⊢
      omega
    have went := locateElementsBuffer_eq files more tail
      (List.length_singleton (a := first)).symm (pieces_inside element List.mem_cons_self)
      (fun name member => pieces_inside name (List.mem_cons_of_mem _ member)) clean enough
    rw [joined] at went
    exact went

/-- The text that is left is the one that is found for the path. -/
theorem locatePathCode_text (files : FileSystem) (path : Name) :
    (locatePathCode files path).map Prod.snd = locatePathCaseInsensitive files path := by
  have elements (rest : List Name) :
      ∀ buf, (locateFrom files buf rest).map Prod.snd = locateElements files buf rest := by
    induction rest with
    | nil =>
      intro buf
      rw [locateFrom, locateElements, Option.map_map]
      rfl
    | cons next rest ih =>
      intro buf
      rw [locateFrom, locateElements]
      cases answer : locateOneElement files buf with
      | none => rfl
      | some answers =>
        obtain ⟨found, located⟩ := answers
        cases found with
        | true => exact ih _
        | false =>
          have same := locateOneElement_missing answer
          rw [same]
          rfl
  unfold locatePathCode locatePathCaseInsensitive
  by_cases here : files.accessible path = true
  · rw [if_pos here, if_pos here]
    rfl
  rw [if_neg here, if_neg here]
  cases path with
  | nil => rfl
  | cons first rest =>
    dsimp only
    cases rest.splitOn '/' with
    | nil => rfl
    | cons element more => exact elements more _

end Locating

end TwoIne
