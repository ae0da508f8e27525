import TwoIne.Proofs.LxLoader.LocateBuffers
import TwoIne.Proofs.LxLoader.UnixBuffers

/-!
A path is found in any case behind an entry of the root that is there in its own case: an entry of
the root itself is only compared with the separator in front of it.
-/

namespace TwoIne

open Paths StringBuffers

universe u

/--
A tree of directories: what a name in a directory leads to, and what a directory that opens lists.
Neither follows from the other: a link that leads nowhere is listed, and a directory may be closed.
-/
structure DirectoryTree (Node : Type u) where
  root : Node
  cwd : Node
  entry : Node → Name → Option Node
  listing : Node → Option (List Name)
  proper : ∀ node entries, listing node = some entries → ∀ name ∈ entries, '/' ∉ name

namespace DirectoryTree

variable {Node : Type u} (tree : DirectoryTree Node)

/-- What a name leads to. -/
def into (dir : Option Node) (name : Name) : Option Node := dir.bind fun node => tree.entry node name

/-- What names lead to that follow each other. -/
def resolve (dir : Option Node) (names : List Name) : Option Node := names.foldl tree.into dir

/-- What a path leads to. -/
def place (path : Name) : Option Node :=
  if path = [] then none
  else tree.resolve (some (if path.head? = some '/' then tree.root else tree.cwd)) (names '/' path)

/-- The files that the paths of a tree lead to. -/
def files : FileSystem where
  accessible path := (tree.place path).isSome
  listing path := (tree.place path).bind tree.listing

/-- The spelling of a name in a directory: its own, or else that of the first entry in any case. -/
def spelling (dir : Option Node) (name : Name) : Option Name :=
  if (tree.into dir name).isSome then some name
  else (dir.bind tree.listing).bind fun entries => entries.find? (strcasecmp · name)

/-- The spelling of one name after the other, each in the directory that is found for those before. -/
def walk : Option Node → List Name → Option (List Name)
  | _, [] => some []
  | dir, name :: rest =>
    (tree.spelling dir name).bind fun found =>
      (walk (tree.into dir found) rest).map (found :: ·)

/-- Names that are entries: each leads somewhere, or is listed by its directory. -/
def Leads : Option Node → List Name → Prop
  | _, [] => True
  | dir, name :: rest =>
    ((tree.into dir name).isSome ∨ ∃ entries, dir.bind tree.listing = some entries ∧ name ∈ entries) ∧
      Leads (tree.into dir name) rest

/-- Every directory opens that is listed on the walk. -/
def WalkOpens : Option Node → List Name → Prop
  | _, [] => True
  | dir, name :: rest =>
    ((tree.into dir name).isSome ∨ (dir.bind tree.listing).isSome) ∧
      ∀ found, tree.spelling dir name = some found → WalkOpens (tree.into dir found) rest

end DirectoryTree

/-- The path of names from the root on. -/
def pathOf (names : List Name) : Name := '/' :: ['/'].intercalate names

/--
What a search has to do: where the walk finds a spelling for all names the path in the buffer is
written over with it, and elsewhere another answer than zero is given. What stands behind the path
is left as it is.
-/
def LocatesRight {Node : Type u} (tree : DirectoryTree Node) (names : List Name) (tail : Name) :
    Prop :=
  match tree.walk (some tree.root) names with
  | some found =>
    locatePathBuffer tree.files (pathOf names ++ nul :: tail) =
        some (0, pathOf found ++ nul :: tail) ∧
      tree.Leads (some tree.root) found ∧
      (pathOf found).map Char.toLower = (pathOf names).map Char.toLower ∧
      (pathOf found).length = (pathOf names).length
  | none =>
    ∃ code text, locatePathBuffer tree.files (pathOf names ++ nul :: tail) =
        some (code, text ++ nul :: tail) ∧
      code ≠ 0 ∧ text.length = (pathOf names).length

/--
The paths that are looked for as they have to be: those that are there in their own case, those
behind an entry of the root that is, if every directory on the walk opens, and those that the walk
does not find either.
-/
def Locatable {Node : Type u} (tree : DirectoryTree Node) (names : List Name) : Prop :=
  (tree.resolve (some tree.root) names).isSome ∨
    match names with
    | [] => True
    | first :: rest =>
      if (tree.entry tree.root first).isSome then
        tree.WalkOpens (tree.entry tree.root first) rest
      else (tree.listing tree.root).isSome ∧ tree.walk (some tree.root) names = none

/-! Walking -/

namespace DirectoryTree

variable {Node : Type u} {tree : DirectoryTree Node} {dir : Option Node} {name : Name}
  {names front : List Name}

/-- Nowhere leads nowhere. -/
theorem resolve_none (names : List Name) : tree.resolve none names = none := by
  induction names with
  | nil => rfl
  | cons name names ih => exact ih

/-- What leads somewhere leads there over each of its names. -/
theorem into_of_resolve (there : (tree.resolve dir (name :: names)).isSome) :
    (tree.into dir name).isSome := by
  cases next : tree.into dir name with
  | some node => rfl
  | none =>
    have nowhere : tree.resolve dir (name :: names) = none := by
      show tree.resolve (tree.into dir name) names = none
      rw [next]
      exact resolve_none names
    rw [nowhere] at there
    exact there

/-- Names that lead somewhere are found in their own spelling. -/
theorem walk_of_resolve (there : (tree.resolve dir names).isSome) :
    tree.walk dir names = some names := by
  induction names generalizing dir with
  | nil => rfl
  | cons name names ih =>
    rw [walk, spelling, if_pos (into_of_resolve there), Option.bind_some, ih there]
    rfl

/-- The spellings that a walk finds are entries. -/
theorem leads_of_walk {found : List Name} (walked : tree.walk dir names = some found) :
    tree.Leads dir found := by
  induction names generalizing dir found with
  | nil =>
    cases walked
    trivial
  | cons name names ih =>
    obtain ⟨first, spelled, more⟩ := Option.bind_eq_some_iff.mp walked
    obtain ⟨rest, later, same⟩ := Option.map_eq_some_iff.mp more
    subst same
    refine ⟨?_, ih later⟩
    unfold spelling at spelled
    split at spelled
    · next there =>
      cases spelled
      exact .inl there
    · -- The first entry in any case is one of those that are listed.
      obtain ⟨entries, listed, matched⟩ := Option.bind_eq_some_iff.mp spelled
      exact .inr ⟨entries, listed, List.mem_of_find?_eq_some matched⟩

end DirectoryTree

/-! Paths of a tree -/

section Places

variable {Node : Type u} (tree : DirectoryTree Node) {front : List Name} {name : Name}

/-- The names of a path from the root on. -/
theorem names_pathOf (proper : ∀ name ∈ front, name ≠ [] ∧ '/' ∉ name) :
    names '/' (pathOf front) = front := by
  rw [pathOf, names_cons_sep, names_intercalate proper]

/-- What a path from the root on leads to. -/
theorem place_pathOf (proper : ∀ name ∈ front, name ≠ [] ∧ '/' ∉ name) :
    tree.place (pathOf front) = tree.resolve (some tree.root) front := by
  have present : pathOf front ≠ [] := List.cons_ne_nil _ _
  have starts : (pathOf front).head? = some '/' := rfl
  rw [DirectoryTree.place, if_neg present, names_pathOf proper, if_pos starts]

/-- One more name at the end of a path. -/
theorem pathOf_concat (present : front ≠ []) (name : Name) :
    pathOf (front ++ [name]) = pathOf front ++ '/' :: name := by
  rw [pathOf, intercalate_append present (List.cons_ne_nil _ _), List.intercalate_singleton]
  rfl

/-- What a name leads to behind a path. -/
theorem resolve_concat (dir : Option Node) (front : List Name) (name : Name) :
    tree.resolve dir (front ++ [name]) = tree.into (tree.resolve dir front) name := by
  rw [DirectoryTree.resolve, List.foldl_append]
  rfl

/-- A path leads somewhere if its names do. -/
theorem accessible_pathOf (proper : ∀ name ∈ front, name ≠ [] ∧ '/' ∉ name) :
    tree.files.accessible (pathOf front) = (tree.resolve (some tree.root) front).isSome := by
  show (tree.place (pathOf front)).isSome = _
  rw [place_pathOf tree proper]

/-- Looking for an entry of a directory below the root compares it with the name. -/
theorem locate_below (present : front ≠ [])
    (proper : ∀ other ∈ front ++ [name], other ≠ [] ∧ '/' ∉ other) :
    locateOneElement tree.files (pathOf (front ++ [name])) =
      if (tree.into (tree.resolve (some tree.root) front) name).isSome then
        some (true, pathOf (front ++ [name]))
      else
        ((tree.resolve (some tree.root) front).bind tree.listing).map fun entries =>
          match entries.find? (strcasecmp · name) with
          | some entry => (true, pathOf (front ++ [entry]))
          | none => (false, pathOf (front ++ [name])) := by
  have front_proper : ∀ other ∈ front, other ≠ [] ∧ '/' ∉ other :=
    fun other member => proper other (List.mem_append_left _ member)
  have inside : '/' ∉ name := (proper name (by simp)).2
  have listed : tree.files.listing (pathOf front) =
      (tree.resolve (some tree.root) front).bind tree.listing := by
    show (tree.place (pathOf front)).bind tree.listing = _
    rw [place_pathOf tree front_proper]
  have deeper : pathOf front ++ ['/'] ≠ ['/'] := by
    intro same
    have length := congrArg List.length same
    simp [pathOf] at length
  have some_front : pathOf front ++ ['/'] ≠ [] := by simp
  -- What is in front of the element is the path of its directory.
  rw [locateOneElement, accessible_pathOf tree proper, resolve_concat, pathOf_concat present,
    elementDirectory, keptFront, soughtElement, frontOfElement_append inside,
    lastElement_append inside, if_neg deeper, if_neg deeper, if_neg some_front, if_neg deeper,
    List.dropLast_concat, listed]
  split
  · rfl
  · cases (tree.resolve (some tree.root) front).bind tree.listing with
    | none => rfl
    | some entries =>
      simp only [Option.map_some]
      cases found : entries.find? (strcasecmp · name) with
      | none => rfl
      | some entry =>
        simp only [pathOf_concat present]
        simp

end Places

/--
What the search for names does in a directory below the root: it faults exactly if some directory on
the walk does not open, and finds what the walk finds.
-/
structure LocateDoes {Node : Type u} (tree : DirectoryTree Node) (front names : List Name)
    (answer : Option (Int × Name)) : Prop where
  faults : ¬ tree.WalkOpens (tree.resolve (some tree.root) front) names → answer = none
  finds : tree.WalkOpens (tree.resolve (some tree.root) front) names → ∀ found,
    tree.walk (tree.resolve (some tree.root) front) names = some found →
      answer = some (0, pathOf (front ++ found))
  misses : tree.WalkOpens (tree.resolve (some tree.root) front) names →
    tree.walk (tree.resolve (some tree.root) front) names = none →
      ∃ code text, answer = some (code, text) ∧ code ≠ 0

section Locating

variable {Node : Type u} (tree : DirectoryTree Node) {front more : List Name} {name found : Name}
  {answer : Option (Int × Name)}

/-- A name that is found in some spelling, with more names behind it. -/
theorem LocateDoes.step
    (opens : (tree.into (tree.resolve (some tree.root) front) name).isSome ∨
      ((tree.resolve (some tree.root) front).bind tree.listing).isSome)
    (spelled : tree.spelling (tree.resolve (some tree.root) front) name = some found)
    (does : LocateDoes tree (front ++ [found]) more answer) :
    LocateDoes tree front (name :: more) answer := by
  obtain ⟨faults, finds, misses⟩ := does
  rw [resolve_concat] at faults finds misses
  have walk_opens : tree.WalkOpens (tree.resolve (some tree.root) front) (name :: more) ↔
      tree.WalkOpens (tree.into (tree.resolve (some tree.root) front) found) more := by
    constructor
    · exact fun both => both.2 found spelled
    · intro later
      refine ⟨opens, fun other again => ?_⟩
      cases spelled.symm.trans again
      exact later
  have walked : tree.walk (tree.resolve (some tree.root) front) (name :: more) =
      (tree.walk (tree.into (tree.resolve (some tree.root) front) found) more).map
        (found :: ·) := by
    rw [DirectoryTree.walk, spelled, Option.bind_some]
  refine ⟨fun closed => faults (mt walk_opens.mpr closed), fun open_walk names same => ?_,
    fun open_walk missing => ?_⟩
  · obtain ⟨rest, later, both⟩ := Option.map_eq_some_iff.mp (walked.symm.trans same)
    have whole := finds (walk_opens.mp open_walk) rest later
    rw [List.append_assoc] at whole
    rw [← both]
    exact whole
  · exact misses (walk_opens.mp open_walk) (Option.map_eq_none_iff.mp (walked.symm.trans missing))

/-- A name that is found in no spelling is missing, whatever is behind it. -/
theorem LocateDoes.missing
    (opens : (tree.into (tree.resolve (some tree.root) front) name).isSome ∨
      ((tree.resolve (some tree.root) front).bind tree.listing).isSome)
    (unspelled : tree.spelling (tree.resolve (some tree.root) front) name = none)
    {code : Int} {text : Name} (failed : code ≠ 0) :
    LocateDoes tree front (name :: more) (some (code, text)) := by
  have walk_opens : tree.WalkOpens (tree.resolve (some tree.root) front) (name :: more) := by
    refine ⟨opens, fun other spelled => ?_⟩
    cases unspelled.symm.trans spelled
  have walked : tree.walk (tree.resolve (some tree.root) front) (name :: more) = none := by
    rw [DirectoryTree.walk, unspelled, Option.bind_none]
  refine ⟨fun closed => absurd walk_opens closed, fun _ names same => ?_,
    fun _ _ => ⟨code, text, rfl, failed⟩⟩
  cases walked.symm.trans same

/-- A directory that does not open is a fault, whatever is behind it. -/
theorem LocateDoes.closed
    (closed : ¬ ((tree.into (tree.resolve (some tree.root) front) name).isSome ∨
      ((tree.resolve (some tree.root) front).bind tree.listing).isSome)) :
    LocateDoes tree front (name :: more) none :=
  ⟨fun _ => rfl, fun both => absurd both.1 closed, fun both => absurd both.1 closed⟩

/-- Looking for an entry of a directory below the root finds its spelling. -/
theorem locate_cases (present : front ≠ [])
    (proper : ∀ other ∈ front ++ [name], other ≠ [] ∧ '/' ∉ other) :
    let dir := tree.resolve (some tree.root) front
    let opens := (tree.into dir name).isSome ∨ (dir.bind tree.listing).isSome
    (∃ found, opens ∧ tree.spelling dir name = some found ∧ (found ≠ [] ∧ '/' ∉ found) ∧
        locateOneElement tree.files (pathOf (front ++ [name])) =
          some (true, pathOf (front ++ [found]))) ∨
      (opens ∧ tree.spelling dir name = none ∧
        locateOneElement tree.files (pathOf (front ++ [name])) =
          some (false, pathOf (front ++ [name]))) ∨
      (¬ opens ∧ locateOneElement tree.files (pathOf (front ++ [name])) = none) := by
  dsimp only
  have name_proper := proper name (by simp)
  rw [locate_below tree present proper]
  by_cases there : (tree.into (tree.resolve (some tree.root) front) name).isSome
  · refine .inl ⟨name, .inl there, if_pos there, name_proper, if_pos there⟩
  cases listed : (tree.resolve (some tree.root) front).bind tree.listing with
  | none =>
    refine .inr (.inr ⟨?_, by rw [if_neg there]; rfl⟩)
    simp [there]
  | some entries =>
    have spelled : tree.spelling (tree.resolve (some tree.root) front) name =
        entries.find? (strcasecmp · name) := by
      rw [DirectoryTree.spelling, if_neg there, listed, Option.bind_some]
    rw [spelled, if_neg there, Option.map_some]
    cases found : entries.find? (strcasecmp · name) with
    | none => exact .inr (.inl ⟨.inr rfl, rfl, rfl⟩)
    | some entry =>
      -- An entry in another case has as many letters, and none of them is a separator.
      have same : entry.map Char.toLower = name.map Char.toLower := by
        simpa [strcasecmp] using List.find?_some found
      have nonempty : entry ≠ [] := by
        intro empty
        rw [empty] at same
        exact name_proper.1 (List.map_eq_nil_iff.mp same.symm)
      obtain ⟨node, _, node_listed⟩ := Option.bind_eq_some_iff.mp listed
      have inside := tree.proper node entries node_listed entry (List.mem_of_find?_eq_some found)
      exact .inl ⟨entry, .inr rfl, rfl, ⟨nonempty, inside⟩, rfl⟩

/-- Looking for names below the root does what the walk does. -/
theorem locateFrom_does (rest : List Name) (present : front ≠ [])
    (proper : ∀ other ∈ front ++ [name], other ≠ [] ∧ '/' ∉ other)
    (rest_proper : ∀ other ∈ rest, other ≠ [] ∧ '/' ∉ other) :
    LocateDoes tree front (name :: rest)
      (locateFrom tree.files (pathOf (front ++ [name])) rest) := by
  induction rest generalizing front name with
  | nil =>
    rw [locateFrom]
    rcases locate_cases tree present proper with
      ⟨found, opens, spelled, _, located⟩ | ⟨opens, unspelled, located⟩ | ⟨closed, located⟩
    · rw [located]
      apply LocateDoes.step tree opens spelled
      refine ⟨fun closed => absurd trivial closed, fun _ names same => ?_, fun _ missing => ?_⟩
      · cases same
        rw [List.append_nil]
        rfl
      · cases missing
    · rw [located]
      exact LocateDoes.missing tree opens unspelled (by decide)
    · rw [located]
      exact LocateDoes.closed tree closed
  | cons next rest ih =>
    rw [locateFrom]
    rcases locate_cases tree present proper with
      ⟨found, opens, spelled, found_proper, located⟩ | ⟨opens, unspelled, located⟩ |
        ⟨closed, located⟩
    · -- The walk goes on in the directory that was found.
      have longer : front ++ [found] ≠ [] := by simp
      have next_proper : ∀ other ∈ front ++ [found] ++ [next], other ≠ [] ∧ '/' ∉ other := by
        intro other member
        rcases List.mem_append.mp member with early | last
        · rcases List.mem_append.mp early with first | same
          · exact proper other (List.mem_append_left _ first)
          · exact List.mem_singleton.mp same ▸ found_proper
        · exact List.mem_singleton.mp last ▸ rest_proper next List.mem_cons_self
      have does := ih longer next_proper
        (fun other member => rest_proper other (List.mem_cons_of_mem _ member))
      rw [pathOf_concat longer] at does
      rw [located]
      exact LocateDoes.step tree opens spelled does
    · rw [located]
      exact LocateDoes.missing tree opens unspelled (by decide)
    · rw [located]
      exact LocateDoes.closed tree closed

/-- A search does what it has to exactly if its answer is the one of the walk. -/
theorem locatesRight_iff_answer {names : List Name} (clean : nul ∉ pathOf names) (tail : Name) :
    LocatesRight tree names tail ↔
      match tree.walk (some tree.root) names with
      | some found => locatePathCode tree.files (pathOf names) = some (0, pathOf found)
      | none => ∃ code text, locatePathCode tree.files (pathOf names) = some (code, text) ∧
          code ≠ 0 := by
  have letters {code : Int} {text : Name}
      (answer : locatePathCode tree.files (pathOf names) = some (code, text)) :
      text.map Char.toLower = (pathOf names).map Char.toLower := by
    apply @locatePath_letters tree.files
    rw [← locatePathCode_text, answer]
    rfl
  unfold LocatesRight
  rw [locatePathBuffer_eq tree.files clean]
  cases walked : tree.walk (some tree.root) names with
  | some found =>
    constructor
    · intro right
      obtain ⟨⟨code, text⟩, answer, same⟩ := Option.map_eq_some_iff.mp right.1
      -- What stands behind the path is the same on both sides.
      obtain ⟨same_code, same_text⟩ := Prod.mk.inj same
      have text_eq := List.append_cancel_right same_text
      rw [answer, same_code, text_eq]
    · intro answer
      have same := letters answer
      refine ⟨by rw [answer]; rfl, DirectoryTree.leads_of_walk walked, same, ?_⟩
      simpa using congrArg List.length same
  | none =>
    constructor
    · intro right
      obtain ⟨code, text, same, failed, _⟩ := right
      obtain ⟨⟨other, rest⟩, answer, both⟩ := Option.map_eq_some_iff.mp same
      refine ⟨other, rest, answer, ?_⟩
      rw [(Prod.mk.inj both).1]
      exact failed
    · intro right
      obtain ⟨code, text, answer, failed⟩ := right
      refine ⟨code, text, by rw [answer]; rfl, failed, ?_⟩
      simpa using congrArg List.length (letters answer)

/-- An entry of the root that is not there in its own case is not found. -/
theorem locateFrom_root {first : Name} (proper : first ≠ [] ∧ '/' ∉ first)
    (missing : ¬ (tree.entry tree.root first).isSome) (rest : List Name) :
    ((tree.listing tree.root).isSome →
      ∃ code text, locateFrom tree.files (pathOf [first]) rest = some (code, text) ∧ code ≠ 0) ∧
    (¬ (tree.listing tree.root).isSome →
      locateFrom tree.files (pathOf [first]) rest = none) := by
  have single : ∀ other ∈ [first], other ≠ [] ∧ '/' ∉ other := by
    intro other member
    exact List.mem_singleton.mp member ▸ proper
  have front : frontOfElement (pathOf [first]) = ['/'] := by
    have path : pathOf [first] = [] ++ '/' :: first := by simp [pathOf]
    rw [path, frontOfElement_append proper.2, List.nil_append]
  have directory : elementDirectory (pathOf [first]) = ['/'] := by
    rw [elementDirectory, front]
    rfl
  have sought : soughtElement (pathOf [first]) = '/' :: first := by
    rw [soughtElement, if_pos front]
    simp [pathOf]
  have absent : tree.files.accessible (pathOf [first]) = false := by
    rw [accessible_pathOf tree single]
    exact Bool.eq_false_iff.mpr missing
  have root_listed : tree.files.listing ['/'] = tree.listing tree.root := rfl
  have located : locateOneElement tree.files (pathOf [first]) =
      (tree.listing tree.root).map fun _ => (false, pathOf [first]) := by
    rw [locateOneElement, absent, directory, sought, root_listed]
    simp only [Bool.false_eq_true, if_false]
    cases listed : tree.listing tree.root with
    | none => rfl
    | some entries =>
      -- The separator in front is in none of the entries.
      have unfound : entries.find? (strcasecmp · ('/' :: first)) = none := by
        rw [List.find?_eq_none]
        intro entry member matched
        apply tree.proper tree.root entries listed entry member
        have same : entry.map Char.toLower = ('/' :: first).map Char.toLower := by
          simpa [strcasecmp] using matched
        exact (mem_iff_of_letters (by decide) (by decide) same).mpr List.mem_cons_self
      simp [unfound]
  cases listed : tree.listing tree.root with
  | none =>
    rw [listed, Option.map_none] at located
    refine ⟨fun opens => absurd opens (by simp), fun _ => ?_⟩
    cases rest with
    | nil => rw [locateFrom, located]; rfl
    | cons next rest => rw [locateFrom, located]
  | some entries =>
    rw [listed, Option.map_some] at located
    refine ⟨fun _ => ?_, fun closed => absurd rfl closed⟩
    cases rest with
    | nil => exact ⟨-1, pathOf [first], by rw [locateFrom, located]; rfl, by decide⟩
    | cons next rest => exact ⟨-2, _, by rw [locateFrom, located], by decide⟩

/--
For every tree and every path from the root on, the search does what the walk over its names says
exactly if the path is there in its own case, or is looked for behind an entry of the root that is
there in its own case with every directory on the walk open, or is not found by the walk either.
-/
theorem locate_path_right_iff {names : List Name}
    (proper : ∀ name ∈ names, name ≠ [] ∧ '/' ∉ name ∧ nul ∉ name) (tail : Name) :
    LocatesRight tree names tail ↔ Locatable tree names := by
  have plain : ∀ name ∈ names, name ≠ [] ∧ '/' ∉ name :=
    fun name member => ⟨(proper name member).1, (proper name member).2.1⟩
  have clean : nul ∉ pathOf names := by
    rw [mem_iff_names (show nul ≠ '/' by decide), names_pathOf plain]
    intro inside
    obtain ⟨name, member, letter⟩ := inside
    exact (proper name member).2.2 letter
  rw [locatesRight_iff_answer tree clean]
  by_cases here : (tree.resolve (some tree.root) names).isSome
  · -- A path that is there in its own case is left as it is.
    refine iff_of_true ?_ (.inl here)
    rw [DirectoryTree.walk_of_resolve here]
    have accessible := accessible_pathOf tree plain
    rw [here] at accessible
    exact if_pos accessible
  cases names with
  | nil => exact absurd rfl here
  | cons first rest =>
    have first_proper := plain first List.mem_cons_self
    have pieces : (['/'].intercalate (first :: rest)).splitOn '/' = first :: rest :=
      List.splitOn_intercalate '/' (fun name member => (plain name member).2)
        (List.cons_ne_nil _ _)
    have code : locatePathCode tree.files (pathOf (first :: rest)) =
        locateFrom tree.files (pathOf [first]) rest := by
      have absent : ¬ tree.files.accessible (pathOf (first :: rest)) = true := by
        rw [accessible_pathOf tree plain]
        exact here
      have single : pathOf [first] = '/' :: first := by simp [pathOf]
      unfold locatePathCode
      rw [if_neg absent, pathOf, single]
      simp only [pieces]
    rw [code, Locatable, or_iff_right here]
    by_cases there : (tree.entry tree.root first).isSome
    · -- The first name is there in its own case, and the rest is looked for below the root.
      rw [if_pos there]
      cases rest with
      | nil => exact absurd there here
      | cons next more =>
        have single : ∀ other ∈ [first], other ≠ [] ∧ '/' ∉ other := by
          intro other member
          exact List.mem_singleton.mp member ▸ first_proper
        have present : tree.files.accessible (pathOf [first]) = true := by
          rw [accessible_pathOf tree single]
          exact there
        have below : locateFrom tree.files (pathOf [first]) (next :: more) =
            locateFrom tree.files (pathOf ([first] ++ [next])) more := by
          rw [locateFrom, locateOneElement, if_pos present, pathOf_concat (List.cons_ne_nil _ _)]
        have both : ∀ other ∈ [first] ++ [next], other ≠ [] ∧ '/' ∉ other :=
          fun other member => plain other (List.mem_append_left more member)
        have does := locateFrom_does tree more (List.cons_ne_nil first []) both
          (fun other member => plain other (List.mem_cons_of_mem _ (List.mem_cons_of_mem _ member)))
        have start : tree.resolve (some tree.root) [first] = tree.entry tree.root first := rfl
        have walked : tree.walk (some tree.root) (first :: next :: more) =
            (tree.walk (tree.entry tree.root first) (next :: more)).map (first :: ·) := by
          have entered : tree.into (some tree.root) first = tree.entry tree.root first := rfl
          rw [DirectoryTree.walk, DirectoryTree.spelling, entered, if_pos there, Option.bind_some,
            entered]
        obtain ⟨faults, finds, misses⟩ := does
        rw [start] at faults finds misses
        rw [below, walked]
        by_cases opens : tree.WalkOpens (tree.entry tree.root first) (next :: more)
        · refine iff_of_true ?_ opens
          cases found : tree.walk (tree.entry tree.root first) (next :: more) with
          | some names => exact finds opens names found
          | none => exact misses opens found
        · -- A directory that does not open is a fault, whatever the walk says.
          refine iff_of_false ?_ opens
          rw [faults opens]
          cases tree.walk (tree.entry tree.root first) (next :: more) with
          | some names => simp
          | none => simp
    · rw [if_neg there]
      obtain ⟨opens, closed⟩ := locateFrom_root tree first_proper there rest
      by_cases listed : (tree.listing tree.root).isSome
      · obtain ⟨code, text, answer, failed⟩ := opens listed
        rw [answer]
        cases tree.walk (some tree.root) (first :: rest) with
        | some found => simp [failed]
        | none => simp [listed, failed]
      · rw [closed listed]
        cases tree.walk (some tree.root) (first :: rest) with
        | some found => simp
        | none => simp [listed]

end Locating

/-- A tree with one directory, and one file in it. -/
def smallTree : DirectoryTree Bool where
  root := false
  cwd := false
  entry node name := if node = false ∧ name = "os2".toList then some true else none
  listing node := if node = false then some ["os2".toList] else none
  proper node entries listed name member := by
    split at listed
    · cases listed
      rw [List.mem_singleton.mp member]
      decide
    · cases listed

/-- A file is found in its own case, with whatever stands behind the path. -/
theorem own_case_located :
    LocatesRight smallTree ["os2".toList] "more".toList ↔ Locatable smallTree ["os2".toList] :=
  locate_path_right_iff smallTree (by decide) _

/-- An entry of the root in another case is not found, though the walk finds it. -/
theorem root_entry_missed :
    smallTree.walk (some false) ["OS2".toList] = some ["os2".toList] ∧
      locatePathBuffer smallTree.files (pathOf ["OS2".toList] ++ [nul]) =
        some (-1, pathOf ["OS2".toList] ++ [nul]) ∧
      ¬ LocatesRight smallTree ["OS2".toList] [] := by
  have answer : locatePathBuffer smallTree.files (pathOf ["OS2".toList] ++ [nul]) =
      some (-1, pathOf ["OS2".toList] ++ [nul]) := by decide
  refine ⟨rfl, answer, ?_⟩
  intro right
  have found := right.1.symm.trans answer
  revert found
  decide

end TwoIne
