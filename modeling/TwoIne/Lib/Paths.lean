import Mathlib.Data.List.Basic

/-! Paths as texts with separators, and the directories that they lead to. -/

namespace Paths

variable {α : Type*} [DecidableEq α]

/-- The names in a path; separators stand between them, in front of them and behind them. -/
def names (sep : α) (path : List α) : List (List α) := (path.splitOn sep).filter (· ≠ [])

/-- Leaving only one of the separators that follow each other. -/
def squeeze (sep : α) : List α → List α
  | [] => []
  | letter :: rest =>
    if letter = sep ∧ rest.head? = some sep then squeeze sep rest else letter :: squeeze sep rest

/-- Leaving out the separator in front. -/
def trimFirst (sep : α) (path : List α) : List α :=
  if path.head? = some sep then path.tail else path

/-- Going on by one name, where one name stays in a directory and another leaves it. -/
def enter (here up : List α) (dir : List (List α)) (name : List α) : List (List α) :=
  if name = here then dir else if name = up then dir.dropLast else dir ++ [name]

/-- Going on by names one after the other. -/
def follow (here up : List α) (dir : List (List α)) (path : List (List α)) : List (List α) :=
  path.foldl (enter here up) dir

/-- Names that stand behind each other, with a separator behind each of them. -/
def closed (sep : α) (dir : List (List α)) : List α := dir.flatMap (· ++ [sep])

variable {sep letter : α} {path rest name : List α}

@[simp] theorem names_nil : names sep ([] : List α) = [] := rfl

/-- A separator between two paths belongs to no name. -/
theorem names_append_sep : names sep (path ++ sep :: rest) = names sep path ++ names sep rest := by
  rw [names, List.splitOn_append_cons_self, List.filter_append]
  rfl

/-- A separator in front belongs to no name. -/
@[simp] theorem names_cons_sep : names sep (sep :: rest) = names sep rest := by
  have split : names sep ([] ++ sep :: rest) = names sep [] ++ names sep rest := names_append_sep
  simpa using split

/-- A path is empty, starts with a separator, is a name, or starts with a name. -/
@[elab_as_elim] theorem path_induction {motive : List α → Prop} (sep : α) (nil : motive [])
    (skip : ∀ rest, motive rest → motive (sep :: rest))
    (last : ∀ name, name ≠ [] → sep ∉ name → motive name)
    (next : ∀ name rest, name ≠ [] → sep ∉ name → motive rest → motive (name ++ sep :: rest))
    (path : List α) : motive path := by
  -- What is left behind the first separator is shorter.
  induction measure : path.length using Nat.strongRecOn generalizing path with
  | ind length ih =>
    subst measure
    by_cases separator : sep ∈ path
    · obtain ⟨name, rest, split, inside⟩ := List.eq_append_cons_of_mem separator
      have shorter : rest.length < path.length := by
        rw [split, List.length_append, List.length_cons]
        omega
      rw [split]
      by_cases empty : name = []
      · rw [empty]
        exact skip rest (ih rest.length shorter rest rfl)
      · exact next name rest empty inside (ih rest.length shorter rest rfl)
    · by_cases empty : path = []
      · exact empty ▸ nil
      · exact last path empty separator

/-- The name that a path without separators is. -/
theorem names_last (present : name ≠ []) (inside : sep ∉ name) : names sep name = [name] := by
  simp [names, List.splitOn_eq_singleton inside, present]

/-- The name that a path starts with. -/
theorem names_next (present : name ≠ []) (inside : sep ∉ name) :
    names sep (name ++ sep :: rest) = name :: names sep rest := by
  rw [names_append_sep, names_last present inside]
  rfl

/-- The separator in front is left out. -/
@[simp] theorem trimFirst_cons (rest : List α) : trimFirst sep (sep :: rest) = rest := by
  simp [trimFirst]

/-- Leaving out the separator in front does not change the names. -/
@[simp] theorem names_trimFirst (path : List α) :
    names sep (trimFirst sep path) = names sep path := by
  rw [trimFirst]
  split
  · next starts =>
    obtain ⟨rest, split⟩ := List.head?_eq_some_iff.mp starts
    rw [split, List.tail_cons, names_cons_sep]
  · rfl

/-- No name is empty, and none contains a separator. -/
theorem mem_names (member : name ∈ names sep path) : name ≠ [] ∧ sep ∉ name := by
  induction path using path_induction sep with
  | nil => simp at member
  | skip rest ih => exact ih (by simpa using member)
  | last word present inside =>
    rw [names_last present inside, List.mem_singleton] at member
    exact member ▸ ⟨present, inside⟩
  | next word rest present inside ih =>
    rw [names_next present inside] at member
    rcases List.mem_cons.mp member with rfl | later
    · exact ⟨present, inside⟩
    · exact ih later

/-- Leaving out separators does not change how a path starts. -/
@[simp] theorem head_squeeze (path : List α) : (squeeze sep path).head? = path.head? := by
  induction path with
  | nil => rfl
  | cons letter rest ih =>
    rw [squeeze]
    split
    · next both => rw [ih, both.2, both.1, List.head?_cons]
    · rfl

/-- What is left of a separator and a path behind it. -/
theorem squeeze_skip (rest : List α) :
    squeeze sep (sep :: rest) = sep :: trimFirst sep (squeeze sep rest) := by
  rw [squeeze, trimFirst, head_squeeze]
  by_cases starts : rest.head? = some sep
  · -- The separator is left out, and the next one stays for it.
    obtain ⟨later, split⟩ : ∃ later, squeeze sep rest = sep :: later :=
      List.head?_eq_some_iff.mp (by rw [head_squeeze, starts])
    simp [starts, split]
  · simp [starts]

/-- Nothing is left out of a name. -/
theorem squeeze_name (inside : sep ∉ name) (rest : List α) :
    squeeze sep (name ++ rest) = name ++ squeeze sep rest := by
  induction name with
  | nil => rfl
  | cons letter name ih =>
    rw [List.mem_cons, not_or] at inside
    obtain ⟨other, tail⟩ := inside
    rw [List.cons_append, squeeze, if_neg (fun both => other both.1.symm), ih tail,
      List.cons_append]

/-- A path that starts with a name has no separator in front. -/
theorem trimFirst_name (present : name ≠ []) (inside : sep ∉ name) (rest : List α) :
    trimFirst sep (name ++ rest) = name ++ rest := by
  obtain ⟨letter, name, rfl⟩ := List.exists_cons_of_ne_nil present
  rw [List.mem_cons, not_or] at inside
  simp [trimFirst, Ne.symm inside.1]

/-- Separators that follow each other are left out between the names of a path, and in front. -/
theorem trimFirst_squeeze (sep : α) (path : List α) :
    ∃ back, (back = [] ∨ back = [sep] ∧ names sep path ≠ []) ∧
      trimFirst sep (squeeze sep path) = [sep].intercalate (names sep path) ++ back := by
  induction path using path_induction sep with
  | nil => exact ⟨[], .inl rfl, rfl⟩
  | skip rest ih =>
    -- The separator in front is left out.
    rw [squeeze_skip, names_cons_sep, trimFirst_cons]
    exact ih
  | last name present inside =>
    have squeezed := squeeze_name inside []
    rw [List.append_nil] at squeezed
    refine ⟨[], .inl rfl, ?_⟩
    rw [squeezed, trimFirst_name present inside, names_last present inside]
    simp [squeeze]
  | next name rest present inside ih =>
    obtain ⟨back, shape, trimmed⟩ := ih
    rw [squeeze_name inside, trimFirst_name present inside, squeeze_skip, trimmed,
      names_next present inside]
    by_cases done : names sep rest = []
    · -- The separator is the last one, and nothing else is left behind the name.
      have nothing : back = [] := by
        rcases shape with nothing | ⟨_, more⟩
        · exact nothing
        · exact absurd done more
      exact ⟨[sep], .inr ⟨rfl, by simp⟩, by simp [done, nothing]⟩
    · refine ⟨back, shape.imp_right fun last => ⟨last.1, by simp⟩, ?_⟩
      rw [List.intercalate_cons_of_ne_nil done]
      simp

omit [DecidableEq α] in
/-- A path that is put together from names ends with the last of them. -/
theorem intercalate_concat (sep : α) (dir : List (List α)) (name : List α) :
    ∃ front, [sep].intercalate (dir ++ [name]) = front ++ name := by
  induction dir with
  | nil => exact ⟨[], by simp⟩
  | cons first dir ih =>
    obtain ⟨front, joined⟩ := ih
    refine ⟨first ++ sep :: front, ?_⟩
    rw [List.cons_append, List.intercalate_cons_of_ne_nil (by simp), joined]
    simp

/-- Leaving out separators does not change how a path ends. -/
theorem getLast_squeeze (sep : α) (path : List α) : (squeeze sep path).getLast? = path.getLast? := by
  induction path with
  | nil => rfl
  | cons letter rest ih =>
    rw [squeeze]
    split
    · next both =>
      rw [ih, List.getLast?_cons]
      cases rest with
      | nil => cases both.2
      | cons next rest => simp [List.getLast?_cons]
    · rw [List.getLast?_cons, ih, List.getLast?_cons]

/-- A path is left with nothing behind its last separator exactly if it ends with one. -/
theorem trimFirst_squeeze_ends (sep : α) (path : List α) :
    trimFirst sep (squeeze sep path) = [] ∨ (trimFirst sep (squeeze sep path)).getLast? = some sep ↔
      path = [] ∨ path.getLast? = some sep := by
  have ends := getLast_squeeze sep path
  have starts := @head_squeeze _ _ sep path
  rw [trimFirst]
  cases squeezed : squeeze sep path with
  | nil =>
    rw [squeezed] at starts
    have empty : path = [] := List.head?_eq_none_iff.mp starts.symm
    simp [empty]
  | cons letter rest =>
    rw [squeezed] at ends starts
    have some_letter : path ≠ [] := by
      rintro rfl
      cases starts
    simp only [List.head?_cons, Option.some.injEq, some_letter, false_or, ← ends]
    by_cases first : letter = sep
    · cases rest with
      | nil => simp [first]
      | cons next rest => simp [first, List.getLast?_cons]
    · simp [first]

/-- What is left without separators that follow each other, and without one in front. -/
theorem trimFirst_squeeze_sublist (sep : α) (path : List α) :
    (trimFirst sep (squeeze sep path)).Sublist path := by
  have squeezed : (squeeze sep path).Sublist path := by
    induction path with
    | nil => exact List.Sublist.refl _
    | cons letter rest ih =>
      rw [squeeze]
      split
      · exact ih.cons letter
      · exact ih.cons_cons letter
  rw [trimFirst]
  split
  · exact (List.tail_sublist _).trans squeezed
  · exact squeezed

/-- No piece of a path contains a separator, and there is one more of them than separators. -/
theorem splitOn_pieces (sep : α) (path : List α) :
    (∀ piece ∈ path.splitOn sep, sep ∉ piece) ∧
      (path.splitOn sep).length = path.count sep + 1 := by
  induction path using path_induction sep with
  | nil => simp
  | skip rest ih =>
    have split := List.splitOn_append_cons_self_of_not_mem (List.not_mem_nil (a := sep)) rest
    rw [List.nil_append] at split
    rw [split]
    simpa using ih
  | last name present inside =>
    rw [List.splitOn_eq_singleton inside, List.count_eq_zero_of_not_mem inside]
    simpa using inside
  | next name rest present inside ih =>
    rw [List.splitOn_append_cons_self_of_not_mem inside, List.count_append,
      List.count_eq_zero_of_not_mem inside]
    simpa [inside] using ih

/-- The pieces of a path without double separators: its names, and what is behind the last. -/
theorem splitOn_squeezed (sep : α) (path : List α) :
    ∃ front last, (trimFirst sep (squeeze sep path)).splitOn sep = front ++ [last] ∧
      names sep path = front ++ (if last = [] then [] else [last]) ∧
      (last = [] ↔ path = [] ∨ path.getLast? = some sep) := by
  have ends := trimFirst_squeeze_ends sep path
  obtain ⟨back, shape, trimmed⟩ := trimFirst_squeeze sep path
  have proper : ∀ name ∈ names sep path, sep ∉ name := fun name member => (mem_names member).2
  rw [trimmed] at ends ⊢
  rw [← ends]
  rcases shape with rfl | ⟨rfl, more⟩
  · by_cases empty : names sep path = []
    · exact ⟨[], [], by simp [empty], by simp [empty], by simp [empty]⟩
    · -- The last piece is the last name.
      obtain ⟨present, inside⟩ := mem_names (List.getLast_mem empty)
      refine ⟨(names sep path).dropLast, (names sep path).getLast empty, ?_, ?_, ?_⟩
      · rw [List.append_nil, List.splitOn_intercalate sep proper empty,
          List.dropLast_append_getLast]
      · rw [if_neg present, List.dropLast_append_getLast]
      · refine iff_of_false present ?_
        rw [List.append_nil, ← List.dropLast_append_getLast empty]
        obtain ⟨front, joined⟩ := intercalate_concat sep (names sep path).dropLast
          ((names sep path).getLast empty)
        rw [joined, List.getLast?_append_of_ne_nil _ present, List.append_eq_nil_iff]
        rw [not_or]
        refine ⟨fun both => present both.2, fun last => inside ?_⟩
        exact List.mem_of_getLast? last
  · -- Behind the last separator is nothing.
    refine ⟨names sep path, [], ?_, by simp, by simp⟩
    rw [List.splitOn_append_cons_self, List.splitOn_intercalate sep proper more]
    rfl

/-- The names of a path that is put together from names. -/
theorem names_intercalate {dir : List (List α)} (proper : ∀ name ∈ dir, name ≠ [] ∧ sep ∉ name) :
    names sep ([sep].intercalate dir) = dir := by
  by_cases empty : dir = []
  · simp [empty]
  · rw [names, List.splitOn_intercalate sep (fun name member => (proper name member).2) empty]
    exact List.filter_eq_self.mpr fun name member => by simpa using (proper name member).1

/-- A path that is put together from names has no separator in front. -/
theorem trimFirst_intercalate {dir : List (List α)}
    (proper : ∀ name ∈ dir, name ≠ [] ∧ sep ∉ name) :
    trimFirst sep ([sep].intercalate dir) = [sep].intercalate dir := by
  cases dir with
  | nil => rfl
  | cons name dir =>
    obtain ⟨present, inside⟩ := proper name List.mem_cons_self
    by_cases alone : dir = []
    · have first := trimFirst_name present inside []
      simpa [alone] using first
    · rw [List.intercalate_cons_of_ne_nil alone, List.append_assoc]
      exact trimFirst_name present inside _

/-- A path that is put together from names has no double separators. -/
theorem squeeze_intercalate {dir : List (List α)}
    (proper : ∀ name ∈ dir, name ≠ [] ∧ sep ∉ name) :
    squeeze sep ([sep].intercalate dir) = [sep].intercalate dir := by
  induction dir with
  | nil => rfl
  | cons name dir ih =>
    obtain ⟨present, inside⟩ := proper name List.mem_cons_self
    have later : ∀ name ∈ dir, name ≠ [] ∧ sep ∉ name := fun name member =>
      proper name (List.mem_cons_of_mem _ member)
    by_cases alone : dir = []
    · have first := squeeze_name inside []
      simpa [alone, squeeze] using first
    · rw [List.intercalate_cons_of_ne_nil alone, List.append_assoc, List.singleton_append,
        squeeze_name inside, squeeze_skip, ih later, trimFirst_intercalate later]

/-- A separator in front of one that a path starts with is left out. -/
theorem squeeze_root (rest : List α) (starts : rest.head? = some sep) :
    squeeze sep (sep :: rest) = squeeze sep rest := by
  rw [squeeze, if_pos ⟨rfl, starts⟩]

omit [DecidableEq α] in
/-- What the first name of a path starts with is what the path starts with. -/
theorem intercalate_front (front name : List α) (more : List (List α)) :
    [sep].intercalate ((front ++ name) :: more) = front ++ [sep].intercalate (name :: more) := by
  cases more with
  | nil => simp
  | cons next more => simp [List.intercalate_cons_cons]

omit [DecidableEq α] in
/-- A path that is put together from two lots of names. -/
theorem intercalate_append {front back : List (List α)} (first : front ≠ []) (second : back ≠ []) :
    [sep].intercalate (front ++ back) =
      [sep].intercalate front ++ sep :: [sep].intercalate back := by
  induction front with
  | nil => exact absurd rfl first
  | cons name front ih =>
    by_cases alone : front = []
    · simp [alone, List.intercalate_cons_of_ne_nil second]
    · rw [List.cons_append, List.intercalate_cons_of_ne_nil (by simp [alone]), ih alone,
        List.intercalate_cons_of_ne_nil alone]
      simp

/-- What is left out behind a path does not depend on what the path is. -/
theorem squeeze_append {first second : List α} (front : List α)
    (same : squeeze sep first = squeeze sep second) :
    squeeze sep (front ++ first) = squeeze sep (front ++ second) := by
  -- Texts that are left as the same one start with the same letter.
  have heads : first.head? = second.head? := by
    rw [← head_squeeze first, same, head_squeeze]
  induction front with
  | nil => exact same
  | cons letter front ih =>
    have next : (front ++ first).head? = (front ++ second).head? := by
      rw [List.head?_append, List.head?_append, heads]
    rw [List.cons_append, List.cons_append, squeeze, squeeze, ih, next]

/-- No separator follows another one any more. -/
theorem squeeze_single (path : List α) : ¬ [sep, sep] <:+: squeeze sep path := by
  induction path with
  | nil => simp [squeeze]
  | cons letter rest ih =>
    rw [squeeze]
    split
    · exact ih
    · next single =>
      rw [List.infix_cons_iff, not_or]
      refine ⟨fun starts => single ?_, ih⟩
      obtain ⟨tail, both⟩ := starts
      simp only [List.cons_append, List.nil_append, List.cons.injEq] at both
      refine ⟨both.1.symm, ?_⟩
      rw [← head_squeeze rest, ← both.2]
      rfl

/-- Leaving out separators does not change the names. -/
theorem names_squeeze (path : List α) : names sep (squeeze sep path) = names sep path := by
  induction path using path_induction sep with
  | nil => rfl
  | skip rest ih => rw [squeeze_skip, names_cons_sep, names_cons_sep, names_trimFirst, ih]
  | last name present inside =>
    have squeezed := squeeze_name inside []
    rw [List.append_nil] at squeezed
    rw [squeezed]
    simp [squeeze]
  | next name rest present inside ih =>
    rw [squeeze_name inside, squeeze_skip, names_next present inside, names_next present inside,
      names_trimFirst, ih]

/-- The letters that are no separators are those of the names. -/
theorem mem_iff_names (other : letter ≠ sep) (path : List α) :
    letter ∈ path ↔ ∃ name ∈ names sep path, letter ∈ name := by
  induction path using path_induction sep with
  | nil => simp
  | skip rest ih => simp [other, ih]
  | last name present inside => simp [names_last present inside]
  | next name rest present inside ih => simp [names_next present inside, other, ih]

/-- The letters that are no separators are all kept. -/
theorem mem_squeeze (other : letter ≠ sep) (path : List α) :
    letter ∈ squeeze sep path ↔ letter ∈ path := by
  rw [mem_iff_names other, mem_iff_names other, names_squeeze]

section Directories

variable {here up : List α} {dir more : List (List α)}

omit [DecidableEq α] in
@[simp] theorem closed_nil : closed sep ([] : List (List α)) = [] := rfl

omit [DecidableEq α] in
/-- The last name of several. -/
theorem closed_append : closed sep (dir ++ [name]) = closed sep dir ++ name ++ [sep] := by
  simp [closed]

/-- The names in a path that starts with names. -/
theorem names_closed (proper : ∀ name ∈ dir, name ≠ [] ∧ sep ∉ name) (rest : List α) :
    names sep (closed sep dir ++ rest) = dir ++ names sep rest := by
  induction dir with
  | nil => rfl
  | cons name dir ih =>
    obtain ⟨present, inside⟩ := proper name List.mem_cons_self
    have later := ih fun name member => proper name (List.mem_cons_of_mem _ member)
    have split : closed sep (name :: dir) ++ rest = name ++ sep :: (closed sep dir ++ rest) := by
      simp [closed]
    rw [split, names_next present inside, later, List.cons_append]

omit [DecidableEq α] in
/-- Names that stand behind each other end with a separator. -/
theorem closed_split (sep : α) (present : dir ≠ []) :
    closed sep dir = closed sep dir.dropLast ++ dir.getLast present ++ [sep] := by
  rw [← closed_append, List.dropLast_append_getLast]

omit [DecidableEq α] in
/-- Names that stand behind each other are put together, with a separator behind the last. -/
theorem closed_eq_intercalate (present : dir ≠ []) :
    closed sep dir = [sep].intercalate dir ++ [sep] := by
  induction dir with
  | nil => exact absurd rfl present
  | cons name dir ih =>
    by_cases alone : dir = []
    · simp [alone, closed]
    · rw [List.intercalate_cons_of_ne_nil alone, closed, List.flatMap_cons]
      rw [closed] at ih
      rw [ih alone]
      simp

omit [DecidableEq α] in
/-- Without the last separator the names are put together. -/
theorem closed_dropLast (dir : List (List α)) :
    (closed sep dir).dropLast = [sep].intercalate dir := by
  by_cases empty : dir = []
  · simp [empty]
  · rw [closed_eq_intercalate empty, List.dropLast_concat]

omit [DecidableEq α] in
/-- A name behind others that stand behind each other. -/
theorem closed_name (dir : List (List α)) (name : List α) :
    closed sep dir ++ name = [sep].intercalate (dir ++ [name]) := by
  by_cases empty : dir = []
  · simp [empty]
  · rw [closed_eq_intercalate empty, intercalate_append empty (by simp)]
    simp

/-- Following a path of two parts. -/
theorem follow_append (first second : List (List α)) :
    follow here up dir (first ++ second) = follow here up (follow here up dir first) second :=
  List.foldl_append

/-- Following a path leads to names that neither stay nor leave. -/
theorem follow_plain (plain : ∀ name ∈ dir, name ≠ here ∧ name ≠ up) (path : List (List α)) :
    ∀ name ∈ follow here up dir path, name ≠ here ∧ name ≠ up := by
  induction path generalizing dir with
  | nil => exact plain
  | cons next path ih =>
    apply ih
    intro name member
    rw [enter] at member
    split_ifs at member with stays leaves
    · exact plain name member
    · exact plain name ((List.dropLast_sublist dir).subset member)
    · rcases List.mem_append.mp member with old | new
      · exact plain name old
      · exact List.mem_singleton.mp new ▸ ⟨stays, leaves⟩

/-- Names that neither stay nor leave are followed one by one. -/
theorem follow_of_plain (plain : ∀ name ∈ more, name ≠ here ∧ name ≠ up) :
    follow here up dir more = dir ++ more := by
  induction more generalizing dir with
  | nil => simp [follow]
  | cons name more ih =>
    obtain ⟨stays, leaves⟩ := plain name List.mem_cons_self
    have later : follow here up (dir ++ [name]) more = dir ++ [name] ++ more :=
      ih fun name member => plain name (List.mem_cons_of_mem _ member)
    simpa [follow, enter, stays, leaves] using later

/-- Following a path leads to names that are in the directory or in the path. -/
theorem mem_follow {path : List (List α)} (member : name ∈ follow here up dir path) :
    name ∈ dir ∨ name ∈ path := by
  induction path generalizing dir with
  | nil => exact .inl member
  | cons next path ih =>
    rcases ih member with entered | later
    · rw [enter] at entered
      split_ifs at entered
      · exact .inl entered
      · exact .inl ((List.dropLast_sublist dir).subset entered)
      · rcases List.mem_append.mp entered with old | new
        · exact .inl old
        · exact .inr (List.mem_singleton.mp new ▸ List.mem_cons_self)
    · exact .inr (List.mem_cons_of_mem _ later)

end Directories

end Paths
