import TwoIne.DosCalls.ExecBlocks

/-!
The environment of a new process holds all of the old one and names the program, unless the old one
is empty.
-/

namespace TwoIne

open CStrings PointerBlocks

/-- An environment, which has no string without bytes. -/
structure EnvStrings where
  strings : List CString
  filled : ∀ str ∈ strings, str.bytes ≠ []

/-- The bytes of the strings. -/
def EnvStrings.contents (env : EnvStrings) : List (List UInt8) := env.strings.map CString.bytes

/-- An environment as it stands in memory, with whatever is behind it. -/
def EnvStrings.memory (env : EnvStrings) (rest : List UInt8) : List UInt8 :=
  allStored env.contents ++ 0 :: rest

/-- The variable of the program. -/
def programVariable (exe : CString) : List UInt8 := subprocessVariable ++ exe.bytes

/-- The value of a variable. -/
def getenv (name : List UInt8) (strings : List (List UInt8)) : Option (List UInt8) :=
  (strings.find? fun str => (name ++ ascii "=").isPrefixOf str).map fun str =>
    str.drop (name.length + 1)

/-- The size of the memory that is asked for. -/
def envpSize (env : EnvStrings) (exe : CString) : Nat :=
  (allStored env.contents).length + env.strings.length * pointerSize + pointerSize +
    (exe.bytes.length + 16 + pointerSize)

/--
Whenever an environment is returned it has the strings of the old one in order, then the variable of
the program, which the new process finds, and nothing was written outside of its memory.
-/
def EnvpComplete (env : EnvStrings) (exe : CString) (rest : List UInt8) : Prop :=
  ∀ malloc, ∃ result, calcEnvp malloc (env.memory rest) exe.bytes = some result ∧
    ∀ block, result = .ok block →
      (∃ area places, block.Laid pointerSize area (env.contents ++ [programVariable exe]) places) ∧
        getenv (ascii "IS_2INE") (env.contents ++ [programVariable exe]) ≠ none

/-! The strings -/

/-- Counting goes on behind a string that another one follows. -/
theorem scanEnvp_string {bytes : List UInt8} (noNul : 0 ∉ bytes) {next : UInt8}
    (more : next ≠ 0) (rest : List UInt8) (len idx : Nat) :
    scanEnvp (stored bytes ++ next :: rest) len idx =
      scanEnvp (next :: rest) (len + bytes.length + pointerSize + 1) (idx + 1) := by
  induction bytes generalizing len with
  | nil =>
    show scanEnvp (0 :: next :: rest) len idx = _
    rw [scanEnvp]
    simp [more]
  | cons ch bytes ih =>
    simp only [List.mem_cons, not_or] at noNul
    show scanEnvp (ch :: (stored bytes ++ next :: rest)) len idx = _
    rw [scanEnvp, if_pos (Ne.symm noNul.1), ih noNul.2, List.length_cons]
    congr 1
    omega

/-- Counting ends behind the last string. -/
theorem scanEnvp_last {bytes : List UInt8} (noNul : 0 ∉ bytes) (rest : List UInt8) (len idx : Nat) :
    scanEnvp (stored bytes ++ 0 :: rest) len idx =
      some (len + bytes.length + pointerSize + 1, idx + 1) := by
  induction bytes generalizing len with
  | nil =>
    show scanEnvp (0 :: 0 :: rest) len idx = _
    rw [scanEnvp]
    simp
  | cons ch bytes ih =>
    simp only [List.mem_cons, not_or] at noNul
    show scanEnvp (ch :: (stored bytes ++ 0 :: rest)) len idx = _
    rw [scanEnvp, if_pos (Ne.symm noNul.1), ih noNul.2, List.length_cons]
    congr 2
    omega

/-- Copying a string puts it, and then its pointer. -/
theorem copyEnvp_string {bytes : List UInt8} (noNul : 0 ∉ bytes) (next : UInt8)
    (rest : List UInt8) (start : Nat) (c : Cursor) :
    copyEnvp (stored bytes ++ next :: rest) start c =
      ((c.append (stored bytes)).bind fun c => c.point pointerSize (some start)).bind fun c =>
        if next = 0 then some c else copyEnvp (next :: rest) c.dst c := by
  induction bytes generalizing c with
  | nil =>
    show copyEnvp (0 :: next :: rest) start c = _
    have alone : stored ([] : List UInt8) = [0] := rfl
    rw [copyEnvp, alone]
    cases c.append [0] with
    | none => rfl
    | some d =>
      simp only [ne_eq, not_true_eq_false, if_false, Option.bind_some]
      cases d.point pointerSize (some start) <;> rfl
  | cons ch bytes ih =>
    simp only [List.mem_cons, not_or] at noNul
    have split : stored (ch :: bytes) = [ch] ++ stored bytes := rfl
    rw [split, append_append]
    show copyEnvp (ch :: (stored bytes ++ next :: rest)) start c = _
    rw [copyEnvp]
    cases c.append [ch] with
    | none => rfl
    | some d =>
      simp only [ne_eq, Ne.symm noNul.1, not_false_eq_true, if_true, Option.bind_some]
      exact ih noNul.2 d

/-- A string with bytes does not start with a zero. -/
theorem stored_filled {str : CString} (filled : str.bytes ≠ []) (rest : List UInt8) :
    ∃ next tail, stored str.bytes ++ rest = next :: tail ∧ next ≠ 0 := by
  obtain ⟨bytes, noNul⟩ := str
  cases bytes with
  | nil => exact absurd rfl filled
  | cons next tail =>
    simp only [List.mem_cons, not_or] at noNul
    exact ⟨next, stored tail ++ rest, rfl, Ne.symm noNul.1⟩

/-- All strings are counted. -/
theorem scanEnvp_all (first : CString) (strings : List CString)
    (filled : ∀ str ∈ strings, str.bytes ≠ []) (rest : List UInt8) (len idx : Nat) :
    scanEnvp (allStored ((first :: strings).map CString.bytes) ++ 0 :: rest) len idx =
      some (len + (allStored ((first :: strings).map CString.bytes)).length +
        (first :: strings).length * pointerSize, idx + (first :: strings).length) := by
  induction strings generalizing first len idx with
  | nil =>
    simp only [List.map_cons, List.map_nil, allStored, List.flatMap_cons, List.flatMap_nil,
      List.append_nil]
    rw [scanEnvp_last first.noNul, stored_length, List.length_singleton]
    congr 2
  | cons second others ih =>
    -- The next string has a byte, so counting goes on.
    have later := ih second (fun str member => filled str (List.mem_cons_of_mem _ member))
      (len + first.bytes.length + pointerSize + 1) (idx + 1)
    have split : allStored ((first :: second :: others).map CString.bytes) =
        stored first.bytes ++ allStored ((second :: others).map CString.bytes) := rfl
    obtain ⟨next, tail, starts, more⟩ := stored_filled (filled second List.mem_cons_self)
      (allStored (others.map CString.bytes) ++ 0 :: rest)
    have found : allStored ((second :: others).map CString.bytes) ++ 0 :: rest = next :: tail := by
      rw [← starts]
      simp [allStored]
    rw [split, List.append_assoc, found, scanEnvp_string first.noNul more, ← found, later,
      List.length_append, stored_length]
    simp only [List.length_cons, Nat.add_mul]
    congr 2 <;> omega

/-- Copying the strings puts all of them, if there is room. -/
theorem copyEnvp_holds (first : CString) (strings : List CString)
    (filled : ∀ str ∈ strings, str.bytes ≠ []) (rest : List UInt8) {c : Cursor} {area : Nat}
    {before : List (List UInt8)} (holds : c.Holds pointerSize area before (allStored before))
    (room : (before.length + (strings.length + 1)) * pointerSize ≤ area)
    (fits : area + (allStored (before ++ (first :: strings).map CString.bytes)).length ≤
      c.block.size) :
    ∃ d, copyEnvp (allStored ((first :: strings).map CString.bytes) ++ 0 :: rest) c.dst c = some d ∧
      d.block.size = c.block.size ∧
      d.Holds pointerSize area (before ++ (first :: strings).map CString.bytes)
        (allStored (before ++ (first :: strings).map CString.bytes)) := by
  have whole (others : List CString) :
      before ++ (first :: others).map CString.bytes =
        (before ++ [first.bytes]) ++ others.map CString.bytes := by
    simp
  -- The first string is put, and its pointer behind the others.
  have one : ∃ d, ((c.append (stored first.bytes)).bind fun d =>
      d.point pointerSize (some c.dst)) = some d ∧ d.block.size = c.block.size ∧
      d.Holds pointerSize area (before ++ [first.bytes])
        (allStored (before ++ [first.bytes])) := by
    have first_fits : area + (allStored (before ++ [first.bytes])).length ≤ c.block.size := by
      rw [whole, allStored, List.flatMap_append, List.length_append] at fits
      unfold allStored
      omega
    rw [allStored_concat, List.length_append] at first_fits
    obtain ⟨d, copied, same, held⟩ := holds.append (stored first.bytes) (by omega)
    have slots : (before.length + 1) * pointerSize ≤ area :=
      (Nat.mul_le_mul_right pointerSize (by omega)).trans room
    obtain ⟨e, pointed, kept, all⟩ := held.point first.bytes slots holds.dst
    exact ⟨e, by simp [copied, pointed], kept.trans same, (allStored_concat ..).symm ▸ all⟩
  obtain ⟨d, put, same, held⟩ := one
  cases strings with
  | nil =>
    have split : allStored ([first].map CString.bytes) ++ 0 :: rest =
        stored first.bytes ++ 0 :: rest := by simp [allStored]
    rw [split, copyEnvp_string first.noNul, put]
    exact ⟨d, rfl, same, held⟩
  | cons second others =>
    have others_filled : ∀ str ∈ others, str.bytes ≠ [] :=
      fun str member => filled str (List.mem_cons_of_mem _ member)
    obtain ⟨next, tail, starts, more⟩ := stored_filled (filled second List.mem_cons_self)
      (allStored (others.map CString.bytes) ++ 0 :: rest)
    have found : allStored ((second :: others).map CString.bytes) ++ 0 :: rest = next :: tail := by
      rw [← starts]
      simp [allStored]
    have split : allStored ((first :: second :: others).map CString.bytes) ++ 0 :: rest =
        stored first.bytes ++ next :: tail := by
      rw [← found]
      simp [allStored]
    rw [split, copyEnvp_string first.noNul, put, Option.bind_some, if_neg more, ← found, whole]
    rw [whole] at fits
    have later_room : ((before ++ [first.bytes]).length + (others.length + 1)) * pointerSize ≤
        area := by
      rw [List.length_append, List.length_singleton]
      rw [List.length_cons] at room
      exact (Nat.mul_le_mul_right pointerSize (by omega)).trans room
    obtain ⟨e, copied, kept, all⟩ :=
      copyEnvp_holds second others others_filled rest held later_room (by rw [same]; exact fits)
    exact ⟨e, copied, kept.trans same, all⟩

/-- Copying the strings needs room for all of them. -/
theorem copyEnvp_inside (first : CString) (strings : List CString)
    (filled : ∀ str ∈ strings, str.bytes ≠ []) (rest : List UInt8) (start : Nat) {c d : Cursor}
    (copied : copyEnvp (allStored ((first :: strings).map CString.bytes) ++ 0 :: rest) start c =
      some d) :
    d.block.size = c.block.size ∧ d.idx = c.idx + (first :: strings).length ∧
      d.dst = c.dst + (allStored ((first :: strings).map CString.bytes)).length := by
  induction strings generalizing first start c with
  | nil =>
    have split : allStored ([first].map CString.bytes) ++ 0 :: rest =
        stored first.bytes ++ 0 :: rest := by simp [allStored]
    rw [split, copyEnvp_string first.noNul] at copied
    obtain ⟨e, put, same⟩ := Option.bind_eq_some_iff.mp copied
    cases same
    obtain ⟨m, appended, pointed⟩ := Option.bind_eq_some_iff.mp put
    obtain ⟨_, size, idx, dst⟩ := append_inside appended
    obtain ⟨_, kept, count, place⟩ := point_inside pointed
    simp only [allStored, List.map_cons, List.map_nil, List.flatMap_cons, List.flatMap_nil,
      List.append_nil, List.length_singleton]
    refine ⟨?_, ?_, ?_⟩ <;> omega
  | cons second others ih =>
    obtain ⟨next, tail, starts, more⟩ := stored_filled (filled second List.mem_cons_self)
      (allStored (others.map CString.bytes) ++ 0 :: rest)
    have found : allStored ((second :: others).map CString.bytes) ++ 0 :: rest = next :: tail := by
      rw [← starts]
      simp [allStored]
    have split : allStored ((first :: second :: others).map CString.bytes) ++ 0 :: rest =
        stored first.bytes ++ next :: tail := by
      rw [← found]
      simp [allStored]
    rw [split, copyEnvp_string first.noNul] at copied
    obtain ⟨e, put, later⟩ := Option.bind_eq_some_iff.mp copied
    rw [if_neg more, ← found] at later
    obtain ⟨m, appended, pointed⟩ := Option.bind_eq_some_iff.mp put
    obtain ⟨_, size, idx, dst⟩ := append_inside appended
    obtain ⟨_, kept, count, place⟩ := point_inside pointed
    obtain ⟨whole, total, reached⟩ :=
      ih second (fun str member => filled str (List.mem_cons_of_mem _ member)) _ later
    simp only [allStored, List.map_cons, List.flatMap_cons, List.length_append,
      List.length_cons] at reached total ⊢
    refine ⟨?_, ?_, ?_⟩ <;> omega

/-- The variable of the program is put behind the environment, and ends the list. -/
theorem nameProgram_laid (exe : CString) {c : Cursor} {area : Nat} {strings : List (List UInt8)}
    (holds : c.Holds pointerSize area strings (allStored strings))
    (room : (strings.length + 2) * pointerSize ≤ area)
    (fits : area + (allStored strings).length + subprocessVariable.length + exe.bytes.length + 2 ≤
      c.block.size) :
    ∃ d places, nameProgram exe.bytes c = some d ∧
      d.block.Laid pointerSize area (strings ++ [programVariable exe]) places := by
  obtain ⟨one, copied, size_one, held_one⟩ := holds.strcpy subprocessVariable (by omega)
  obtain ⟨two, named, size_two, held_two⟩ := held_one.append (stored exe.bytes) (by
    rw [size_one, List.length_append, stored_length]
    omega)
  obtain ⟨three, zeroed, size_three, held_three⟩ := held_two.append [0] (by
    rw [size_two, size_one, List.length_append, List.length_append, stored_length,
      List.length_singleton]
    omega)
  have slots : (strings.length + 1) * pointerSize ≤ area :=
    (Nat.mul_le_mul_right pointerSize (by omega)).trans room
  obtain ⟨four, pointed, size_four, held_four⟩ :=
    held_three.point (programVariable exe) slots holds.dst
  have last : ((strings ++ [programVariable exe]).length + 1) * pointerSize ≤ area := by
    rw [List.length_append]
    exact room
  -- The bytes are those of all strings, with one zero more.
  have whole : allStored (strings ++ [programVariable exe]) <+:
      allStored strings ++ subprocessVariable ++ stored exe.bytes ++ [0] := by
    refine ⟨[0], ?_⟩
    simp [allStored, programVariable, stored]
  obtain ⟨five, ended, laid⟩ := held_four.finish last whole
  refine ⟨five, _, ?_, laid⟩
  simp [nameProgram, copied, named, zeroed, pointed, ended]

/-- The variable of the program needs room for its pointer, the last one, and its bytes. -/
theorem nameProgram_inside {exe : CString} {c d : Cursor}
    (named : nameProgram exe.bytes c = some d) :
    (c.idx + 2) * pointerSize ≤ c.block.size ∧
      c.dst + subprocessVariable.length + exe.bytes.length + 2 ≤ c.block.size := by
  simp only [nameProgram, Option.bind_eq_bind, Option.bind_eq_some_iff] at named
  obtain ⟨one, copied, two, appended, three, zeroed, four, pointed, ended⟩ := named
  obtain ⟨zero, stored_there, same⟩ := Option.map_eq_some_iff.mp copied
  obtain ⟨_, size_zero, idx_zero, dst_zero⟩ := append_inside stored_there
  rw [stored_length] at dst_zero
  have size_one : one.block.size = c.block.size := by rw [← same, ← size_zero]
  have idx_one : one.idx = c.idx := by rw [← same, ← idx_zero]
  have dst_one : one.dst = c.dst + subprocessVariable.length := by
    rw [← same]
    simp [dst_zero, ← Nat.add_assoc]
  obtain ⟨_, size_two, idx_two, dst_two⟩ := append_inside appended
  obtain ⟨room, size_three, idx_three, _⟩ := append_inside zeroed
  obtain ⟨_, size_four, idx_four, _⟩ := point_inside pointed
  obtain ⟨slots, _, _, _⟩ := point_inside ended
  rw [stored_length] at dst_two
  rw [List.length_singleton] at room
  rw [show four.idx + 1 = c.idx + 2 by omega] at slots
  refine ⟨?_, ?_⟩ <;> omega

/-- An environment that is made of an empty one has only the pointer that ends the list. -/
theorem empty_incomplete {env : EnvStrings} {exe : CString} {rest : List UInt8}
    (empty : env.strings = []) : ¬ EnvpComplete env exe rest := by
  intro complete
  obtain ⟨result, called, laid⟩ := complete true
  have contents : env.contents = [] := by rw [EnvStrings.contents, empty, List.map_nil]
  have memory : env.memory rest = 0 :: rest := by
    rw [EnvStrings.memory, contents]
    rfl
  rw [memory] at called
  cases called
  obtain ⟨area, places, whole⟩ := (laid _ rfl).1
  rw [contents] at whole
  -- The block has room for one pointer, and two would have to be in front of the string.
  have slots := whole.slots
  cases whole.held with
  | cons first later =>
    have inside := first.1
    have behind := whole.behind _ List.mem_cons_self
    change 2 * 4 ≤ area at slots
    change _ ≤ 4 at inside
    omega

/-- A process finds the variable of its program in a complete environment. -/
theorem getenv_program (strings : List (List UInt8)) (exe : CString) :
    getenv (ascii "IS_2INE") (strings ++ [programVariable exe]) ≠ none := by
  have named : (ascii "IS_2INE" ++ ascii "=").isPrefixOf (programVariable exe) = true := by
    rw [List.isPrefixOf_iff_prefix]
    exact ⟨exe.bytes, rfl⟩
  have found : (List.find? (fun str => (ascii "IS_2INE" ++ ascii "=").isPrefixOf str)
      (strings ++ [programVariable exe])).isSome := by
    rw [List.find?_isSome]
    exact ⟨_, List.mem_append_right _ List.mem_cons_self, named⟩
  obtain ⟨str, first⟩ := Option.isSome_iff_exists.mp found
  simp [getenv, first]

/-- An environment without strings. -/
def emptyEnvironment : EnvStrings where
  strings := []
  filled := by simp

end TwoIne
