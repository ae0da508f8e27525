import TwoIne.Lib2ine.PibSize

/-!
The block of a new process has room for what is written, and that is no more than was counted,
exactly under a bound on its strings and on their ends of lines.
-/

namespace TwoIne

open CStrings

/-- How often a byte stands in the arguments that are put in quotes. -/
def quotedCount (ch : UInt8) (args : List CString) : Nat :=
  ((args.filter fun arg => needsEscape arg.bytes).map fun arg => arg.bytes.count ch).sum

/-- The bytes of the arguments, with the quotes around some of them. -/
def argumentBytes (args : List CString) : Nat :=
  (args.map fun arg => arg.bytes.length + if needsEscape arg.bytes then 2 else 0).sum

/-- The bytes of the variables that are copied, with their zeros. -/
def variableBytes (src : PibSource) : Nat :=
  ((src.envp.filterMap (copiedVariable src.path src.subprocess)).map fun str =>
    str.bytes.length + 1).sum

/-- What is counted for the name of the program, as if it were put in quotes on the command line. -/
def nameEscapes (name : List UInt8) : Nat :=
  if needsEscape name then 2 + name.count backslash + name.count quoteMark else 0

/--
The strings have room in the block, and the arguments that are put in quotes have no more ends of
lines than quotes, but for those that the name and the zeros were counted for.
-/
def PibRoom (src : PibSource) : Prop :=
  variableBytes src + 2 * (src.argv0.bytes.length + 1) + argumentBytes src.args +
      quotedCount backslash src.args + quotedCount newline src.args + (src.args.length - 1) + 2 ≤
    environmentBlock ∧
  quotedCount newline src.args ≤
    quotedCount quoteMark src.args + nameEscapes src.argv0.bytes + min 1 src.args.length + 3

/-! Writing -/

/-- Escaping adds one byte to each backslash and to each end of a line. -/
theorem escape_length (arg : List UInt8) :
    (arg.flatMap escapeByte).length = arg.length + arg.count backslash + arg.count newline := by
  induction arg with
  | nil => rfl
  | cons ch rest ih =>
    have different : backslash ≠ newline := by decide
    simp only [List.flatMap_cons, List.length_append, ih, List.length_cons, List.count_cons]
    by_cases slash : ch = backslash
    · subst slash
      simp [escapeByte, different]
      omega
    · by_cases line : ch = newline
      · subst line
        simp [escapeByte, Ne.symm different]
        omega
      · simp [escapeByte, slash, line]
        omega

/-- The bytes of the arguments on the command line, with the blanks between them. -/
theorem joinArgs_length (args : List CString) :
    (joinArgs (args.map CString.bytes)).length =
      argumentBytes args + quotedCount backslash args + quotedCount newline args +
        (args.length - 1) := by
  have one (arg : CString) : (quoteArg arg.bytes).length =
      argumentBytes [arg] + quotedCount backslash [arg] + quotedCount newline [arg] := by
    by_cases escaped : needsEscape arg.bytes = true
    · rw [quoteArg, if_pos escaped, List.length_cons, List.length_append, escape_length,
        List.length_singleton]
      simp [escaped, argumentBytes, quotedCount]
      omega
    · simp [quoteArg, escaped, argumentBytes, quotedCount]
  have split (arg : CString) (rest : List CString) :
      argumentBytes (arg :: rest) = argumentBytes [arg] + argumentBytes rest := by
    simp [argumentBytes]
  have counts (ch : UInt8) (arg : CString) (rest : List CString) :
      quotedCount ch (arg :: rest) = quotedCount ch [arg] + quotedCount ch rest := by
    by_cases escaped : needsEscape arg.bytes = true <;> simp [quotedCount, escaped]
  induction args with
  | nil => rfl
  | cons arg rest ih =>
    cases rest with
    | nil =>
      show (quoteArg arg.bytes).length = _
      rw [one]
      rfl
    | cons next rest =>
      show (quoteArg arg.bytes ++ 32 :: joinArgs ((next :: rest).map CString.bytes)).length = _
      rw [List.length_append, List.length_cons, ih, one, split arg (next :: rest),
        counts backslash arg (next :: rest), counts newline arg (next :: rest)]
      simp only [List.length_cons]
      omega

/-- The bytes of the environment. -/
theorem environmentBytes_length (src : PibSource) :
    (environmentBytes src).length = variableBytes src + 1 := by
  simp [environmentBytes, variableBytes, List.length_flatMap, stored]

/-- What is written to the block. -/
theorem initPib_written {src : PibSource} :
    (∃ pib, initPib src = some pib ∧ pib.block.length ≤ pibLength src) ↔
      variableBytes src + 2 * (src.argv0.bytes.length + 1) + argumentBytes src.args +
          quotedCount backslash src.args + quotedCount newline src.args + (src.args.length - 1) + 2 ≤
        environmentBlock ∧
      variableBytes src + 2 * (src.argv0.bytes.length + 1) + argumentBytes src.args +
          quotedCount backslash src.args + quotedCount newline src.args + (src.args.length - 1) + 2 ≤
        pibLength src := by
  have written : (environmentBytes src ++ stored src.argv0.bytes ++
      commandLine src.argv0 src.args).length =
      variableBytes src + 2 * (src.argv0.bytes.length + 1) + argumentBytes src.args +
        quotedCount backslash src.args + quotedCount newline src.args + (src.args.length - 1) +
          2 := by
    simp only [commandLine, stored, List.length_append, environmentBytes_length, joinArgs_length,
      List.length_singleton]
    omega
  unfold initPib
  dsimp only
  rw [← written]
  split
  · next fits =>
    simp only [Option.some.injEq, exists_eq_left']
    exact ⟨fun counted => ⟨fits, counted⟩, fun both => both.2⟩
  · next full => exact iff_of_false (fun some_pib => by simp at some_pib) (fun both => full both.1)

/-! Counting -/

/-- The bytes of an argument are counted one by one. -/
theorem countBytes (arg : List UInt8) (count : ArgCount) :
    arg.foldl ArgCount.byte count =
      { needsEscape := count.needsEscape || needsEscape arg
        numBackslashes := count.numBackslashes + (arg.count backslash + arg.count quoteMark)
        len := count.len + arg.length } := by
  induction arg generalizing count with
  | nil => simp [needsEscape]
  | cons ch rest ih =>
    have slash : isBlank backslash = false := by decide
    have quote : isBlank quoteMark = false := by decide
    have different : backslash ≠ quoteMark := by decide
    rw [List.foldl_cons, ih]
    by_cases blank : isBlank ch = true
    · have no_slash : ch ≠ backslash := by
        rintro rfl
        cases slash.symm.trans blank
      have no_quote : ch ≠ quoteMark := by
        rintro rfl
        cases quote.symm.trans blank
      simp [ArgCount.byte, blank, needsEscape, no_slash, no_quote]
      omega
    · by_cases one : ch = backslash
      · subst one
        simp [ArgCount.byte, slash, needsEscape, different]
        omega
      · by_cases other : ch = quoteMark
        · subst other
          simp [ArgCount.byte, quote, needsEscape, Ne.symm different]
          omega
        · simp [ArgCount.byte, blank, one, other, needsEscape]
          omega

/-- What is counted for an argument. -/
theorem countArg_eq (len : Nat) (arg : CString) :
    countArg len arg = len + arg.bytes.length + nameEscapes arg.bytes + 1 := by
  simp only [countArg, countBytes, nameEscapes, Bool.false_or, Nat.zero_add]
  split <;> omega

/-- What is counted for all arguments. -/
theorem countArgs_eq (len : Nat) (args : List CString) :
    args.foldl countArg len = len + argumentBytes args + quotedCount backslash args +
      quotedCount quoteMark args + args.length := by
  induction args generalizing len with
  | nil => rfl
  | cons arg rest ih =>
    rw [List.foldl_cons, ih, countArg_eq]
    by_cases escaped : needsEscape arg.bytes = true
    · simp [argumentBytes, quotedCount, escaped, nameEscapes]
      omega
    · simp [argumentBytes, quotedCount, escaped, nameEscapes]
      omega

/-- What is counted for the environment. -/
theorem countVariables_eq (src : PibSource) (len : Nat) :
    src.envp.foldl (countVariable src.path src.subprocess) len = len + variableBytes src := by
  unfold variableBytes
  induction src.envp generalizing len with
  | nil => rfl
  | cons str rest ih =>
    rw [List.foldl_cons, ih]
    unfold countVariable
    cases copied : copiedVariable src.path src.subprocess str with
    | none => simp [copied]
    | some taken =>
      simp [copied]
      omega

/-- The size that is counted. -/
theorem pibLength_eq (src : PibSource) :
    pibLength src = (variableBytes src + 2 * (src.argv0.bytes.length + 1) +
      nameEscapes src.argv0.bytes + argumentBytes src.args + quotedCount backslash src.args +
        quotedCount quoteMark src.args + src.args.length + 5) % 2 ^ 32 := by
  simp only [pibLength, List.foldl_cons, countArgs_eq, countVariables_eq, countArg_eq]
  congr 1
  omega

/-- A byte stands in the arguments no more often than there are bytes. -/
theorem quotedCount_le (ch : UInt8) (args : List CString) :
    quotedCount ch args ≤ argumentBytes args := by
  induction args with
  | nil => exact Nat.le_refl _
  | cons arg rest ih =>
    have bytes := List.count_le_length (a := ch) (l := arg.bytes)
    by_cases escaped : needsEscape arg.bytes = true
    · simp [quotedCount, argumentBytes, escaped] at ih ⊢
      omega
    · simp [quotedCount, argumentBytes, escaped] at ih ⊢
      omega

/-- What is counted for the name is about as long as the name. -/
theorem nameEscapes_le (name : List UInt8) : nameEscapes name ≤ 2 * name.length + 2 := by
  have slashes := List.count_le_length (a := backslash) (l := name)
  have marks := List.count_le_length (a := quoteMark) (l := name)
  unfold nameEscapes
  split <;> omega

/--
The block of a new process has room for all that is written, which is no more than was counted,
exactly if its strings are short and have few ends of lines.
-/
theorem pib_fits_iff (src : PibSource) :
    (∃ pib, initPib src = some pib ∧ pib.block.length ≤ pibLength src) ↔ PibRoom src := by
  rw [initPib_written, PibRoom]
  refine and_congr_right fun fits => ?_
  -- What is counted is no more than a few times the block, so it is not cut off.
  have name := nameEscapes_le src.argv0.bytes
  have marks := quotedCount_le quoteMark src.args
  unfold environmentBlock at fits
  rw [pibLength_eq, Nat.mod_eq_of_lt (by omega)]
  omega

/-- A program with an argument of a blank and five ends of lines. -/
def linesArgument : PibSource where
  path := ⟨ascii "PATH=", by decide⟩
  subprocess := false
  envp := []
  argv0 := ⟨ascii "A.EXE", by decide⟩
  args := [⟨ascii " \n\n\n\n\n", by decide⟩]
  pid := 1
  ppid := 0

/-- Ends of lines are escaped, and not counted as such. -/
theorem lines_not_counted :
    ¬ ∃ pib, initPib linesArgument = some pib ∧ pib.block.length ≤ pibLength linesArgument := by
  rw [initPib_written]
  decide

end TwoIne
