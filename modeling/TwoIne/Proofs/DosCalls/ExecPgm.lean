import TwoIne.DosCalls.ExecPgm

/-!
Command lines written for a process and read for another one.

Writing puts an argument with blanks in quotes and a backslash in front of some of its bytes.
Reading knows neither the backslash nor an argument without bytes.
-/

namespace TwoIne

open CStrings

/-- The arguments of a text that may start with blanks. -/
def scanArgv (text : List UInt8) : List (List UInt8) := calcArgvWords [] (text.dropWhile isBlank)

/-- What the command line has behind an argument. -/
def behindArg : List (List UInt8) → List UInt8
  | [] => []
  | next :: rest => 32 :: joinArgs (next :: rest)

/-- An argument that is read as it was written. -/
def Survives (arg : List UInt8) : Prop :=
  arg ≠ [] ∧ quoteMark ∉ arg ∧ (needsEscape arg = true → backslash ∉ arg ∧ newline ∉ arg)

/-- An argument that is empty, or has a quote and no blank. -/
def Stray (arg : List UInt8) : Prop := arg = [] ∨ quoteMark ∈ arg ∧ needsEscape arg = false

/-! Writing -/

/-- The command line of an argument and the ones behind it. -/
theorem joinArgs_cons (arg : List UInt8) (rest : List (List UInt8)) :
    joinArgs (arg :: rest) = quoteArg arg ++ behindArg rest := by
  -- The blank stands between two arguments only.
  cases rest with
  | nil => simp [joinArgs, behindArg]
  | cons next rest => rfl

/-- No byte of an argument without blanks is a blank. -/
theorem needsEscape_eq_false {arg : List UInt8} :
    needsEscape arg = false ↔ ∀ ch ∈ arg, isBlank ch = false := by
  simp [needsEscape]

/-- Escaping keeps the quotes as they are. -/
theorem quote_mem_escape {arg : List UInt8} :
    quoteMark ∈ arg.flatMap escapeByte ↔ quoteMark ∈ arg := by
  have single : ∀ ch, quoteMark ∈ escapeByte ch ↔ quoteMark = ch := by
    intro ch
    unfold escapeByte
    split
    · simp [quoteMark, backslash]
    · simp
  simp [List.mem_flatMap, single]

/-- Bytes that are not escaped stay as they are. -/
theorem escape_self {arg : List UInt8} (plain : backslash ∉ arg ∧ newline ∉ arg) :
    arg.flatMap escapeByte = arg := by
  -- Each byte is written on its own.
  induction arg with
  | nil => rfl
  | cons ch rest ih =>
    simp only [List.mem_cons, not_or] at plain
    have single : escapeByte ch = [ch] := by
      simp [escapeByte, Ne.symm plain.1.1, Ne.symm plain.2.1]
    simp [single, ih ⟨plain.1.2, plain.2.2⟩]

/-- An argument that escaping does not change has nothing to escape. -/
theorem escape_self_iff {arg : List UInt8} :
    arg.flatMap escapeByte = arg ↔ backslash ∉ arg ∧ newline ∉ arg := by
  refine ⟨fun same => ?_, escape_self⟩
  -- Every byte is written as one or two, so none is written as two.
  have grows : ∀ bytes : List UInt8, bytes.length ≤ (bytes.flatMap escapeByte).length := by
    intro bytes
    induction bytes with
    | nil => simp
    | cons ch rest ih =>
      have some_byte : 1 ≤ (escapeByte ch).length := by
        unfold escapeByte
        split <;> simp
      simp only [List.flatMap_cons, List.length_append, List.length_cons]
      omega
  have unescaped : ∀ ch ∈ arg, ¬ (ch = backslash ∨ ch = newline) := by
    intro ch member escaped
    obtain ⟨front, rest, rfl⟩ := List.append_of_mem member
    have lengths := congrArg List.length same
    have pair : (escapeByte ch).length = 2 := by simp [escapeByte, escaped]
    simp only [List.flatMap_append, List.flatMap_cons, List.length_append, List.length_cons,
      pair] at lengths
    have front_grows := grows front
    have rest_grows := grows rest
    omega
  exact ⟨fun member => unescaped _ member (Or.inl rfl), fun member =>
    unescaped _ member (Or.inr rfl)⟩

/-! Reading -/

/-- Blanks in front of a text are skipped. -/
theorem scanArgv_blanks {blanks : List UInt8} (all : ∀ ch ∈ blanks, isBlank ch = true)
    (text : List UInt8) : scanArgv (blanks ++ text) = scanArgv text := by
  simp [scanArgv, List.dropWhile_append_of_pos all]

/-- Behind an argument come the ones that were written there. -/
theorem scanArgv_behindArg (rest : List (List UInt8)) :
    scanArgv (behindArg rest) = scanArgv (joinArgs rest) := by
  cases rest with
  | nil => rfl
  | cons next rest =>
    have blank : ∀ ch ∈ [32], isBlank ch = true := by simp [isBlank]
    exact scanArgv_blanks blank _

/-- No text has no arguments. -/
@[simp] theorem scanArgv_nil : scanArgv [] = [] := by
  simp [scanArgv, calcArgvWords]

/-- Reading passes over bytes that are neither blanks nor quotes. -/
theorem calcArgvWords_plain {plain : List UInt8} (no_blank : ∀ ch ∈ plain, isBlank ch = false)
    (no_quote : quoteMark ∉ plain) (word text : List UInt8) :
    calcArgvWords word (plain ++ text) = calcArgvWords (word ++ plain) text := by
  -- Each byte is put to the word.
  induction plain generalizing word with
  | nil => simp
  | cons ch rest ih =>
    simp only [List.mem_cons, not_or] at no_quote
    have step : calcArgvWords word (ch :: (rest ++ text)) =
        calcArgvWords (word ++ [ch]) (rest ++ text) := by
      rw [calcArgvWords]
      simp [no_blank ch List.mem_cons_self, Ne.symm no_quote.1]
    rw [List.cons_append, step, ih (fun other member => no_blank other
      (List.mem_cons_of_mem _ member)) no_quote.2]
    simp

/-- Text whose first byte is no blank is read from there. -/
theorem scanArgv_start {ch : UInt8} (no_blank : isBlank ch = false) (text : List UInt8) :
    scanArgv (ch :: text) = calcArgvWords [] (ch :: text) := by
  simp [scanArgv, no_blank]

/-- A word at the start of a text, up to a quote. -/
theorem scanArgv_quote {plain : List UInt8} (no_blank : ∀ ch ∈ plain, isBlank ch = false)
    (no_quote : quoteMark ∉ plain) (text : List UInt8) :
    scanArgv (plain ++ quoteMark :: text) =
      (plain ++ quoteMark :: text.takeWhile inQuotes).drop 1 :: scanArgv (afterQuotes text) := by
  have quote_visible : isBlank quoteMark = false := by decide
  have stop : ∀ word, calcArgvWords word (quoteMark :: text) =
      (word ++ quoteMark :: text.takeWhile inQuotes).drop 1 :: scanArgv (afterQuotes text) := by
    intro word
    rw [calcArgvWords]
    simp [quote_visible, scanArgv]
  cases plain with
  | nil => rw [List.nil_append, scanArgv_start quote_visible, stop]
  | cons ch rest =>
    rw [List.cons_append, scanArgv_start (no_blank ch List.mem_cons_self), ← List.cons_append,
      calcArgvWords_plain no_blank no_quote, stop]
    rfl

/-- A quote at the start of a text opens an argument up to the next quote. -/
theorem scanArgv_quote_first (text : List UInt8) :
    scanArgv (quoteMark :: text) = text.takeWhile inQuotes :: scanArgv (afterQuotes text) := by
  have nothing : ∀ ch ∈ ([] : List UInt8), isBlank ch = false := by simp
  exact scanArgv_quote nothing (by simp) text

/-- A word at the start of a text, up to a blank. -/
theorem scanArgv_blank {plain : List UInt8} (some_byte : plain ≠ [])
    (no_blank : ∀ ch ∈ plain, isBlank ch = false) (no_quote : quoteMark ∉ plain) {ch : UInt8}
    (blank : isBlank ch = true) (text : List UInt8) :
    scanArgv (plain ++ ch :: text) = plain :: scanArgv text := by
  cases plain with
  | nil => exact absurd rfl some_byte
  | cons first rest =>
    rw [List.cons_append, scanArgv_start (no_blank first List.mem_cons_self), ← List.cons_append,
      calcArgvWords_plain no_blank no_quote, calcArgvWords]
    simp [blank, scanArgv]

/-- A word at the end of a text. -/
theorem scanArgv_end {plain : List UInt8} (some_byte : plain ≠ [])
    (no_blank : ∀ ch ∈ plain, isBlank ch = false) (no_quote : quoteMark ∉ plain) :
    scanArgv plain = [plain] := by
  cases plain with
  | nil => exact absurd rfl some_byte
  | cons first rest =>
    rw [scanArgv_start (no_blank first List.mem_cons_self), ← List.append_nil (first :: rest),
      calcArgvWords_plain no_blank no_quote, calcArgvWords]
    simp

/-- A word that was written in front of other arguments. -/
theorem scanArgv_word {plain : List UInt8} (some_byte : plain ≠ [])
    (no_blank : ∀ ch ∈ plain, isBlank ch = false) (no_quote : quoteMark ∉ plain)
    (rest : List (List UInt8)) :
    scanArgv (plain ++ behindArg rest) = plain :: scanArgv (joinArgs rest) := by
  cases rest with
  | nil =>
    rw [behindArg, List.append_nil, scanArgv_end some_byte no_blank no_quote]
    simp [joinArgs]
  | cons next rest =>
    exact scanArgv_blank some_byte no_blank no_quote (by decide) _

/-- Without a quote nothing ends a quoted argument. -/
theorem all_inQuotes {inner : List UInt8} (no_quote : quoteMark ∉ inner) :
    ∀ ch ∈ inner, inQuotes ch = true := by
  intro ch member
  have other : ch ≠ quoteMark := by
    rintro rfl
    exact no_quote member
  simpa [inQuotes] using other

/-- What stands between two quotes. -/
theorem takeWhile_inQuotes {inner : List UInt8} (no_quote : quoteMark ∉ inner) (text : List UInt8) :
    (inner ++ quoteMark :: text).takeWhile inQuotes = inner ∧
      afterQuotes (inner ++ quoteMark :: text) = text := by
  have passes := all_inQuotes no_quote
  constructor
  · simp [List.takeWhile_append_of_pos passes, inQuotes]
  · simp [afterQuotes, List.dropWhile_append_of_pos passes, inQuotes]

/-- What was put in quotes is read up to the first quote in it. -/
theorem scanArgv_quoted {inner : List UInt8} (no_quote : quoteMark ∉ inner) (text : List UInt8) :
    scanArgv (quoteMark :: (inner ++ quoteMark :: text)) = inner :: scanArgv text := by
  have read := scanArgv_quote_first (inner ++ quoteMark :: text)
  obtain ⟨taken, left⟩ := takeWhile_inQuotes no_quote text
  rwa [taken, left] at read

/-- No argument that is read has two quotes. -/
theorem count_quote_calcArgvWords (word text : List UInt8) (no_quote : quoteMark ∉ word) :
    ∀ arg ∈ calcArgvWords word text, arg.count quoteMark ≤ 1 := by
  -- The word that was read so far has no quote, and the quote that ends it is the only one.
  fun_induction calcArgvWords word text with
  | case1 => simp
  | case2 word some_byte =>
    simp [List.count_eq_zero.mpr no_quote]
  | case3 word ch src blank ih =>
    intro arg member
    rcases List.mem_cons.mp member with rfl | member
    · simp [List.count_eq_zero.mpr no_quote]
    · exact ih (by simp) arg member
  | case4 word src visible ih =>
    intro arg member
    rcases List.mem_cons.mp member with rfl | member
    · have inner : quoteMark ∉ src.takeWhile inQuotes := fun inside => by
        simpa [inQuotes] using List.mem_takeWhile_imp inside
      refine (List.Sublist.count_le quoteMark (List.drop_sublist 1 _)).trans ?_
      simp [List.count_append, List.count_eq_zero.mpr no_quote, List.count_eq_zero.mpr inner]
    · exact ih (by simp) arg member
  | case5 word ch src visible other ih =>
    exact ih (by simpa [no_quote] using fun same => other same.symm)

/-- No argument of a text has two quotes. -/
theorem count_quote_scanArgv (text : List UInt8) :
    ∀ arg ∈ scanArgv text, arg.count quoteMark ≤ 1 :=
  count_quote_calcArgvWords _ _ (by simp)

/-! Arguments that do not come back -/

/-- An argument with one quote, split at the quote. -/
theorem split_quote {arg : List UInt8} (quoted : quoteMark ∈ arg)
    (once : arg.count quoteMark ≤ 1) :
    ∃ front behind, arg = front ++ quoteMark :: behind ∧ quoteMark ∉ front ∧
      quoteMark ∉ behind := by
  obtain ⟨front, behind, rfl⟩ := List.append_of_mem quoted
  simp only [List.count_append, List.count_cons_self] at once
  refine ⟨front, behind, rfl, ?_, ?_⟩
  · exact List.count_eq_zero.mp (by omega)
  · exact List.count_eq_zero.mp (by omega)

/-- What comes first in a list of stray arguments in front of others. -/
theorem first_of_stray {strays rest others : List (List UInt8)} {first arg : List UInt8}
    (stray : ∀ y ∈ strays, Stray y) (same : first :: others = strays ++ arg :: rest) :
    (∃ strays', strays = first :: strays' ∧ Stray first ∧ others = strays' ++ arg :: rest) ∨
      (strays = [] ∧ first = arg ∧ others = rest) := by
  cases strays with
  | nil =>
    simp only [List.nil_append, List.cons.injEq] at same
    exact Or.inr ⟨rfl, same.1, same.2⟩
  | cons y strays' =>
    simp only [List.cons_append, List.cons.injEq] at same
    obtain ⟨rfl, left⟩ := same
    exact Or.inl ⟨strays', rfl, stray _ List.mem_cons_self, left⟩

/-- Text behind an argument starts with a blank, which is not the end of a quoted argument. -/
theorem blank_mem_takeWhile {inner : List UInt8} (no_quote : quoteMark ∉ inner)
    {rest : List (List UInt8)} (more : rest ≠ []) :
    (32 : UInt8) ∈ (inner ++ behindArg rest).takeWhile inQuotes := by
  obtain ⟨next, rest, rfl⟩ := List.exists_cons_of_ne_nil more
  rw [List.takeWhile_append_of_pos (all_inQuotes no_quote), behindArg,
    List.takeWhile_cons_of_pos (by decide)]
  simp

/-- An argument with a blank in it is not stray, unless it has no quote. -/
theorem not_stray_of_blank {arg : List UInt8} (blank : (32 : UInt8) ∈ arg) : ¬ Stray arg := by
  rintro (rfl | ⟨_, none_escaped⟩)
  · simp at blank
  · exact absurd (needsEscape_eq_false.mp none_escaped 32 blank) (by decide)

/-- An argument without a quote is stray only if it is empty. -/
theorem stray_without_quote {arg : List UInt8} (no_quote : quoteMark ∉ arg) (stray : Stray arg) :
    arg = [] :=
  stray.resolve_right fun quoted => no_quote quoted.1

/-- An argument with a quote and no blank is not read back. -/
theorem plain_quote_lost {strays rest : List (List UInt8)} {front behind : List UInt8}
    (stray : ∀ y ∈ strays, Stray y) (no_front : quoteMark ∉ front) (no_behind : quoteMark ∉ behind)
    (plain : needsEscape (front ++ quoteMark :: behind) = false)
    (same : scanArgv ((front ++ quoteMark :: behind) ++ behindArg rest) =
      strays ++ (front ++ quoteMark :: behind) :: rest) : False := by
  have visible := needsEscape_eq_false.mp plain
  have read := scanArgv_quote (fun ch member => visible ch (List.mem_append_left _ member))
    no_front (behind ++ behindArg rest)
  rw [List.append_assoc, List.cons_append, read] at same
  by_cases more : rest = []
  · -- At the end of the line the argument loses its first byte.
    subst more
    have passes : (behind ++ behindArg []).takeWhile inQuotes = behind ∧
        afterQuotes (behind ++ behindArg []) = [] := by
      have none := all_inQuotes no_behind
      simp [behindArg, afterQuotes, List.takeWhile_eq_self_iff.mpr none,
        List.dropWhile_eq_nil_iff.mpr none]
    rw [passes.1, passes.2, scanArgv_nil] at same
    obtain ⟨strays', rfl, _, left⟩ | ⟨_, first, _⟩ := first_of_stray stray same
    · simp at left
    · have lengths := congrArg List.length first
      simp at lengths
  · -- Otherwise it goes on behind the blank.
    have blank := blank_mem_takeWhile no_behind more
    have within : (32 : UInt8) ∈
        (front ++ quoteMark :: (behind ++ behindArg rest).takeWhile inQuotes).drop 1 := by
      cases front with
      | nil => simpa using blank
      | cons first front => simp [blank]
    obtain ⟨_, _, is_stray, _⟩ | ⟨_, first, _⟩ := first_of_stray stray same
    · exact not_stray_of_blank within is_stray
    · rw [first] at within
      exact absurd (visible 32 within) (by decide)

/-- A command line that starts with a byte and a quote starts with an argument of these. -/
theorem joinArgs_starts {args : List (List UInt8)} {blanks behind : List UInt8} {ch : UInt8}
    (all : ∀ ch ∈ blanks, isBlank ch = true) (visible : isBlank ch = false) (other : ch ≠ quoteMark)
    (starts : joinArgs args = blanks ++ ch :: quoteMark :: behind) :
    ∃ count inner rest, args = List.replicate count [] ++ (ch :: quoteMark :: inner) :: rest ∧
      needsEscape (ch :: quoteMark :: inner) = false ∧ behind = inner ++ behindArg rest := by
  -- Every argument in front is empty and stands for one of the blanks.
  induction args generalizing blanks with
  | nil => simp [joinArgs] at starts
  | cons arg rest ih =>
    rw [joinArgs_cons] at starts
    by_cases empty : arg = []
    · subst empty
      have nothing : quoteArg [] = [] := rfl
      rw [nothing, List.nil_append] at starts
      cases rest with
      | nil => simp [behindArg] at starts
      | cons next rest =>
        rw [behindArg] at starts
        cases blanks with
        | nil =>
          simp only [List.nil_append, List.cons.injEq] at starts
          rw [← starts.1] at visible
          exact absurd visible (by decide)
        | cons blank blanks =>
          simp only [List.cons_append, List.cons.injEq] at starts
          obtain ⟨count, inner, left, same, plain, after⟩ :=
            ih (fun ch member => all ch (List.mem_cons_of_mem _ member)) starts.2
          exact ⟨count + 1, inner, left, by rw [same]; rfl, plain, after⟩
    · -- The first argument that is not empty is not in quotes, since its first byte is no quote.
      have plain : needsEscape arg = false := by
        by_contra escaped
        rw [quoteArg, if_pos (by simpa using escaped)] at starts
        cases blanks with
        | nil =>
          simp only [List.cons_append, List.nil_append, List.cons.injEq] at starts
          exact other starts.1.symm
        | cons blank blanks =>
          simp only [List.cons_append, List.cons.injEq] at starts
          have is_blank := all blank List.mem_cons_self
          rw [← starts.1] at is_blank
          exact absurd is_blank (by decide)
      rw [quoteArg, if_neg (by simp [plain])] at starts
      obtain ⟨first, inner, rfl⟩ := List.exists_cons_of_ne_nil empty
      have no_blank := needsEscape_eq_false.mp plain
      cases blanks with
      | cons blank blanks =>
        simp only [List.cons_append, List.cons.injEq] at starts
        have is_blank := all blank List.mem_cons_self
        rw [← starts.1, no_blank first List.mem_cons_self] at is_blank
        cases is_blank
      | nil =>
        simp only [List.cons_append, List.nil_append, List.cons.injEq] at starts
        obtain ⟨rfl, starts⟩ := starts
        cases inner with
        | nil =>
          cases rest with
          | nil => simp [behindArg] at starts
          | cons next rest =>
            simp only [List.nil_append, behindArg, List.cons.injEq] at starts
            exact absurd starts.1 (by decide)
        | cons second inner =>
          simp only [List.cons_append, List.cons.injEq] at starts
          obtain ⟨rfl, starts⟩ := starts
          exact ⟨0, inner, rest, rfl, plain, starts.symm⟩

/-- That a line is read as its arguments behind strays needs arguments that survive. -/
def OnlySurvivors (args : List (List UInt8)) : Prop :=
  ∀ strays, (∀ y ∈ strays, Stray y) → scanArgv (joinArgs args) = strays ++ args →
    strays = [] ∧ ∀ arg ∈ args, Survives arg

/-- Reading does not get back in step once it has taken the first byte of an argument away. -/
theorem out_of_step {args : List (List UInt8)} {blanks behind : List UInt8} {ch : UInt8}
    (shorter : ∀ rest : List (List UInt8), rest.length < args.length → OnlySurvivors rest)
    (all : ∀ ch ∈ blanks, isBlank ch = true) (visible : isBlank ch = false) (other : ch ≠ quoteMark)
    (starts : joinArgs args = blanks ++ ch :: quoteMark :: behind)
    (same : scanArgv behind = args) : False := by
  obtain ⟨count, inner, rest, rfl, plain, rfl⟩ := joinArgs_starts all visible other starts
  have no_blank := needsEscape_eq_false.mp plain
  have member : (ch :: quoteMark :: inner) ∈
      List.replicate count [] ++ (ch :: quoteMark :: inner) :: rest := by simp
  -- The argument was read itself, so it has no other quote.
  have no_quote : quoteMark ∉ inner := by
    have once := count_quote_scanArgv _ _ (same ▸ member)
    simp only [List.count_cons_of_ne other, List.count_cons_self] at once
    exact List.count_eq_zero.mp (by omega)
  have stray : ∀ y ∈ List.replicate count [], Stray y := fun y member =>
    Or.inl (List.eq_of_mem_replicate member)
  have quoted : Stray (ch :: quoteMark :: inner) := Or.inr ⟨by simp, plain⟩
  by_cases empty : inner = []
  · -- The arguments behind it would be read with it in front.
    subst empty
    rw [List.nil_append, scanArgv_behindArg] at same
    have fewer : rest.length <
        (List.replicate count [] ++ [ch, quoteMark] :: rest).length := by
      simp only [List.length_append, List.length_cons]
      omega
    have none := shorter rest fewer (List.replicate count [] ++ [[ch, quoteMark]])
      (fun y member => (List.mem_append.mp member).elim (stray y) fun last => by
        rw [List.mem_singleton.mp last]
        exact quoted)
      (by simpa using same)
    simp at none
  · -- What is left of it would be read first.
    rw [scanArgv_word empty (fun ch member => no_blank ch (by simp [member])) no_quote] at same
    obtain ⟨_, _, is_stray, _⟩ | ⟨_, first, _⟩ := first_of_stray stray same
    · exact empty (stray_without_quote no_quote is_stray)
    · rw [first] at no_quote
      simp at no_quote

/-- Blanks are not escaped. -/
theorem escape_blanks {blanks : List UInt8} (all : ∀ ch ∈ blanks, isBlank ch = true) :
    blanks.flatMap escapeByte = blanks := by
  refine escape_self ⟨fun member => ?_, fun member => ?_⟩
  · exact absurd (all _ member) (by decide)
  · exact absurd (all _ member) (by decide)

/-- An escaped argument starts with the same blanks, and goes on with a byte that is none. -/
theorem escape_visible {ch : UInt8} (visible : isBlank ch = false) (rest : List UInt8) :
    ∃ first others, (ch :: rest).flatMap escapeByte = first :: others ∧ isBlank first = false := by
  rw [List.flatMap_cons, escapeByte]
  split
  · exact ⟨backslash, ch :: rest.flatMap escapeByte, rfl, by decide⟩
  · exact ⟨ch, rest.flatMap escapeByte, rfl, visible⟩

/-- An argument that is written as one byte is that byte. -/
theorem escape_single {ch first : UInt8} {rest : List UInt8}
    (single : (ch :: rest).flatMap escapeByte = [first]) : ch = first ∧ rest = [] := by
  have lengths := congrArg List.length single
  rw [List.flatMap_cons, escapeByte] at single lengths
  split at single
  · simp at single
  · simp only [List.singleton_append, List.cons.injEq, List.flatMap_eq_nil_iff] at single
    refine ⟨single.1, List.eq_nil_iff_forall_not_mem.mpr fun other member => ?_⟩
    have empty := single.2 other member
    unfold escapeByte at empty
    split at empty <;> simp at empty

/-- Only an argument without bytes is written without bytes. -/
theorem escape_eq_nil {arg : List UInt8} : arg.flatMap escapeByte = [] ↔ arg = [] := by
  cases arg with
  | nil => simp
  | cons ch rest =>
    have written : escapeByte ch ≠ [] := by
      unfold escapeByte
      split <;> simp
    simp [written]

/-- What is read without a quote, where a quoted argument was written, has no bytes. -/
theorem empty_of_without_quote {strays rest others : List (List UInt8)} {first behind : List UInt8}
    (stray : ∀ y ∈ strays, Stray y) (without : quoteMark ∉ first)
    (same : first :: others = strays ++ (quoteMark :: behind) :: rest) : first = [] := by
  -- It is neither the argument that was written nor a stray one with bytes.
  obtain ⟨_, _, is_stray, _⟩ | ⟨_, is_arg, _⟩ := first_of_stray stray same
  · exact stray_without_quote without is_stray
  · rw [is_arg] at without
    simp at without

/-- The quote behind the blanks at the end of an argument opens another one. -/
theorem quoted_blanks_lost {strays rest : List (List UInt8)} {behind : List UInt8}
    (stray : ∀ y ∈ strays, Stray y)
    (same : scanArgv (quoteMark :: behindArg rest) = strays ++ (quoteMark :: behind) :: rest) :
    False := by
  rw [scanArgv_quote_first] at same
  have without : quoteMark ∉ (behindArg rest).takeWhile inQuotes := fun member => by
    simpa [inQuotes] using List.mem_takeWhile_imp member
  have empty := empty_of_without_quote stray without same
  cases rest with
  | nil =>
    -- At the end of the line only one argument is read.
    obtain ⟨strays', rfl, _, left⟩ | ⟨_, is_arg, _⟩ := first_of_stray stray same
    · simp [behindArg, afterQuotes] at left
    · rw [empty] at is_arg
      simp at is_arg
  | cons next rest =>
    -- Otherwise the argument that it opens starts with a blank.
    rw [behindArg, List.takeWhile_cons_of_pos (by decide)] at empty
    simp at empty

/-- A word up to the quote at the end of an argument is read together with what is behind it. -/
theorem quoted_word_lost {strays rest : List (List UInt8)} {blanks text word : List UInt8}
    {ch first : UInt8}
    (shorter : ∀ left : List (List UInt8), left.length < rest.length → OnlySurvivors left)
    (stray : ∀ y ∈ strays, Stray y) (all : ∀ ch ∈ blanks, isBlank ch = true)
    (visible : isBlank ch = false) (escaped : needsEscape (blanks ++ ch :: text) = true)
    (written : (ch :: text).flatMap escapeByte = first :: word)
    (no_blank : ∀ ch ∈ first :: word, isBlank ch = false) (no_quote : quoteMark ∉ first :: word)
    (same : scanArgv (first :: word ++ quoteMark :: behindArg rest) =
      strays ++ (quoteMark :: (blanks ++ ch :: text)) :: rest) : False := by
  rw [scanArgv_quote no_blank no_quote] at same
  simp only [List.cons_append, List.drop_succ_cons, List.drop_zero] at same
  -- It has a blank unless the line ends, so it is the argument that was written.
  have is_arg : word ++ quoteMark :: (behindArg rest).takeWhile inQuotes =
      quoteMark :: (blanks ++ ch :: text) ∧ scanArgv (afterQuotes (behindArg rest)) = rest := by
    obtain ⟨strays', rfl, is_stray, left⟩ | ⟨_, is_arg⟩ := first_of_stray stray same
    · cases rest with
      | nil => simp [behindArg, afterQuotes] at left
      | cons next rest =>
        have nothing : quoteMark ∉ ([] : List UInt8) := by simp
        have blank := blank_mem_takeWhile nothing (List.cons_ne_nil next rest)
        rw [List.nil_append] at blank
        exact absurd is_stray (not_stray_of_blank (by simp [blank]))
    · exact is_arg
  obtain ⟨is_arg, left⟩ := is_arg
  -- So the word is one byte, and what is behind it is the argument behind its quote.
  have single : word = [] := by
    cases word with
    | nil => rfl
    | cons other word =>
      simp only [List.cons_append, List.cons.injEq] at is_arg
      exact (no_quote (by simp [is_arg.1])).elim
  subst single
  simp only [List.nil_append, List.cons.injEq, true_and] at is_arg
  obtain ⟨rfl, rfl⟩ := escape_single written
  obtain ⟨next, later, rfl⟩ : ∃ next later, rest = next :: later := by
    refine List.exists_cons_of_ne_nil ?_
    rintro rfl
    simp [behindArg] at is_arg
  obtain ⟨blank, blanks, rfl⟩ : ∃ blank others, blanks = blank :: others := by
    refine List.exists_cons_of_ne_nil ?_
    rintro rfl
    simp [needsEscape, visible] at escaped
  have line : behindArg (next :: later) = 32 :: joinArgs (next :: later) := rfl
  have split := (List.takeWhile_append_dropWhile (p := inQuotes)
    (l := behindArg (next :: later))).symm
  cases after : (behindArg (next :: later)).dropWhile inQuotes with
  | nil =>
    rw [afterQuotes, after, List.drop_nil, scanArgv_nil] at left
    cases left
  | cons quote behind =>
    have stopped := List.head?_dropWhile_not inQuotes (behindArg (next :: later))
    rw [after] at stopped
    obtain rfl : quote = quoteMark := by simpa [inQuotes] using stopped
    rw [is_arg, after, line] at split
    simp only [List.cons_append, List.append_assoc, List.nil_append, List.cons.injEq] at split
    rw [afterQuotes, after, List.drop_succ_cons, List.drop_zero] at left
    refine out_of_step shorter (fun ch member => all ch (List.mem_cons_of_mem _ member)) visible
      ?_ split.2 left
    rintro rfl
    exact no_quote (by simp)

/-- What comes behind the first quote of an argument in quotes does not lead to that argument. -/
theorem quoted_tail_lost {strays rest : List (List UInt8)} {behind : List UInt8}
    (shorter : ∀ left : List (List UInt8), left.length < rest.length → OnlySurvivors left)
    (stray : ∀ y ∈ strays, Stray y) (no_quote : quoteMark ∉ behind)
    (escaped : needsEscape behind = true)
    (same : scanArgv (behind.flatMap escapeByte ++ quoteMark :: behindArg rest) =
      strays ++ (quoteMark :: behind) :: rest) : False := by
  have all : ∀ ch ∈ behind.takeWhile isBlank, isBlank ch = true := fun ch member =>
    List.mem_takeWhile_imp member
  have stops := List.head?_dropWhile_not isBlank behind
  have split := (List.takeWhile_append_dropWhile (p := isBlank) (l := behind)).symm
  generalize behind.takeWhile isBlank = blanks at all split
  generalize behind.dropWhile isBlank = text at stops split
  subst split
  rw [List.flatMap_append, escape_blanks all, List.append_assoc, scanArgv_blanks all] at same
  cases text with
  | nil => exact quoted_blanks_lost stray same
  | cons ch text =>
    have visible : isBlank ch = false := by simpa using stops
    obtain ⟨first, others, written, first_visible⟩ := escape_visible visible text
    have no_written : quoteMark ∉ first :: others := by
      rw [← written, quote_mem_escape]
      exact fun member => no_quote (List.mem_append_right _ member)
    rw [written] at same
    by_cases no_blank : ∀ ch ∈ first :: others, isBlank ch = false
    · exact quoted_word_lost shorter stray all visible escaped written no_blank no_written same
    · -- A word with a byte and without a quote is read first.
      simp only [not_forall, Bool.not_eq_false] at no_blank
      obtain ⟨blank, member, is_blank⟩ := no_blank
      obtain ⟨_, word, after, before, found, cut, _⟩ :=
        List.exists_of_eraseP (p := isBlank) member is_blank
      have some_byte : word ≠ [] := by
        rintro rfl
        simp only [List.nil_append, List.cons.injEq] at cut
        rw [← cut.1, first_visible] at found
        cases found
      have no_word : quoteMark ∉ word := fun member => no_written (by simp [cut, member])
      rw [cut, List.append_assoc, List.cons_append, scanArgv_blank some_byte
        (fun ch member => by simpa using before ch member) no_word found] at same
      exact some_byte (empty_of_without_quote stray no_word same)

/-- An argument in quotes with a quote of its own is not read back. -/
theorem quoted_quote_lost {strays rest : List (List UInt8)} {front behind : List UInt8}
    (shorter : ∀ left : List (List UInt8), left.length < rest.length → OnlySurvivors left)
    (stray : ∀ y ∈ strays, Stray y) (no_front : quoteMark ∉ front) (no_behind : quoteMark ∉ behind)
    (escaped : needsEscape (front ++ quoteMark :: behind) = true)
    (same : scanArgv (quoteArg (front ++ quoteMark :: behind) ++ behindArg rest) =
      strays ++ (front ++ quoteMark :: behind) :: rest) : False := by
  have single : escapeByte quoteMark = [quoteMark] := by decide
  have no_written : quoteMark ∉ front.flatMap escapeByte := by rwa [quote_mem_escape]
  have read := scanArgv_quoted no_written
    (behind.flatMap escapeByte ++ quoteMark :: behindArg rest)
  have line : quoteArg (front ++ quoteMark :: behind) ++ behindArg rest =
      quoteMark :: (front.flatMap escapeByte ++
        quoteMark :: (behind.flatMap escapeByte ++ quoteMark :: behindArg rest)) := by
    simp [quoteArg, escaped, single]
  rw [line, read] at same
  obtain ⟨strays', rfl, is_stray, left⟩ | ⟨_, first, _⟩ := first_of_stray stray same
  · -- Nothing stands in front of the quote, or it would be read as an argument.
    have empty := stray_without_quote no_written is_stray
    obtain rfl := escape_eq_nil.mp empty
    refine quoted_tail_lost shorter (fun y member => stray y (List.mem_cons_of_mem _ member))
      no_behind ?_ left
    simpa [needsEscape, quoteMark, isBlank] using escaped
  · rw [first] at no_written
    simp at no_written

/-- A line is only read as its arguments if each of them survives. -/
theorem onlySurvivors (args : List (List UInt8)) : OnlySurvivors args := by
  -- The induction is on the number of arguments, with any number of strays in front.
  induction count : args.length using Nat.strong_induction_on generalizing args with
  | _ count ih =>
    subst count
    intro strays stray same
    cases args with
    | nil =>
      simp only [joinArgs, scanArgv_nil, List.append_nil] at same
      exact ⟨same.symm, by simp⟩
    | cons arg rest =>
      have shorter : ∀ left : List (List UInt8), left.length < (arg :: rest).length →
          OnlySurvivors left := fun left fewer => ih left.length fewer left rfl
      have next := shorter rest (by simp)
      rw [joinArgs_cons] at same
      -- What comes first decides where the line is read wrong.
      by_cases empty : arg = []
      · -- An empty argument leaves no trace on the line.
        subst empty
        have nothing : quoteArg [] = [] := rfl
        rw [nothing, List.nil_append, scanArgv_behindArg] at same
        have none := (next (strays ++ [[]]) (fun y member => (List.mem_append.mp member).elim
          (stray y) fun last => Or.inl (List.mem_singleton.mp last)) (by simpa using same)).1
        simp at none
      by_cases quoted : quoteMark ∈ arg
      · -- An argument with a quote is not read back.
        have member : arg ∈ scanArgv (quoteArg arg ++ behindArg rest) := by simp [same]
        have once := count_quote_scanArgv _ arg member
        obtain ⟨front, behind, rfl, no_front, no_behind⟩ := split_quote quoted once
        cases escaped : needsEscape (front ++ quoteMark :: behind) with
        | false =>
          rw [quoteArg, if_neg (by simp [escaped])] at same
          exact (plain_quote_lost stray no_front no_behind escaped same).elim
        | true =>
          exact (quoted_quote_lost (fun left fewer => shorter left (Nat.lt_succ_of_lt fewer)) stray
            no_front no_behind escaped same).elim
      -- Every other argument is read as it was written.
      have read : scanArgv (quoteArg arg ++ behindArg rest) =
          (if needsEscape arg then arg.flatMap escapeByte else arg) :: scanArgv (joinArgs rest) := by
        cases escaped : needsEscape arg with
        | false =>
          rw [quoteArg, if_neg (by simp [escaped])]
          exact scanArgv_word empty (needsEscape_eq_false.mp escaped) quoted rest
        | true =>
          have unquoted : quoteMark ∉ arg.flatMap escapeByte := by rwa [quote_mem_escape]
          have line := scanArgv_quoted unquoted (behindArg rest)
          rw [scanArgv_behindArg] at line
          simpa [quoteArg, escaped] using line
      rw [read] at same
      obtain ⟨_, _, is_stray, _⟩ | ⟨rfl, first, left⟩ := first_of_stray stray same
      · -- No stray argument has bytes but no quote.
        cases escaped : needsEscape arg with
        | false =>
          rw [if_neg (by simp [escaped])] at is_stray
          exact (empty (stray_without_quote quoted is_stray)).elim
        | true =>
          rw [if_pos escaped] at is_stray
          exact (empty (escape_eq_nil.mp
            (stray_without_quote (by rwa [quote_mem_escape]) is_stray))).elim
      · have survive := next [] (by simp) (by simpa using left)
        refine ⟨rfl, fun other member => ?_⟩
        rcases List.mem_cons.mp member with rfl | member
        · refine ⟨empty, quoted, fun escaped => ?_⟩
          rw [if_pos escaped] at first
          exact escape_self_iff.mp first
        · exact survive.2 other member

/-- An argument that survives is read in front of the others. -/
theorem scanArgv_survivor {arg : List UInt8} (survives : Survives arg)
    (rest : List (List UInt8)) :
    scanArgv (quoteArg arg ++ behindArg rest) = arg :: scanArgv (joinArgs rest) := by
  obtain ⟨some_byte, no_quote, plain⟩ := survives
  cases escaped : needsEscape arg with
  | false =>
    rw [quoteArg, if_neg (by simp [escaped])]
    exact scanArgv_word some_byte (needsEscape_eq_false.mp escaped) no_quote rest
  | true =>
    have line := scanArgv_quoted no_quote (behindArg rest)
    rw [scanArgv_behindArg] at line
    simpa [quoteArg, escaped, escape_self (plain escaped)] using line

/-- A line is read as its arguments exactly if each of them survives. -/
theorem scanArgv_joinArgs_iff (args : List (List UInt8)) :
    scanArgv (joinArgs args) = args ↔ ∀ arg ∈ args, Survives arg := by
  refine ⟨fun same => (onlySurvivors args [] (by simp) same).2, fun survive => ?_⟩
  -- The arguments are read one after the other.
  induction args with
  | nil => simp [joinArgs]
  | cons arg rest ih =>
    rw [joinArgs_cons, scanArgv_survivor (survive arg List.mem_cons_self),
      ih fun other member => survive other (List.mem_cons_of_mem _ member)]

/-! The memory the command line takes -/

/-- The bytes of an argument on the command line, with the blank or the zero behind it. -/
def argBytes (arg : CString) : Nat :=
  arg.bytes.length + (if needsEscape arg.bytes then 2 else 0) + 1

/-- The bytes of the arguments on the command line; without any there is a zero. -/
def lineBytes : List CString → Nat
  | [] => 1
  | [arg] => argBytes arg
  | arg :: next :: rest => argBytes arg + lineBytes (next :: rest)

/-- Whether the environment and the command line fit in the block they are written to. -/
def PibFits (src : PibSource) : Prop :=
  (environmentBytes src).length + 2 * (src.argv0.bytes.length + 1) + lineBytes src.args ≤
    environmentBlock

/-- The number of blanks on a command line is that of the gaps at least. -/
theorem countP_joinArgs (arg : List UInt8) (rest : List (List UInt8)) :
    rest.length ≤ (joinArgs (arg :: rest)).countP isBlank := by
  induction rest generalizing arg with
  | nil => simp
  | cons next rest ih =>
    have later := ih next
    rw [joinArgs_cons, behindArg, List.countP_append, List.countP_cons]
    simp [isBlank] at later ⊢
    omega

/-- The size of a command line whose arguments survive. -/
theorem length_joinArgs {args : List CString} (survive : ∀ arg ∈ args, Survives arg.bytes) :
    (joinArgs (args.map CString.bytes)).length + 1 = lineBytes args := by
  induction args with
  | nil => rfl
  | cons arg rest ih =>
    have later := ih fun other member => survive other (List.mem_cons_of_mem _ member)
    have written : (quoteArg arg.bytes).length + 1 = argBytes arg := by
      unfold quoteArg argBytes
      split
      · rename_i escaped
        rw [escape_self ((survive arg List.mem_cons_self).2.2 escaped)]
        simp
      · rfl
    cases rest with
    | nil =>
      simpa [joinArgs, lineBytes] using written
    | cons next rest =>
      simp only [List.map_cons, joinArgs_cons arg.bytes, behindArg, List.length_append,
        List.length_cons, lineBytes] at later ⊢
      omega

/-- The bytes of the arguments that survive, each with a zero, are no more than those written. -/
theorem length_flatMap_stored {args : List (List UInt8)} (survive : ∀ arg ∈ args, Survives arg) :
    (args.flatMap stored).length ≤ (joinArgs args).length + 1 := by
  induction args with
  | nil => simp
  | cons arg rest ih =>
    have later := ih fun other member => survive other (List.mem_cons_of_mem _ member)
    have written : arg.length ≤ (quoteArg arg).length := by
      unfold quoteArg
      split
      · rename_i escaped
        rw [escape_self ((survive arg List.mem_cons_self).2.2 escaped)]
        simp only [List.length_cons, List.length_append, List.length_nil]
        omega
      · exact le_rfl
    rw [joinArgs_cons]
    cases rest with
    | nil =>
      simp only [List.flatMap_cons, List.flatMap_nil, stored, List.length_append, List.length_cons,
        List.length_nil, behindArg]
      omega
    | cons next rest =>
      simp only [List.flatMap_cons, stored, List.length_append, List.length_cons,
        List.length_nil, behindArg] at later ⊢
      omega

/-- No byte of a command line is zero. -/
theorem joinArgs_noNul (args : List CString) : 0 ∉ joinArgs (args.map CString.bytes) := by
  have escaped : ∀ {bytes : List UInt8}, 0 ∉ bytes → 0 ∉ quoteArg bytes := by
    intro bytes noNul member
    unfold quoteArg at member
    split at member
    · have single : ∀ ch, 0 ∈ escapeByte ch → ch = 0 := by
        intro ch member
        unfold escapeByte at member
        split at member
        · simpa [backslash, eq_comm] using member
        · simpa [eq_comm] using member
      have inside : 0 ∈ bytes.flatMap escapeByte := by simpa [quoteMark] using member
      obtain ⟨ch, found, zero⟩ := List.mem_flatMap.mp inside
      exact noNul (single ch zero ▸ found)
    · exact noNul member
  induction args with
  | nil => simp [joinArgs]
  | cons arg rest ih =>
    rw [List.map_cons, joinArgs_cons]
    intro member
    rcases List.mem_append.mp member with member | member
    · exact escaped arg.noNul member
    · cases rest with
      | nil => simp [behindArg] at member
      | cons next rest => exact ih (by simpa [behindArg] using member)

/-- The arguments that `calcArgv` makes of the command line of a process. -/
theorem calcArgv_commandLine (malloc : Bool) (argv0 : CString) (args : List CString) :
    calcArgv malloc (commandLine argv0 args) =
      if argv0.bytes = [] then some (.error .errorBadEnvironment)
      else if !malloc then some (.error .errorNotEnoughMemory)
      else
        let text := joinArgs (args.map CString.bytes)
        let argv := argv0.bytes :: scanArgv text
        if argv.length + 1 ≤ argvPointers text + 1 ∧
            (argvPointers text + 1) * pointerSize + (argv.flatMap stored).length ≤
              argvSize argv0.bytes text then
          some (.ok argv)
        else none := by
  have text := readString_stored (joinArgs_noNul args) []
  rw [List.append_nil] at text
  simp only [calcArgv, commandLine, readString_stored argv0.noNul, afterString_stored argv0.noNul,
    text, scanArgv]
  rfl

/--
The arguments of a process come back from its command line exactly if all of them survive.

They have to fit in the block, there has to be memory, and the program needs a name.
-/
theorem argv_round_trip_iff (src : PibSource) (malloc : Bool) :
    (∃ pib, initPib src = some pib ∧ calcArgv malloc (pib.block.drop pib.pchcmd) =
        some (.ok (src.argv0.bytes :: src.args.map CString.bytes))) ↔
      PibFits src ∧ malloc = true ∧ src.argv0.bytes ≠ [] ∧
        ∀ arg ∈ src.args, Survives arg.bytes := by
  have filled : ∀ pib, initPib src = some pib →
      pib.block.drop pib.pchcmd = commandLine src.argv0 src.args := by
    intro pib filled
    unfold initPib at filled
    simp only [Option.ite_none_right_eq_some, Option.some.injEq] at filled
    obtain ⟨_, rfl⟩ := filled
    exact List.drop_left
  have survive_iff : (∀ arg ∈ src.args.map CString.bytes, Survives arg) ↔
      ∀ arg ∈ src.args, Survives arg.bytes := by simp
  have fits_iff (survive : ∀ arg ∈ src.args, Survives arg.bytes) :
      PibFits src ↔ (initPib src).isSome := by
    have size := length_joinArgs survive
    simp only [initPib, PibFits, commandLine, stored, List.length_append, List.length_cons,
      List.length_nil]
    split <;> simp <;> omega
  constructor
  · rintro ⟨pib, made, back⟩
    rw [filled pib made, calcArgv_commandLine] at back
    by_cases named : src.argv0.bytes = []
    · simp [named] at back
    · cases malloc with
      | false => simp [named] at back
      | true =>
        simp only [if_neg named, Bool.not_true, Bool.false_eq_true, if_false,
          Option.ite_none_right_eq_some, Option.some.injEq, Except.ok.injEq, List.cons.injEq,
          true_and] at back
        have survive := survive_iff.mp ((scanArgv_joinArgs_iff _).mp back.2)
        exact ⟨(fits_iff survive).mpr (by simp [made]), rfl, named, survive⟩
  · rintro ⟨fits, rfl, named, survive⟩
    obtain ⟨pib, made⟩ := Option.isSome_iff_exists.mp ((fits_iff survive).mp fits)
    refine ⟨pib, made, ?_⟩
    have back := (scanArgv_joinArgs_iff _).mpr (survive_iff.mpr survive)
    have strings := length_flatMap_stored (survive_iff.mpr survive)
    have pointers : (src.args.map CString.bytes).length ≤
        (joinArgs (src.args.map CString.bytes)).countP isBlank + 1 := by
      cases src.args with
      | nil => simp
      | cons arg rest =>
        have gaps := countP_joinArgs arg.bytes (rest.map CString.bytes)
        simp only [List.map_cons, List.length_cons] at gaps ⊢
        omega
    rw [filled pib made, calcArgv_commandLine, if_neg named]
    simp only [Bool.not_true, Bool.false_eq_true, if_false, back]
    rw [if_pos]
    simp only [List.length_cons, List.flatMap_cons, List.length_append, stored, List.length_nil,
      argvPointers, argvSize, pointerSize] at strings pointers ⊢
    constructor <;> omega

/-- A path with a blank, as it stands in an argument. -/
def pathArgument : PibSource where
  path := ⟨[], by simp⟩
  subprocess := false
  envp := []
  argv0 := ⟨[112], by simp⟩
  args := [⟨[67, 58, 92, 77, 32, 68], by decide⟩]
  pid := 1
  ppid := 1

/-- A path with a blank comes back with its backslash doubled. -/
theorem path_argument_changed :
    ¬ ∃ pib, initPib pathArgument = some pib ∧ calcArgv true (pib.block.drop pib.pchcmd) =
      some (.ok (pathArgument.argv0.bytes :: pathArgument.args.map CString.bytes)) := by
  have made : initPib pathArgument = some
      ⟨[0, 112, 0, 112, 0, 34, 67, 58, 92, 92, 77, 32, 68, 34, 0], [], 1, 1, 3, 0⟩ := by
    decide +kernel
  rintro ⟨pib, again, back⟩
  cases made.symm.trans again
  -- The program reads the argument with both backslashes.
  have unquoted : quoteMark ∉ ([67, 58, 92, 92, 77, 32, 68] : List UInt8) := by decide
  have text : calcArgvWords [] [34, 67, 58, 92, 92, 77, 32, 68, 34] =
      [[67, 58, 92, 92, 77, 32, 68]] := by
    simpa [scanArgv, quoteMark, isBlank, calcArgvWords] using scanArgv_quoted unquoted []
  simp [calcArgv, readString, afterString, isBlank, text, pathArgument] at back

end TwoIne
