import TwoIne.DosCalls.ExecBlocks
import TwoIne.Proofs.DosCalls.ExecPgm

/-!
The arguments of a new process stand in their memory, unless there are more quoted ones than blanks
between them.
-/

namespace TwoIne

open CStrings PointerBlocks

/-- Where a reader of arguments is: between them, in a bare one, or in a quoted one. -/
inductive Reading where
  | between
  | word
  | quoted
  deriving DecidableEq, Repr

/-- Where a reader is after one more byte. -/
def Reading.next : Reading → UInt8 → Reading
  | .quoted, ch => if ch = quoteMark then .between else .quoted
  | _, ch => if isBlank ch then .between else if ch = quoteMark then .quoted else .word

/-- Where a reader is at the end of a text. -/
def Reading.finish : Reading → List UInt8 → Reading := List.foldl Reading.next

/-- The number of bytes that are read in some way. -/
def countReading (counts : Reading → UInt8 → Bool) : Reading → List UInt8 → Nat
  | _, [] => 0
  | reading, ch :: src =>
    (if counts reading ch then 1 else 0) + countReading counts (reading.next ch) src

/-- The number of blanks that end a bare argument. -/
def endingBlanks : Reading → List UInt8 → Nat :=
  countReading fun reading ch => isBlank ch && reading == .word

/-- The number of blanks that end no bare argument. -/
def looseBlanks : Reading → List UInt8 → Nat :=
  countReading fun reading ch => isBlank ch && reading != .word

/-- The number of bytes that are copied: all but quotes, and blanks that are not quoted. -/
def copiedBytes : Reading → List UInt8 → Nat :=
  countReading fun reading ch => ch != quoteMark && (reading == .quoted || !isBlank ch)

/-- Whether a text ends with a bare argument. -/
def bareEnd (reading : Reading) (text : List UInt8) : Nat :=
  if reading.finish text = .word then 1 else 0

/-- The number of quotes. -/
def quotes (text : List UInt8) : Nat := text.count quoteMark

/-- The number of arguments: two quotes enclose one, and the last quote may be alone. -/
def argumentCount (text : List UInt8) : Nat :=
  (quotes text + 1) / 2 + endingBlanks .between text + bareEnd .between text

/--
The arguments of a text fit where their memory is: there are no more quoted ones than blanks that
end no bare one, but for one. Where the size is no number of the host, what is left of it is enough.
-/
def ArgvFits (argv0 text : List UInt8) : Prop :=
  if argvSize argv0 text < 2 ^ 32 then
    (quotes text + 1) / 2 + bareEnd .between text ≤ looseBlanks .between text + 1
  else
    (argumentCount text + 2) * pointerSize ≤ sizeT ((argvPointers text + 1) * pointerSize) ∧
      sizeT ((argvPointers text + 1) * pointerSize) + (argv0.length + 1) +
        (copiedBytes .between text + argumentCount text) ≤ sizeT (argvSize argv0 text)

/-- A command line as it stands in memory, with whatever is behind it. -/
def argumentMemory (argv0 text : CString) (rest : List UInt8) : List UInt8 :=
  stored argv0.bytes ++ (stored text.bytes ++ rest)

/--
Whenever arguments are returned, the pointers were put in front of the strings, which stand in the
memory that was asked for and do not overlap, and one that leads nowhere is behind the others.
-/
def ArgvLaid (argv0 text : CString) (rest : List UInt8) : Prop :=
  ∀ malloc, ∃ result, calcArgvBlock malloc (argumentMemory argv0 text rest) = some result ∧
    ∀ out, result = .ok out → out.slots * pointerSize ≤ out.area ∧
      ∃ places, out.block.Laid pointerSize out.area (argv0.bytes :: scanArgv text.bytes) places

/-! Counting arguments -/

/-- A reader that is not in a bare argument yet, or in one that has some bytes. -/
def readingOf (word : List UInt8) : Reading := if word = [] then .between else .word

/-- The arguments that end in a text, and their bytes. -/
structure ReadingEnds (reading : Reading) (text : List UInt8) (count bytes : Nat) : Prop where
  count : count = (quotes text + if reading = .quoted then 2 else 1) / 2 +
    endingBlanks reading text + bareEnd reading text
  bytes : bytes = copiedBytes reading text

variable {reading : Reading} {text src : List UInt8} {ch : UInt8} {count bytes : Nat}

/-- A text ends as what is behind its first byte does. -/
@[simp] theorem bareEnd_cons : bareEnd reading (ch :: src) = bareEnd (reading.next ch) src := rfl

/-- The first byte may be a blank that ends a bare argument. -/
@[simp] theorem endingBlanks_cons : endingBlanks reading (ch :: src) =
    (if isBlank ch && reading == .word then 1 else 0) + endingBlanks (reading.next ch) src := rfl

/-- The first byte may be a blank that ends no bare argument. -/
@[simp] theorem looseBlanks_cons : looseBlanks reading (ch :: src) =
    (if isBlank ch && reading != .word then 1 else 0) + looseBlanks (reading.next ch) src := rfl

/-- The first byte may be copied. -/
@[simp] theorem copiedBytes_cons : copiedBytes reading (ch :: src) =
    (if ch != quoteMark && (reading == .quoted || !isBlank ch) then 1 else 0) +
      copiedBytes (reading.next ch) src := rfl

/-- The first byte may be a quote. -/
@[simp] theorem quotes_cons : quotes (ch :: src) =
    quotes src + if ch = quoteMark then 1 else 0 := by
  simp [quotes, List.count_cons]

/-- A blank behind a bare argument ends it. -/
theorem ReadingEnds.blank (ends : ReadingEnds .between src count bytes) (blank : isBlank ch = true) :
    ReadingEnds .word (ch :: src) (count + 1) bytes ∧ ReadingEnds .between (ch :: src) count bytes := by
  obtain ⟨rfl, rfl⟩ := ends
  have other : ch ≠ quoteMark := by
    rintro rfl
    exact absurd blank (by decide)
  refine ⟨⟨?_, ?_⟩, ⟨?_, ?_⟩⟩
  · simp [Reading.next, blank, other]
    omega
  · simp [Reading.next, blank]
  · simp [Reading.next, blank, other]
  · simp [Reading.next, blank]

/-- A quote opens an argument. -/
theorem ReadingEnds.opens (ends : ReadingEnds .quoted src count bytes) (outside : reading ≠ .quoted) :
    ReadingEnds reading (quoteMark :: src) count bytes := by
  obtain ⟨rfl, rfl⟩ := ends
  have plain : isBlank quoteMark = false := by decide
  cases reading with
  | quoted => exact absurd rfl outside
  | between =>
    constructor
    · simp [Reading.next, plain]
      omega
    · simp [Reading.next, plain]
  | word =>
    constructor
    · simp [Reading.next, plain]
      omega
    · simp [Reading.next, plain]

/-- A quote ends the argument that one opened. -/
theorem ReadingEnds.closes (ends : ReadingEnds .between src count bytes) :
    ReadingEnds .quoted (quoteMark :: src) (count + 1) bytes := by
  obtain ⟨rfl, rfl⟩ := ends
  constructor
  · simp [Reading.next]
    omega
  · simp [Reading.next]

/-- A byte between quotes. -/
theorem ReadingEnds.inner (ends : ReadingEnds .quoted src count bytes) (other : ch ≠ quoteMark) :
    ReadingEnds .quoted (ch :: src) count (bytes + 1) := by
  obtain ⟨rfl, rfl⟩ := ends
  constructor
  · simp [Reading.next, other]
  · simp [Reading.next, other]
    omega

/-- A byte of a bare argument. -/
theorem ReadingEnds.plain (ends : ReadingEnds .word src count bytes) (visible : isBlank ch = false)
    (other : ch ≠ quoteMark) (outside : reading ≠ .quoted) :
    ReadingEnds reading (ch :: src) count (bytes + 1) := by
  obtain ⟨rfl, rfl⟩ := ends
  cases reading with
  | quoted => exact absurd rfl outside
  | between =>
    constructor
    · simp [Reading.next, other, visible]
    · simp [Reading.next, other, visible]
      omega
  | word =>
    constructor
    · simp [Reading.next, other, visible]
    · simp [Reading.next, other, visible]
      omega

/-- Blanks between arguments end none. -/
theorem ends_skip (ends : ReadingEnds .between (src.dropWhile isBlank) count bytes) :
    ReadingEnds .between src count bytes := by
  induction src with
  | nil => exact ends
  | cons ch src ih =>
    by_cases blank : isBlank ch = true
    · rw [List.dropWhile_cons_of_pos blank] at ends
      exact ((ih ends).blank blank).2
    · rwa [List.dropWhile_cons_of_neg blank] at ends

/-- A quoted argument goes up to the next quote, or to the end. -/
theorem ends_quoted (ends : ReadingEnds .between (afterQuotes src) count bytes) :
    ReadingEnds .quoted src (count + 1) ((src.takeWhile inQuotes).length + bytes) := by
  induction src with
  | nil =>
    obtain ⟨rfl, rfl⟩ := ends
    exact ⟨rfl, rfl⟩
  | cons ch src ih =>
    by_cases other : ch = quoteMark
    · subst other
      have stops : inQuotes quoteMark = false := by decide
      rw [afterQuotes, List.dropWhile_cons_of_neg (by simp [stops]), List.drop_one,
        List.tail_cons] at ends
      rw [List.takeWhile_cons_of_neg (by simp [stops]), List.length_nil, Nat.zero_add]
      exact ends.closes
    · have goes : inQuotes ch = true := by simp [inQuotes, other]
      rw [afterQuotes, List.dropWhile_cons_of_pos goes] at ends
      rw [List.takeWhile_cons_of_pos goes, List.length_cons]
      have inner := (ih ends).inner other
      rw [Nat.add_right_comm] at inner
      exact inner

/-- The arguments of a text are those that end in it, with the bytes of the one that is read. -/
theorem calcArgvWords_ends (word text : List UInt8)
    (visible : word = [] → ∀ ch src, text = ch :: src → isBlank ch = false) :
    ∃ bytes, ReadingEnds (readingOf word) text (calcArgvWords word text).length bytes ∧
      (calcArgvWords word text).flatten.length = word.length + bytes := by
  induction word, text using calcArgvWords.induct with
  | case1 =>
    exact ⟨0, ⟨by rw [calcArgvWords]; rfl, rfl⟩, by rw [calcArgvWords]; rfl⟩
  | case2 word some_word =>
    rw [calcArgvWords, if_neg some_word]
    refine ⟨0, ⟨?_, rfl⟩, by simp⟩
    simp only [readingOf, some_word, if_false]
    rfl
  | case3 word ch src blank ih =>
    have some_word : word ≠ [] := by
      intro empty
      cases blank.symm.trans (visible empty ch src rfl)
    obtain ⟨bytes, ends, total⟩ := ih (fun _ ch rest same => by
      have first := List.head?_dropWhile_not isBlank src
      rw [same] at first
      simpa using first)
    rw [calcArgvWords, if_pos blank]
    refine ⟨bytes, ?_, ?_⟩
    · rw [readingOf, if_neg some_word]
      exact ((ends_skip ends).blank blank).1
    · simp [total]
  | case4 word src visible_quote ih =>
    obtain ⟨bytes, ends, total⟩ := ih (fun _ ch rest same => by
      have first := List.head?_dropWhile_not isBlank (afterQuotes src)
      rw [same] at first
      simpa using first)
    have quote_first : calcArgvWords word (quoteMark :: src) =
        (word ++ quoteMark :: src.takeWhile inQuotes).drop 1 ::
          calcArgvWords [] ((afterQuotes src).dropWhile isBlank) := by
      rw [calcArgvWords, if_neg visible_quote, if_pos rfl]
    rw [quote_first]
    have outside : readingOf word ≠ .quoted := by
      unfold readingOf
      split <;> simp
    refine ⟨_, (ends_quoted (ends_skip ends)).opens outside, ?_⟩
    simp only [List.flatten_cons, List.length_append, List.length_drop, List.length_cons, total,
      List.length_nil]
    omega
  | case5 word ch src no_blank no_quote ih =>
    obtain ⟨bytes, ends, total⟩ := ih (fun empty => by simp at empty)
    have step : calcArgvWords word (ch :: src) = calcArgvWords (word ++ [ch]) src := by
      rw [calcArgvWords, if_neg no_blank, if_neg no_quote]
    rw [step]
    have outside : readingOf word ≠ .quoted := by
      unfold readingOf
      split <;> simp
    have reading : readingOf (word ++ [ch]) = .word := by simp [readingOf]
    rw [reading] at ends
    refine ⟨bytes + 1, ends.plain (by simpa using no_blank) no_quote outside, ?_⟩
    rw [total, List.length_append, List.length_singleton]
    omega

/-- Every blank ends a bare argument or none. -/
theorem endingBlanks_add_looseBlanks (reading : Reading) (text : List UInt8) :
    endingBlanks reading text + looseBlanks reading text = text.countP isBlank := by
  induction text generalizing reading with
  | nil => rfl
  | cons ch src ih =>
    rw [endingBlanks_cons, looseBlanks_cons, List.countP_cons, ← ih (reading.next ch)]
    by_cases blank : isBlank ch = true
    · by_cases word : reading = .word
      · simp [blank, word]
        omega
      · simp [blank, word]
        omega
    · simp [blank]

/-- No more bytes are copied than there are. -/
theorem copiedBytes_le (reading : Reading) (text : List UInt8) :
    copiedBytes reading text ≤ text.length := by
  induction text generalizing reading with
  | nil => exact Nat.le_refl _
  | cons ch src ih =>
    rw [copiedBytes_cons, List.length_cons]
    have later := ih (reading.next ch)
    split <;> omega

/-- The arguments of a text, and the bytes of all of them. -/
theorem scanArgv_count (text : List UInt8) :
    (scanArgv text).length = argumentCount text ∧
      (scanArgv text).flatten.length = copiedBytes .between text := by
  obtain ⟨bytes, ends, total⟩ := calcArgvWords_ends [] (text.dropWhile isBlank) (by
    intro _ ch rest same
    have first := List.head?_dropWhile_not isBlank text
    rw [same] at first
    simpa using first)
  obtain ⟨count, copied⟩ := ends_skip ends
  exact ⟨count, by rw [scanArgv, total, copied]; simp⟩

/-- Strings need their bytes and one zero each. -/
theorem allStored_length (strings : List (List UInt8)) :
    (allStored strings).length = strings.flatten.length + strings.length := by
  induction strings with
  | nil => rfl
  | cons string rest ih =>
    simp only [allStored] at ih
    simp only [allStored, List.flatMap_cons, List.length_append, stored_length, ih,
      List.flatten_cons, List.length_cons]
    omega

/-! Writing arguments -/

/-- The memory of a command line is read back. -/
theorem argumentMemory_read (argv0 text : CString) (rest : List UInt8) :
    readString (argumentMemory argv0 text rest) = argv0.bytes ∧
      readString (afterString (argumentMemory argv0 text rest)) = text.bytes := by
  unfold argumentMemory
  rw [readString_stored argv0.noNul, afterString_stored argv0.noNul, readString_stored text.noNul]
  exact ⟨rfl, rfl⟩

/-- Arguments stand in their memory exactly if they fit there. -/
theorem argv_laid_iff_room {argv0 text : CString} (named : argv0.bytes ≠ [])
    (rest : List UInt8) :
    ArgvLaid argv0 text rest ↔
      (argumentCount text.bytes + 2) * pointerSize ≤
          sizeT ((argvPointers text.bytes + 1) * pointerSize) ∧
        sizeT ((argvPointers text.bytes + 1) * pointerSize) + (argv0.bytes.length + 1) +
            (copiedBytes .between text.bytes + argumentCount text.bytes) ≤
          sizeT (argvSize argv0.bytes text.bytes) := by
  obtain ⟨first, second⟩ := argumentMemory_read argv0 text rest
  obtain ⟨count, copied⟩ := scanArgv_count text.bytes
  have slots : (argv0.bytes :: scanArgv text.bytes).length + 1 = argumentCount text.bytes + 2 := by
    rw [List.length_cons, count]
  have strings : (allStored (argv0.bytes :: scanArgv text.bytes)).length =
      argv0.bytes.length + 1 + (copiedBytes .between text.bytes + argumentCount text.bytes) := by
    rw [allStored_length, List.flatten_cons, List.length_append, List.length_cons, copied, count]
    omega
  generalize sized : sizeT (argvSize argv0.bytes text.bytes) = size
  generalize placed : sizeT ((argvPointers text.bytes + 1) * pointerSize) = area
  have called : calcArgvBlock true (argumentMemory argv0 text rest) =
      ((Cursor.putAll pointerSize ⟨.new size, 0, area⟩
        (argv0.bytes :: scanArgv text.bytes)).bind fun c => c.point pointerSize none).map
          fun c => .ok ⟨c.block, c.idx, area⟩ := by
    simp only [calcArgvBlock, first, second, if_neg named, sized, placed]
    rfl
  rw [← slots, Nat.add_assoc area, ← strings]
  constructor
  · intro laid
    obtain ⟨result, same, whole⟩ := laid true
    rw [called] at same
    obtain ⟨d, put, equal⟩ := Option.map_eq_some_iff.mp same
    obtain ⟨c, all, ended⟩ := Option.bind_eq_some_iff.mp put
    obtain ⟨fits, _, idx⟩ := putAll_inside all
    obtain ⟨_, _, total, _⟩ := point_inside ended
    obtain ⟨reserved, _⟩ := whole _ equal.symm
    refine ⟨?_, fits (by simp)⟩
    rw [total, idx, Nat.zero_add] at reserved
    exact reserved
  · intro both
    obtain ⟨reserved, fits⟩ := both
    intro malloc
    cases malloc with
    | false =>
      refine ⟨.error .errorNotEnoughMemory, ?_, fun out same => by cases same⟩
      simp [calcArgvBlock, first, named]
    | true =>
      have holds : Cursor.Holds pointerSize ⟨.new size, 0, area⟩ area [] [] :=
        holds_new (by omega)
      have fewer : (([] : List (List UInt8)).length +
          (argv0.bytes :: scanArgv text.bytes).length) * pointerSize ≤ area := by
        rw [List.length_nil, Nat.zero_add]
        exact (Nat.mul_le_mul_right pointerSize (Nat.le_succ _)).trans reserved
      obtain ⟨c, all, held⟩ := holds.putAll _ fewer fits
      obtain ⟨d, ended, laid⟩ := held.finish reserved (List.prefix_refl _)
      obtain ⟨_, _, idx⟩ := putAll_inside all
      obtain ⟨_, _, total, _⟩ := point_inside ended
      refine ⟨.ok ⟨d.block, d.idx, area⟩, ?_, ?_⟩
      · rw [called, all, Option.bind_some, ended]
        rfl
      · intro out same
        cases same
        refine ⟨?_, _, laid⟩
        rw [total, idx, Nat.zero_add]
        exact reserved

/-- What fits is counted by quotes and blanks, where the size is a number of the host. -/
theorem argvFits_iff (argv0 text : List UInt8) :
    ArgvFits argv0 text ↔
      (argumentCount text + 2) * pointerSize ≤ sizeT ((argvPointers text + 1) * pointerSize) ∧
        sizeT ((argvPointers text + 1) * pointerSize) + (argv0.length + 1) +
            (copiedBytes .between text + argumentCount text) ≤ sizeT (argvSize argv0 text) := by
  unfold ArgvFits
  split
  · next small =>
    have blanks := endingBlanks_add_looseBlanks .between text
    have copied := copiedBytes_le .between text
    have size : argvSize argv0 text =
        text.length + argv0.length + 1 + 4 + (1 + text.countP isBlank + 1) * 5 := rfl
    have pointers : (argvPointers text + 1) * pointerSize = (1 + text.countP isBlank + 1 + 1) * 4 :=
      rfl
    have whole : sizeT (argvSize argv0 text) = argvSize argv0 text := Nat.mod_eq_of_lt small
    have area : sizeT ((argvPointers text + 1) * pointerSize) =
        (argvPointers text + 1) * pointerSize := by
      refine Nat.mod_eq_of_lt ?_
      omega
    rw [whole, area, size, pointers]
    unfold argumentCount pointerSize
    -- Each argument needs one byte more than it copies, and for each blank one was counted.
    omega
  · exact Iff.rfl

/--
The arguments of a new process stand in their memory, exactly if the command line has no name or its
arguments fit there.
-/
theorem argv_laid_iff (argv0 text : CString) (rest : List UInt8) :
    ArgvLaid argv0 text rest ↔ argv0.bytes = [] ∨ ArgvFits argv0.bytes text.bytes := by
  by_cases unnamed : argv0.bytes = []
  · -- The command line is refused.
    refine iff_of_true (fun malloc => ?_) (.inl unnamed)
    refine ⟨.error .errorBadEnvironment, ?_, fun out same => by cases same⟩
    simp [calcArgvBlock, (argumentMemory_read argv0 text rest).1, unnamed]
  · rw [argv_laid_iff_room unnamed, or_iff_right unnamed, argvFits_iff]

/--
Where the size is a number of the host, the list of the arguments is there exactly if they stand in
their memory.
-/
theorem calcArgv_iff_laid (argv0 text : CString) (rest : List UInt8)
    (small : argvSize argv0.bytes text.bytes < 2 ^ 32) :
    calcArgv true (argumentMemory argv0 text rest) ≠ none ↔ ArgvLaid argv0 text rest := by
  obtain ⟨first, second⟩ := argumentMemory_read argv0 text rest
  obtain ⟨count, copied⟩ := scanArgv_count text.bytes
  by_cases unnamed : argv0.bytes = []
  · refine iff_of_true ?_ ((argv_laid_iff argv0 text rest).mpr (.inl unnamed))
    simp [calcArgv, first, unnamed]
  · rw [argv_laid_iff_room unnamed]
    have called : calcArgv true (argumentMemory argv0 text rest) =
        if (argv0.bytes :: scanArgv text.bytes).length + 1 ≤ argvPointers text.bytes + 1 ∧
            (argvPointers text.bytes + 1) * pointerSize +
              (allStored (argv0.bytes :: scanArgv text.bytes)).length ≤
                argvSize argv0.bytes text.bytes then
          some (.ok (argv0.bytes :: scanArgv text.bytes))
        else none := by
      simp only [calcArgv, first, second, if_neg unnamed]
      rfl
    have whole : sizeT (argvSize argv0.bytes text.bytes) = argvSize argv0.bytes text.bytes :=
      Nat.mod_eq_of_lt small
    have area : sizeT ((argvPointers text.bytes + 1) * pointerSize) =
        (argvPointers text.bytes + 1) * pointerSize := by
      refine Nat.mod_eq_of_lt ?_
      unfold argvSize pointerSize at small
      unfold pointerSize
      omega
    rw [called, whole, area, allStored_length, List.flatten_cons, List.length_append,
      List.length_cons, copied, count]
    unfold pointerSize
    split <;> simp <;> omega

/-- Three quoted arguments without blanks between them. -/
def adjacentQuotes : CString := ⟨ascii "\"a\"\"b\"\"c\"", by decide⟩

/-- Pointers are written over the strings of quoted arguments that touch. -/
theorem adjacent_quotes_overlap :
    ¬ ArgvLaid ⟨ascii "A.EXE", by decide⟩ adjacentQuotes [0] := by
  rw [argv_laid_iff_room (by decide)]
  decide

end TwoIne
