import Mathlib.Data.List.Forall2
import TwoIne.Lib.CStrings

/-!
The lines of a text: tabs that are expanded by the columns of each line, and lines that are read as
strings once their ends were overwritten.
-/

namespace TextLines

open CStrings

/-- The letter that ends a line. -/
def lineEnd : UInt8 := 0x0A

/-- The letter that goes on at the next stop. -/
def tab : UInt8 := 0x09

/-- A blank. -/
def blank : UInt8 := 0x20

/-- The blanks from a column to the next stop. -/
def tabBlanks (width col : Nat) : List UInt8 := List.replicate (width - col % width) blank

/-- A line with one more letter. -/
def expandLetter (width : Nat) (line : List UInt8) (ch : UInt8) : List UInt8 :=
  line ++ if ch = tab then tabBlanks width line.length else [ch]

/-- A line with its tabs expanded. -/
def expandLine (width : Nat) (line : List UInt8) : List UInt8 :=
  line.foldl (expandLetter width) []

/-- A text with the tabs of each line expanded. -/
def expandText (width : Nat) (text : List UInt8) : List UInt8 :=
  [lineEnd].intercalate ((text.splitOn lineEnd).map (expandLine width))

/-- A text with its tabs expanded letter by letter, from a column on. -/
def expandFrom (width : Nat) : Nat → List UInt8 → List UInt8
  | _, [] => []
  | col, ch :: rest =>
    if ch = tab then
      tabBlanks width col ++ expandFrom width (col + (width - col % width)) rest
    else ch :: expandFrom width (if ch = lineEnd then 0 else col + 1) rest

/-- A text with a zero in place of the end of each line. -/
def cutLines (text : List UInt8) : List UInt8 := text.map fun ch => if ch = lineEnd then 0 else ch

/-- Where the lines behind the first one start, by where the text does. -/
def lineStarts : Nat → List UInt8 → List Nat
  | _, [] => []
  | place, ch :: rest =>
    if ch = lineEnd then (place + 1) :: lineStarts (place + 1) rest else lineStarts (place + 1) rest

section Expanding

variable {width : Nat} {text rest : List UInt8}

/-- Expanding line by line is expanding letter by letter, from the column behind a begun line. -/
theorem expandFrom_line (before first : List UInt8) (others : List (List UInt8))
    (pieces : rest.splitOn lineEnd = first :: others) :
    expandLine width before ++ expandFrom width (expandLine width before).length rest =
      [lineEnd].intercalate (expandLine width (before ++ first) ::
        others.map (expandLine width)) := by
  induction rest generalizing before first others with
  | nil =>
    obtain ⟨rfl, rfl⟩ := List.cons.inj pieces
    simp [expandFrom]
  | cons ch rest ih =>
    obtain ⟨next, more, split⟩ := List.exists_cons_of_ne_nil (List.splitOn_ne_nil lineEnd rest)
    rw [List.splitOn_cons_eq_if_modifyHead, split] at pieces
    by_cases ends : ch = lineEnd
    -- The line is whole, and the next one starts at the first column.
    · rw [if_pos (by simp [ends])] at pieces
      obtain ⟨rfl, rfl⟩ := List.cons.inj pieces
      have later := ih [] next more split
      rw [expandFrom, if_neg (by rw [ends]; decide), if_pos ends, ends]
      simp only [expandLine, List.foldl_nil, List.length_nil, List.nil_append] at later
      rw [later]
      simp [expandLine]
    -- The letter is the next one of the line.
    · rw [if_neg (by simpa using ends)] at pieces
      obtain ⟨rfl, rfl⟩ := List.cons.inj pieces
      have later := ih (before ++ [ch]) next more split
      have longer : expandLine width (before ++ [ch]) =
          expandLetter width (expandLine width before) ch := by
        simp [expandLine, List.foldl_append]
      rw [List.append_assoc, List.singleton_append, longer] at later
      rw [← later, expandFrom]
      by_cases tabbed : ch = tab
      · simp [expandLetter, tabbed, tabBlanks]
      · simp [expandLetter, tabbed, ends]

/-- Expanding line by line is expanding letter by letter from the first column. -/
theorem expandText_eq (width : Nat) (text : List UInt8) :
    expandText width text = expandFrom width 0 text := by
  -- No line was begun yet.
  obtain ⟨first, others, pieces⟩ :=
    List.exists_cons_of_ne_nil (List.splitOn_ne_nil lineEnd text)
  rw [expandText, pieces, List.map_cons]
  exact (expandFrom_line [] first others pieces).symm

/-- No letter becomes more than a stop is wide. -/
theorem expandFrom_length_le (positive : 0 < width) (col : Nat) (text : List UInt8) :
    (expandFrom width col text).length ≤ width * text.length := by
  -- A tab comes to at most the blanks between two stops, and any other letter to itself.
  induction text generalizing col with
  | nil => simp [expandFrom]
  | cons ch rest ih =>
    rw [expandFrom]
    split
    · have later := ih (col + (width - col % width))
      simp only [tabBlanks, List.length_append, List.length_replicate, List.length_cons,
        Nat.mul_succ]
      omega
    · have later := ih (if ch = lineEnd then 0 else col + 1)
      simp only [List.length_cons, Nat.mul_succ]
      omega

/-- Every letter becomes one letter at least. -/
theorem le_expandFrom_length (positive : 0 < width) (col : Nat) (text : List UInt8) :
    text.length ≤ (expandFrom width col text).length := by
  induction text generalizing col with
  | nil => simp
  | cons ch rest ih =>
    rw [expandFrom]
    split
    -- There is a stop behind every column.
    · have later := ih (col + (width - col % width))
      have column := Nat.mod_lt col positive
      simp only [tabBlanks, List.length_append, List.length_replicate, List.length_cons]
      omega
    · have later := ih (if ch = lineEnd then 0 else col + 1)
      simp only [List.length_cons]
      omega

/-- Expanding keeps the ends of lines. -/
theorem count_expandFrom (col : Nat) (text : List UInt8) :
    (expandFrom width col text).count lineEnd = text.count lineEnd := by
  -- Only tabs are replaced, by blanks, and neither ends a line.
  induction text generalizing col with
  | nil => simp [expandFrom]
  | cons ch rest ih =>
    rw [expandFrom]
    split
    next tabbed =>
      have blanks : (tabBlanks width col).count lineEnd = 0 := by
        simp [tabBlanks, List.count_replicate, blank, lineEnd]
      rw [List.count_append, blanks, ih, tabbed]
      simp [tab, lineEnd]
    next => rw [List.count_cons, List.count_cons, ih]

/-- Expanding adds no zero. -/
theorem zero_notMem_expandFrom (noNul : 0 ∉ text) (col : Nat) : 0 ∉ expandFrom width col text := by
  -- What is written is a blank or a letter of the text.
  induction text generalizing col with
  | nil => simp [expandFrom]
  | cons ch rest ih =>
    have other : 0 ≠ ch := List.ne_of_not_mem_cons noNul
    have behind : 0 ∉ rest := List.not_mem_of_not_mem_cons noNul
    rw [expandFrom]
    split
    · have later := ih behind (col + (width - col % width))
      simp [tabBlanks, blank, later]
    · exact List.not_mem_cons_of_ne_of_not_mem other (ih behind _)

end Expanding

section Cutting

variable {text : List UInt8}

/-- There is a start behind every end of a line. -/
theorem lineStarts_length (place : Nat) (text : List UInt8) :
    (lineStarts place text).length = text.count lineEnd := by
  -- A start is noted behind exactly the letters that end a line.
  induction text generalizing place with
  | nil => rfl
  | cons ch rest ih =>
    rw [lineStarts, List.count_cons]
    by_cases ends : ch = lineEnd <;> simp [ends, ih]

/-- The strings at the starts of the lines of a text that was cut are its lines. -/
theorem cutLines_read (noNul : 0 ∉ text) {content : List UInt8} (place : Nat)
    (held : content.drop place = stored (cutLines text)) :
    List.Forall₂ (fun start piece => readString (content.drop start) = piece)
      (place :: lineStarts place text) (text.splitOn lineEnd) := by
  induction text generalizing place with
  | nil =>
    -- The zero at the end of the text is the end of its last line.
    refine .cons ?_ .nil
    rw [held]
    rfl
  | cons ch rest ih =>
    have other : 0 ≠ ch := List.ne_of_not_mem_cons noNul
    have behind : 0 ∉ rest := List.not_mem_of_not_mem_cons noNul
    have next : content.drop (place + 1) = stored (cutLines rest) := by
      rw [← List.drop_drop, held]
      rfl
    have later := ih behind (place + 1) next
    rw [List.splitOn_cons_eq_if_modifyHead, lineStarts]
    by_cases ends : ch = lineEnd
    -- The line that starts here is empty.
    · rw [if_pos ends, if_pos (by simp [ends])]
      refine .cons ?_ later
      rw [held, ends]
      rfl
    -- The letter stands in front of what is read from the next place.
    · rw [if_neg ends, if_neg (by simpa using ends)]
      obtain ⟨piece, others, pieces⟩ :=
        List.exists_cons_of_ne_nil (List.splitOn_ne_nil lineEnd rest)
      rw [pieces] at later ⊢
      obtain ⟨first, more⟩ := List.forall₂_cons.mp later
      refine .cons ?_ more
      rw [← first, held, next]
      simp [stored, cutLines, readString, ends, Ne.symm other]

end Cutting

end TextLines
