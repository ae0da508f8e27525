import TwoIne.Debugger.SourceFile
import TwoIne.Lib.TextLines

/-! What is kept of a source file is its text, with its lines where they were cut. -/

namespace TwoIne

open CStrings TextLines

/-- The text of a file: no carriage returns, and the tabs of each line expanded. -/
def fileText (raw : List UInt8) : List UInt8 := expandText 8 (raw.filter (· ≠ 0x0D))

/-- What was kept is the text of a file. -/
structure SourceText.Of (t : SourceText) (raw : List UInt8) : Prop where
  within : t.content.length ≤ raw.length * 8 + 1
  content : t.content = stored (cutLines (fileText raw))
  numLines : t.numLines = (fileText raw).count lineEnd + 1
  starts : t.lines.length = t.numLines
  /-- Read as a string, each line is the piece of the text with its number. -/
  lines : 0 ∉ raw → List.Forall₂ (fun start piece => readString (t.content.drop start) = piece)
    t.lines ((fileText raw).splitOn lineEnd)

/-- Loading a file comes back, with its text unless the file is empty or memory is lacking. -/
def SourceRight (malloc : Nat → Bool) (size : Int) (raw : List UInt8) : Prop :=
  ∃ result, loadSourceText malloc size raw = some result ∧ (∀ t ∈ result, t.Of raw) ∧
    (result = none → size ≤ 0 ∨ raw = [] ∨ ∃ n, malloc n = false)

/-- The blocks that there is memory for hold what is written to them. -/
def SourceFits (malloc : Nat → Bool) (size : Int) (raw : List UInt8) : Prop :=
  0 < size → malloc (size.toNat + 1) = true → raw ≠ [] →
    malloc (contentRoom raw.length) = true →
    (fileText raw).length + 1 ≤ contentRoom raw.length ∧
      (malloc (linesRoom (1 + raw.count lineEnd)) = true →
        (1 + raw.count lineEnd) * 4 ≤ linesRoom (1 + raw.count lineEnd))

section Expanding

variable {room : Nat} {content raw : List UInt8}

/-- Blanks are written as far as there is room. -/
theorem putBlanks_eq (spaces : Nat) (inside : content.length ≤ room) :
    putBlanks room spaces content =
      if content.length + spaces ≤ room then some (content ++ List.replicate spaces blank)
      else none := by
  -- Each blank needs a place of its own, so that the last one decides.
  induction spaces generalizing content with
  | zero => simp [putBlanks, inside]
  | succ spaces ih =>
    rw [putBlanks, putByte]
    by_cases next : content.length < room
    · rw [if_pos next]
      show putBlanks room spaces (content ++ [0x20]) = _
      rw [ih (by simp only [List.length_append, List.length_singleton]; omega)]
      have places : (content ++ [0x20]).length + spaces = content.length + (spaces + 1) := by
        simp only [List.length_append, List.length_singleton]
        omega
      rw [places, List.append_assoc]
      rfl
    · rw [if_neg next, if_neg (by omega)]
      rfl

/-- A text is expanded as far as there is room. -/
theorem expandTabs_eq (col : Nat) (inside : content.length ≤ room) :
    expandTabs room raw col content =
      if content.length + (expandFrom 8 col (raw.filter (· ≠ 0x0D))).length ≤ room then
        some (content ++ expandFrom 8 col (raw.filter (· ≠ 0x0D)))
      else none := by
  induction raw generalizing col content with
  | nil => simp [expandTabs, expandFrom, inside]
  | cons ch raw ih =>
    rw [expandTabs]
    by_cases left_out : ch = 0x0D
    · rw [if_pos left_out, ih col inside, List.filter_cons_of_neg (by simp [left_out])]
    rw [if_neg left_out, List.filter_cons_of_pos (by simpa using left_out), expandFrom]
    by_cases tabbed : ch = tab
    -- The blanks of a tab, then what is behind it.
    · rw [if_pos tabbed, if_pos (show ch = 0x09 from tabbed)]
      show (do
        let content ← putBlanks room (8 - col % 8) content
        expandTabs room raw (col + (8 - col % 8)) content) = _
      rw [putBlanks_eq _ inside]
      simp only [tabBlanks, List.length_append, List.length_replicate]
      by_cases fits : content.length + (8 - col % 8) ≤ room
      · rw [if_pos fits]
        show expandTabs room raw _ (content ++ List.replicate (8 - col % 8) blank) = _
        rw [ih _ (by simpa using fits)]
        simp only [List.length_append, List.length_replicate, Nat.add_assoc, List.append_assoc]
      · rw [if_neg fits, if_neg (by omega)]
        rfl
    -- Every other letter is written as it is.
    · rw [if_neg tabbed, if_neg (show ¬ ch = 0x09 from tabbed), putByte]
      by_cases fits : content.length < room
      · rw [if_pos fits]
        show expandTabs room raw (if ch = lineEnd then 0 else col + 1) (content ++ [ch]) = _
        rw [ih _ (by simp only [List.length_append, List.length_singleton]; omega)]
        simp only [List.length_append, List.length_cons, List.length_nil, List.append_assoc,
          List.cons_append, List.nil_append]
        congr 2
        omega
      · rw [if_neg fits]
        show none = _
        symm
        apply if_neg
        simp only [List.length_cons]
        omega

end Expanding

/-- The lines are cut at their ends, as far as there is room for where they start. -/
theorem splitLines_eq {bytes numLines : Nat} (front rest : List UInt8) (lines : List Nat)
    (expected : lines.length + rest.count lineEnd ≤ numLines) (inside : 4 * lines.length ≤ bytes) :
    splitLines bytes numLines rest.length front.length (front ++ stored rest) lines =
      if 4 * (lines.length + rest.count lineEnd) ≤ bytes then
        some (front ++ stored (cutLines rest), lines ++ lineStarts front.length rest)
      else none := by
  -- The bytes in front are done with, and the place that is read is the first of the rest.
  induction rest generalizing front lines with
  | nil => simp [splitLines, cutLines, lineStarts, inside]
  | cons ch rest ih =>
    have here : (front ++ stored (ch :: rest))[front.length]? = some ch := by simp [stored]
    rw [List.length_cons, splitLines, here]
    show (if ch = lineEnd then _ else _) = _
    by_cases ends : ch = lineEnd
    · have counted : (ch :: rest).count lineEnd = rest.count lineEnd + 1 := by
        rw [ends]
        exact List.count_cons_self
      have cut : (front ++ stored (ch :: rest)).set front.length 0 =
          (front ++ [0]) ++ stored rest := by
        simp [stored, List.set_append_right]
      rw [if_pos ends, cut, if_pos (by omega), putLine]
      by_cases fits : 4 * lines.length + 4 ≤ bytes
      · rw [if_pos fits]
        have later := ih (front ++ [0]) (lines ++ [front.length + 1])
          (by simp only [List.length_append, List.length_singleton]; omega)
          (by simp only [List.length_append, List.length_singleton]; omega)
        simp only [List.length_append, List.length_singleton] at later
        show splitLines bytes numLines rest.length (front.length + 1) _ _ = _
        rw [later, counted]
        simp [lineStarts, cutLines, stored, ends, Nat.add_assoc, Nat.add_comm 1]
      · rw [if_neg fits, if_neg (by omega)]
        rfl
    · have counted : (ch :: rest).count lineEnd = rest.count lineEnd :=
        List.count_cons_of_ne ends
      have later := ih (front ++ [ch]) lines (by omega) inside
      simp only [List.length_append, List.length_singleton, List.append_assoc,
        List.singleton_append] at later
      rw [if_neg ends, counted]
      show splitLines bytes numLines rest.length (front.length + 1) (front ++ ch :: stored rest) _ = _
      rw [later]
      simp [lineStarts, cutLines, stored, ends]

section Loading

variable {malloc : Nat → Bool} {size : Int} {raw : List UInt8}

/-- The text has the ends of lines of the file. -/
theorem count_fileText (raw : List UInt8) :
    (fileText raw).count lineEnd = raw.count lineEnd := by
  rw [fileText, expandText_eq, count_expandFrom]
  exact List.count_filter (by decide)

/-- The text is at most eight times as long as the file. -/
theorem fileText_length_le (raw : List UInt8) : (fileText raw).length ≤ raw.length * 8 := by
  -- Leaving letters out makes a file no longer, and a tab is at most eight blanks.
  rw [fileText, expandText_eq]
  calc (expandFrom 8 0 (raw.filter (· ≠ 0x0D))).length
      ≤ 8 * (raw.filter (· ≠ 0x0D)).length := expandFrom_length_le (by decide) 0 _
    _ ≤ 8 * raw.length := Nat.mul_le_mul_left 8 (List.length_filter_le _ raw)
    _ = raw.length * 8 := Nat.mul_comm 8 _

/-- What is kept of a text, with the place of each line. -/
def keptText (raw : List UInt8) : SourceText where
  content := stored (cutLines (fileText raw))
  lines := 0 :: lineStarts 0 (fileText raw)
  numLines := 1 + raw.count lineEnd

/-- It is the text of the file. -/
theorem keptText_of (raw : List UInt8) : (keptText raw).Of raw where
  within := by
    have short := fileText_length_le raw
    simp only [keptText, stored, cutLines, List.length_append, List.length_map,
      List.length_singleton]
    omega
  content := rfl
  numLines := by
    rw [count_fileText]
    exact Nat.add_comm 1 _
  starts := by
    simp only [keptText, List.length_cons, lineStarts_length, count_fileText]
    omega
  lines := by
    intro noNul
    have filtered : 0 ∉ raw.filter (· ≠ 0x0D) := fun member => noNul (List.mem_of_mem_filter member)
    have clean : 0 ∉ fileText raw := by
      rw [fileText, expandText_eq]
      exact zero_notMem_expandFrom filtered 0
    exact cutLines_read clean 0 rfl

/-- With memory for the text, the text is kept unless it is longer, or the starts of its lines. -/
theorem loadSourceText_allocated (positive : 0 < size) (read : malloc (size.toNat + 1) = true)
    (some_read : raw ≠ []) (allocated : malloc (contentRoom raw.length) = true) :
    loadSourceText malloc size raw =
      if (fileText raw).length + 1 ≤ contentRoom raw.length then
        if malloc (linesRoom (1 + raw.count lineEnd)) then
          if (1 + raw.count lineEnd) * 4 ≤ linesRoom (1 + raw.count lineEnd) then
            some (some (keptText raw))
          else none
        else some none
      else none := by
  have expanded : expandTabs (contentRoom raw.length) raw 0 [] =
      if (fileText raw).length ≤ contentRoom raw.length then some (fileText raw) else none := by
    rw [expandTabs_eq 0 (Nat.zero_le _), ← expandText_eq, ← fileText, List.nil_append,
      List.length_nil, Nat.zero_add]
  unfold loadSourceText
  rw [if_neg (by omega), if_neg (by simp [read]), if_neg (by simpa using some_read),
    if_neg (by simp [allocated]), expanded]
  by_cases fits : (fileText raw).length + 1 ≤ contentRoom raw.length
  · have ended : putByte (contentRoom raw.length) (fileText raw) 0 = some (stored (fileText raw)) :=
      if_pos fits
    have counted : 1 + (fileText raw).count 0x0A = 1 + raw.count lineEnd :=
      congrArg (1 + ·) (count_fileText raw)
    rw [if_pos fits, if_pos (by omega)]
    simp only [Option.bind_eq_bind, Option.bind_some, ended, counted]
    by_cases given : malloc (linesRoom (1 + raw.count lineEnd)) = true
    · rw [if_pos given, if_neg (by simp [given])]
      -- The starts are written one by one, the first one for the text itself.
      by_cases first : 4 ≤ linesRoom (1 + raw.count lineEnd)
      · have split : splitLines (linesRoom (1 + raw.count lineEnd)) (1 + raw.count lineEnd)
            (fileText raw).length 0 (stored (fileText raw)) [0] =
            if 4 * (1 + (fileText raw).count lineEnd) ≤ linesRoom (1 + raw.count lineEnd) then
              some (stored (cutLines (fileText raw)), 0 :: lineStarts 0 (fileText raw))
            else none :=
          splitLines_eq [] (fileText raw) [0] (by rw [count_fileText]; simp) first
        rw [count_fileText, Nat.mul_comm] at split
        have started : putLine (linesRoom (1 + raw.count lineEnd)) [] 0 = some [0] := if_pos first
        simp only [started, Option.bind_some, split]
        by_cases room : (1 + raw.count lineEnd) * 4 ≤ linesRoom (1 + raw.count lineEnd)
        · rw [if_pos room, if_pos room]
          rfl
        · rw [if_neg room, if_neg room]
          rfl
      · have started : putLine (linesRoom (1 + raw.count lineEnd)) [] 0 = none := if_neg first
        rw [started, if_neg (by omega)]
        rfl
    · rw [if_neg given, if_pos (by simpa using given)]
  -- Either the text is too long, or the zero behind it.
  · rw [if_neg fits]
    by_cases written : (fileText raw).length ≤ contentRoom raw.length
    · have ended : putByte (contentRoom raw.length) (fileText raw) 0 = none := if_neg (by omega)
      rw [if_pos written]
      simp only [Option.bind_eq_bind, Option.bind_some, ended, Option.bind_none]
    · rw [if_neg written]
      rfl

/-- Nothing is kept of an empty file, or without memory for what is read and for its text. -/
theorem loadSourceText_refused (refused : ¬ (0 < size ∧ malloc (size.toNat + 1) = true ∧ raw ≠ [] ∧
    malloc (contentRoom raw.length) = true)) :
    loadSourceText malloc size raw = some none ∧
      (size ≤ 0 ∨ raw = [] ∨ ∃ n, malloc n = false) := by
  -- The conditions are tested in this order, and each that fails is a reason of its own.
  unfold loadSourceText
  by_cases positive : 0 < size
  · by_cases read : malloc (size.toNat + 1) = true
    · by_cases some_read : raw = []
      · simp [read, some_read]
      · have lacking : malloc (contentRoom raw.length) = false := by
          by_contra given
          exact refused ⟨positive, read, some_read, by simpa using given⟩
        exact ⟨by simp [read, some_read, lacking], .inr (.inr ⟨_, lacking⟩)⟩
    · have lacking : malloc (size.toNat + 1) = false := by simpa using read
      exact ⟨by simp [lacking], .inr (.inr ⟨_, lacking⟩)⟩
  · exact ⟨if_pos (by omega), .inl (by omega)⟩

/-- Loading that comes back with nothing is right, where there is a reason for it. -/
theorem right_of_nothing (nothing : loadSourceText malloc size raw = some none)
    (reason : size ≤ 0 ∨ raw = [] ∨ ∃ n, malloc n = false) : SourceRight malloc size raw :=
  ⟨none, nothing, fun _ member => absurd member (by simp), fun _ => reason⟩

/-- Loading that comes back wrote no byte behind a block. -/
theorem sourceFits_of_result {result : Option SourceText}
    (came : loadSourceText malloc size raw = some result) : SourceFits malloc size raw := by
  intro positive read some_read given
  rw [loadSourceText_allocated positive read some_read given] at came
  -- Of the branches of the load, only those that keep to the blocks come back.
  by_cases fits : (fileText raw).length + 1 ≤ contentRoom raw.length
  · refine ⟨fits, fun lines => ?_⟩
    rw [if_pos fits, if_pos lines] at came
    by_contra past
    rw [if_neg past] at came
    contradiction
  · rw [if_neg fits] at came
    contradiction

/-- Loading that keeps to its blocks is right. -/
theorem sourceRight_of_fits (holds : SourceFits malloc size raw) : SourceRight malloc size raw := by
  -- With memory for everything the text is kept; without it there is a reason to keep nothing.
  by_cases allocated : 0 < size ∧ malloc (size.toNat + 1) = true ∧ raw ≠ [] ∧
      malloc (contentRoom raw.length) = true
  · obtain ⟨positive, read, some_read, given⟩ := allocated
    have loaded := loadSourceText_allocated positive read some_read given
    obtain ⟨fits, starts⟩ := holds positive read some_read given
    rw [if_pos fits] at loaded
    by_cases lines : malloc (linesRoom (1 + raw.count lineEnd)) = true
    · rw [if_pos lines, if_pos (starts lines)] at loaded
      refine ⟨some (keptText raw), loaded, ?_, fun nothing => absurd nothing (by simp)⟩
      intro t kept
      exact Option.some.inj kept ▸ keptText_of raw
    · rw [if_neg lines] at loaded
      exact right_of_nothing loaded (.inr (.inr ⟨_, by simpa using lines⟩))
  · obtain ⟨nothing, reason⟩ := loadSourceText_refused allocated
    exact right_of_nothing nothing reason

/--
Every file is loaded right exactly when its text and the starts of its lines fit into the blocks
that are asked for them, whose sizes wrap around.
-/
theorem source_file_right_iff (malloc : Nat → Bool) (size : Int) (raw : List UInt8) :
    SourceRight malloc size raw ↔ SourceFits malloc size raw :=
  ⟨fun ⟨_, came, _⟩ => sourceFits_of_result came, sourceRight_of_fits⟩

/-- No file of less than 512 megabytes is too long. -/
theorem short_file_fits (short : raw.length < 2 ^ 29) : SourceFits malloc size raw := by
  -- Below this length neither of the two sizes wraps around.
  intro _ _ _ _
  have text := fileText_length_le raw
  have lines : raw.count lineEnd ≤ raw.length := List.count_le_length
  have whole : contentRoom raw.length = raw.length * 8 + 1 := Nat.mod_eq_of_lt (by omega)
  have starts : linesRoom (1 + raw.count lineEnd) = (1 + raw.count lineEnd) * 4 :=
    Nat.mod_eq_of_lt (by omega)
  exact ⟨by omega, fun _ => by omega⟩

/-- A line with a tab and a carriage return, and one without an end. -/
def tabbedFile : List UInt8 := [0x61, 0x09, 0x62, 0x0D, 0x0A, 0x63]

/-- It is kept, with two lines. -/
theorem tabbed_file_kept :
    SourceRight (fun _ => true) 6 tabbedFile ∧
      loadSourceText (fun _ => true) 6 tabbedFile = some (some
        ⟨[0x61, 0x20, 0x20, 0x20, 0x20, 0x20, 0x20, 0x20, 0x62, 0, 0x63, 0], [0, 10], 2⟩) :=
  ⟨(source_file_right_iff _ 6 tabbedFile).mpr (short_file_fits (by decide)), by decide⟩

/-- A file of 512 megabytes that is one line of letters. -/
def longLine : List UInt8 := List.replicate (2 ^ 29) 0x61

/-- Its text is written over a block of one byte. -/
theorem long_line_overruns :
    ¬ SourceRight (fun size => size < 2 ^ 31) longLine.length longLine := by
  intro right
  obtain ⟨result, came, _⟩ := right
  have length : longLine.length = 2 ^ 29 := List.length_replicate
  have room : contentRoom longLine.length = 1 := by
    rw [length]
    decide
  -- No letter is left out, so that the text is no shorter than the file.
  have kept : longLine.filter (· ≠ 0x0D) = longLine :=
    List.filter_eq_self.mpr fun ch member => by
      rw [List.eq_of_mem_replicate member]
      decide
  have long : longLine.length ≤ (fileText longLine).length := by
    rw [fileText, expandText_eq, kept]
    exact le_expandFrom_length (by decide) 0 longLine
  have present : longLine ≠ [] := by
    intro none
    rw [none] at length
    exact absurd length (by decide)
  have fits := sourceFits_of_result came (by rw [length]; decide) (by rw [length]; decide) present
    (by rw [room]; decide)
  rw [length] at long
  have := fits.1
  omega

end Loading

end TwoIne
