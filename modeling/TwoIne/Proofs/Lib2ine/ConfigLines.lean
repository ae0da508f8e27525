import Mathlib.Data.List.Induction
import TwoIne.Lib2ine.ConfigLines

/-! Each line of a configuration file is a setting, a comment or a warning as its grammar says. -/

namespace TwoIne

open CStrings

/-- A line without the blanks at its end. -/
def trimEnd (line : List UInt8) : List UInt8 := (line.reverse.dropWhile cfgIsSpace).reverse

/-- The grammar of a setting, in a line without blanks at its end. -/
structure IsSetting (text category var val : List UInt8) : Prop where
  split : ∃ lead before after,
    text = lead ++ (category ++ 0x2E :: (var ++ (before ++ 0x3D :: (after ++ val)))) ∧
      (∀ ch ∈ lead, cfgIsSpace ch) ∧ (∀ ch ∈ before, cfgIsSpace ch) ∧ ∀ ch ∈ after, cfgIsSpace ch
  category : category ≠ [] ∧ ∀ ch ∈ category, cfgIsSymChar ch
  var : var ≠ [] ∧ ∀ ch ∈ var, cfgIsSymChar ch
  /-- The blanks in front of the value do not belong to it. -/
  val : ∀ ch, val.head? = some ch → cfgIsSpace ch = false

/-- Whether the first letter that is not blank begins a comment. -/
def IsComment (text : List UInt8) : Prop :=
  ∃ lead rest, (∀ ch ∈ lead, cfgIsSpace ch) ∧
    (text = lead ++ 0x3B :: rest ∨ text = lead ++ 0x23 :: rest ∨ text = lead ++ 0x2F :: 0x2F :: rest)

/-- What a line has to come to. -/
structure LineRight (line : List UInt8) (event : CfgEvent) : Prop where
  setting : ∀ category var val,
    (∃ handler, event = .setting category var val handler) ↔
      IsSetting (trimEnd line) category var val
  handler : ∀ category var val handler, event = .setting category var val handler →
    handler = cfgHandler category
  skipped : event = .skipped ↔ trimEnd line = [] ∨ IsComment (trimEnd line)
  warned : event = .warned ↔ trimEnd line ≠ [] ∧ ¬ IsComment (trimEnd line) ∧
    ∀ category var val, ¬ IsSetting (trimEnd line) category var val

section Strings

variable {buffer text : List UInt8} {ptr : Nat}

/-- Whether a pointer leads to a string within a buffer. -/
def Points (buffer : List UInt8) (ptr : Nat) (text : List UInt8) : Prop :=
  0 ∉ text ∧ ∃ back, buffer.drop ptr = text ++ 0 :: back

/-- The letter at a pointer is the first one of the string, or the zero behind it. -/
theorem Points.at (points : Points buffer ptr text) :
    buffer[ptr]? = some (text.head?.getD 0) := by
  -- An empty string has its zero at the pointer.
  obtain ⟨_, back, starts⟩ := points
  have first := congrArg List.head? starts
  rw [List.head?_drop] at first
  rw [first]
  cases text <;> rfl

/-- The string at a pointer is read back. -/
theorem Points.read (points : Points buffer ptr text) : readString (buffer.drop ptr) = text := by
  -- The zero behind the string stops the reader, whatever is behind it.
  obtain ⟨noNul, back, starts⟩ := points
  have whole : buffer.drop ptr = stored text ++ back := by
    rw [starts, stored, List.append_assoc]
    rfl
  rw [whole, readString_stored noNul]

/-- A pointer further on leads to the rest of the string. -/
theorem Points.further {front rest : List UInt8} (points : Points buffer ptr (front ++ rest)) :
    Points buffer (ptr + front.length) rest := by
  obtain ⟨noNul, back, starts⟩ := points
  refine ⟨fun member => noNul (List.mem_append_right _ member), back, ?_⟩
  rw [← List.drop_drop, starts, List.append_assoc, List.drop_left]

/-- Moving over letters ends within the string, in front of the first letter of another kind. -/
theorem skipLetters_string {test : UInt8 → Bool} (noZero : test 0 = false)
    (text back : List UInt8) (ptr : Nat) :
    skipLetters test (text ++ 0 :: back) ptr = some (ptr + (text.takeWhile test).length) := by
  -- The zero is no letter of the kind, so that the pointer stops there at the latest.
  induction text generalizing ptr with
  | nil =>
    rw [List.nil_append, skipLetters, noZero]
    rfl
  | cons ch text ih =>
    rw [List.cons_append, skipLetters, List.takeWhile_cons]
    split
    · rename_i letter
      rw [ih, List.length_cons, Nat.add_assoc, Nat.add_comm 1]
    · rfl

/-- A pointer is moved over letters to the rest of its string. -/
theorem Points.skip (points : Points buffer ptr text) (test : UInt8 → Bool)
    (noZero : test 0 = false) :
    skipFrom test buffer ptr = some (ptr + (text.takeWhile test).length) ∧
      Points buffer (ptr + (text.takeWhile test).length) (text.dropWhile test) := by
  -- The letters that are passed are the front of the string.
  constructor
  · obtain ⟨_, back, starts⟩ := points
    rw [skipFrom, starts, skipLetters_string noZero]
  · rw [← List.takeWhile_append_dropWhile (p := test) (l := text)] at points
    exact points.further

/-- Writing in front of a string leaves it as it is. -/
theorem Points.set_before {i : Nat} (points : Points buffer ptr text) (before : i < ptr) :
    Points (buffer.set i 0) ptr text := by
  obtain ⟨noNul, back, starts⟩ := points
  exact ⟨noNul, back, by rw [List.drop_set, if_pos before, starts]⟩

/-- Writing behind the end of a string leaves it as it is. -/
theorem Points.set_behind {i : Nat} (points : Points buffer ptr text)
    (behind : ptr + text.length < i) : Points (buffer.set i 0) ptr text := by
  -- The place that is written lies behind the zero that ends the string.
  obtain ⟨noNul, back, starts⟩ := points
  obtain ⟨more, is_more⟩ : ∃ more, i - ptr = text.length + (more + 1) :=
    ⟨i - ptr - text.length - 1, by omega⟩
  refine ⟨noNul, back.set more 0, ?_⟩
  rw [List.drop_set, if_neg (by omega), starts, is_more,
    List.set_append_right _ _ (Nat.le_add_right _ _), Nat.add_sub_cancel_left, List.set_cons_succ]

/-- A zero that is written cuts the string off there. -/
theorem Points.cut {front rest : List UInt8} (points : Points buffer ptr (front ++ rest)) :
    Points (buffer.set (ptr + front.length) 0) ptr front := by
  -- There is a letter at the place, if only the zero that ends the string.
  obtain ⟨noNul, back, starts⟩ := points
  have clean : 0 ∉ front := fun member => noNul (List.mem_append_left _ member)
  have behind : ∃ letter more, rest ++ 0 :: back = letter :: more := by
    cases rest with
    | nil => exact ⟨0, back, rfl⟩
    | cons letter rest => exact ⟨letter, rest ++ 0 :: back, rfl⟩
  obtain ⟨letter, more, split⟩ := behind
  refine ⟨clean, more, ?_⟩
  rw [List.drop_set, if_neg (Nat.not_lt.mpr (Nat.le_add_right _ _)), starts, List.append_assoc,
    split, Nat.add_sub_cancel_left, List.set_append_right _ _ (Nat.le_refl _), Nat.sub_self]
  rfl

end Strings

section Parsing

variable {buffer text : List UInt8} {ptr : Nat}

/-- The text behind the equals sign that a text leads to. -/
def behindEquals (text : List UInt8) : Option (List UInt8) :=
  if text.head? = some 0x3D then some text.tail
  else if ¬ cfgIsSpace (text.head?.getD 0) then none
  else
    let rest := text.tail.dropWhile cfgIsSpace
    if rest.head? = some 0x3D then some rest.tail else none

/-- What a text comes to that begins with the category. -/
def settingOf (text : List UInt8) : CfgEvent :=
  let rest := text.dropWhile cfgIsSymChar
  if rest.head? ≠ some 0x2E then .warned
  else
    match behindEquals (rest.tail.dropWhile cfgIsSymChar) with
    | none => .warned
    | some behind =>
      cfgProcessLine (text.takeWhile cfgIsSymChar) (rest.tail.takeWhile cfgIsSymChar)
        (behind.dropWhile cfgIsSpace)

/-- Whether a text begins with a comment, or is empty. -/
def BeginsComment (text : List UInt8) : Prop :=
  text = [] ∨ text.head? = some 0x3B ∨ text.head? = some 0x23 ∨
    text.head? = some 0x2F ∧ text.tail.head? = some 0x2F

instance (text : List UInt8) : Decidable (BeginsComment text) :=
  inferInstanceAs (Decidable (_ ∨ _))

/-- What a line comes to that has no blanks at its end. -/
def eventOf (text : List UInt8) : CfgEvent :=
  let rest := text.dropWhile cfgIsSpace
  if BeginsComment rest then .skipped else settingOf rest

/-- A string has a first letter that is not zero, or it is empty. -/
theorem Points.first (points : Points buffer ptr text) (ch : UInt8) (some_ch : ch ≠ 0) :
    text.head?.getD 0 = ch ↔ text.head? = some ch := by
  cases text with
  | nil => exact ⟨fun zero => absurd zero.symm some_ch, nofun⟩
  | cons first text => exact ⟨fun same => congrArg some same, fun same => Option.some.inj same⟩

/-- The test for comments reads no more than the string. -/
theorem cfgNothing_string (points : Points buffer ptr text) :
    cfgNothing buffer ptr = some (decide (BeginsComment text)) := by
  rw [cfgNothing, points.at]
  cases text with
  | nil => rfl
  | cons first text =>
    have clean := points.1
    have nonzero : first ≠ 0 := fun zero => clean (zero ▸ List.mem_cons_self)
    have split : Points buffer ptr ([first] ++ text) := points
    have next := split.further.at
    have begins : BeginsComment (first :: text) ↔
        first = 0x3B ∨ first = 0x23 ∨ first = 0x2F ∧ text.head? = some 0x2F := by
      simp [BeginsComment]
    simp only [List.head?_cons, Option.getD_some, Option.bind_eq_bind, Option.bind_some, begins]
    rw [List.length_singleton] at next
    by_cases slash : first = 0x2F
    · rw [if_neg (by rw [slash]; decide), if_pos slash, next, slash]
      have second := split.further.first 0x2F (by decide)
      simp only [Option.bind_some, Option.pure_def, Option.some.injEq, decide_eq_decide, second]
      simp
    · by_cases mark : first = 0 ∨ first = 0x3B ∨ first = 0x23
      · rw [if_pos mark]
        simp only [nonzero, false_or] at mark
        simp [mark.imp_right Or.inl]
      · rw [if_neg mark, if_neg slash]
        simp only [nonzero, false_or, not_or] at mark
        simp [mark, slash]

/-- Where a text goes on behind its equals sign. -/
theorem cfgEquals_string (points : Points buffer ptr text) :
    match behindEquals text with
    | none => ∃ left, cfgEquals buffer ptr = some (left, none)
    | some rest => ∃ behind, cfgEquals buffer ptr = some (buffer.set ptr 0, some behind) ∧
        Points (buffer.set ptr 0) behind rest := by
  have split : text ≠ [] → Points (buffer.set ptr 0) (ptr + 1) text.tail := by
    intro some_text
    obtain ⟨first, rest, rfl⟩ := List.exists_cons_of_ne_nil some_text
    have whole : Points buffer ptr ([first] ++ rest) := points
    exact whole.further.set_before (Nat.lt_succ_self ptr)
  have space_zero : cfgIsSpace 0 = false := rfl
  rw [cfgEquals, points.at]
  simp only [Option.bind_eq_bind, Option.bind_some]
  have mark := points.first 0x3D (by decide)
  unfold behindEquals
  by_cases equals : text.head? = some 0x3D
  · rw [if_pos equals, if_pos (mark.mpr equals)]
    have some_text : text ≠ [] := by
      rintro rfl
      cases equals
    exact ⟨ptr + 1, rfl, split some_text⟩
  rw [if_neg equals, if_neg (fun same => equals (mark.mp same))]
  by_cases other : ¬ cfgIsSpace (text.head?.getD 0)
  · rw [if_pos other, if_pos other]
    exact ⟨buffer, rfl⟩
  rw [if_neg other, if_neg other]
  -- The blank is the first letter, so the string goes on behind it.
  have some_text : text ≠ [] := by
    rintro rfl
    exact other (by rw [List.head?_nil, Option.getD_none, space_zero]; exact Bool.false_ne_true)
  obtain ⟨moved, rest⟩ := (split some_text).skip cfgIsSpace space_zero
  have first := rest.first 0x3D (by decide)
  dsimp only
  rw [moved, Option.bind_some, rest.at, Option.bind_some]
  by_cases behind : (text.tail.dropWhile cfgIsSpace).head? = some 0x3D
  · rw [if_pos behind, if_neg (not_not.mpr (first.mpr behind))]
    obtain ⟨more, tail, is_rest⟩ := List.exists_cons_of_ne_nil
      (l := text.tail.dropWhile cfgIsSpace) (by
        intro empty
        rw [empty] at behind
        cases behind)
    rw [is_rest] at rest ⊢
    have whole : Points (buffer.set ptr 0)
        (ptr + 1 + (text.tail.takeWhile cfgIsSpace).length) ([more] ++ tail) := rest
    exact ⟨_, rfl, whole.further⟩
  · rw [if_neg behind, if_pos (fun same => behind (first.mp same))]
    exact ⟨_, rfl⟩

/-- A setting is cut out of its string without leaving it. -/
theorem cfgSetting_string (points : Points buffer ptr text) :
    cfgSetting buffer ptr = some (settingOf text) := by
  have sym_zero : cfgIsSymChar 0 = false := rfl
  obtain ⟨moved, rest⟩ := points.skip cfgIsSymChar sym_zero
  have first := rest.first 0x2E (by decide)
  rw [cfgSetting, settingOf]
  simp only [Option.bind_eq_bind]
  rw [moved, Option.bind_some, rest.at, Option.bind_some]
  by_cases dot : (text.dropWhile cfgIsSymChar).head? = some 0x2E
  · rw [if_neg (not_not.mpr (first.mpr dot)), if_neg (not_not.mpr dot)]
    obtain ⟨mark, tail, is_rest⟩ := List.exists_cons_of_ne_nil
      (l := text.dropWhile cfgIsSymChar) (by
        intro empty
        rw [empty] at dot
        cases dot)
    obtain ⟨stop, is_stop⟩ : ∃ stop, stop = ptr + (text.takeWhile cfgIsSymChar).length := ⟨_, rfl⟩
    -- The category ends at the zero that is written over the dot.
    have category : Points (buffer.set stop 0) ptr (text.takeWhile cfgIsSymChar) := by
      rw [← List.takeWhile_append_dropWhile (p := cfgIsSymChar) (l := text)] at points
      rw [is_stop]
      exact points.cut
    have var : Points (buffer.set stop 0) (stop + 1) tail := by
      rw [is_rest, ← is_stop] at rest
      have whole : Points buffer stop ([mark] ++ tail) := rest
      exact whole.further.set_before (Nat.lt_succ_self stop)
    rw [is_rest, List.tail_cons, ← is_stop]
    obtain ⟨var_moved, var_rest⟩ := var.skip cfgIsSymChar sym_zero
    rw [var_moved, Option.bind_some]
    have cut := cfgEquals_string var_rest
    cases found : behindEquals (tail.dropWhile cfgIsSymChar) with
    | none =>
      rw [found] at cut
      obtain ⟨left, equals⟩ := cut
      rw [equals]
      rfl
    | some behind =>
      rw [found] at cut
      obtain ⟨next, equals, value⟩ := cut
      rw [equals]
      obtain ⟨val_moved, val_rest⟩ := value.skip cfgIsSpace rfl
      simp only [Option.bind_some]
      rw [val_moved, Option.bind_some, val_rest.read]
      -- The variable ends at the zero that was written last.
      have var_cut : Points ((buffer.set stop 0).set
          (stop + 1 + (tail.takeWhile cfgIsSymChar).length) 0) (stop + 1)
          (tail.takeWhile cfgIsSymChar) := by
        rw [← List.takeWhile_append_dropWhile (p := cfgIsSymChar) (l := tail)] at var
        exact var.cut
      have category_kept := category.set_behind
        (i := stop + 1 + (tail.takeWhile cfgIsSymChar).length) (by omega)
      rw [var_cut.read, category_kept.read]
      rfl
  · rw [if_pos (fun same => dot (first.mp same)), if_pos dot]
    rfl

/-- A letter at the end is dropped if it is blank, and otherwise nothing is. -/
theorem trimEnd_append (line : List UInt8) (ch : UInt8) :
    trimEnd (line ++ [ch]) = if cfgIsSpace ch then trimEnd line else line ++ [ch] := by
  -- Seen from the end, the letter is the first one.
  unfold trimEnd
  rw [List.reverse_append, List.reverse_singleton, List.singleton_append, List.dropWhile_cons]
  split
  · rfl
  · rw [List.reverse_cons, List.reverse_reverse]

/-- The blanks at the end of a line are written over. -/
theorem stripEnd_string {line : List UInt8} (noNul : 0 ∉ line) (back : List UInt8) :
    ∃ buffer, stripEnd line.length (line ++ 0 :: back) = some buffer ∧
      Points buffer 0 (trimEnd line) := by
  -- The induction takes the letters from the end, as the loop does.
  induction line using List.reverseRecOn generalizing back with
  | nil => exact ⟨_, rfl, List.not_mem_nil, back, rfl⟩
  | append_singleton line ch ih =>
    have clean : 0 ∉ line := fun member => noNul (List.mem_append_left _ member)
    have last : (line ++ [ch] ++ 0 :: back)[line.length]? = some ch := by
      rw [List.append_assoc, List.getElem?_append_right (Nat.le_refl _), Nat.sub_self]
      rfl
    rw [List.length_append, List.length_singleton, stripEnd, last, trimEnd_append]
    simp only [Option.bind_eq_bind, Option.bind_some]
    split
    · have written : (line ++ [ch] ++ 0 :: back).set line.length 0 = line ++ 0 :: 0 :: back := by
        rw [List.append_assoc, List.set_append_right _ _ (Nat.le_refl _), Nat.sub_self]
        rfl
      rw [written]
      exact ih clean (0 :: back)
    · exact ⟨_, rfl, noNul, back, rfl⟩

/-- A line without a zero comes to what its text says, and nothing behind it is read. -/
theorem cfgLine_event {line : List UInt8} (noNul : 0 ∉ line) :
    cfgLine line = some (eventOf (trimEnd line)) := by
  -- Each part of the line is cut off by a zero of its own, and read up to that.
  obtain ⟨buffer, stripped, points⟩ := stripEnd_string noNul []
  have memory : stored line = line ++ 0 :: [] := rfl
  rw [cfgLine, memory, stripped]
  obtain ⟨moved, rest⟩ := points.skip cfgIsSpace rfl
  simp only [Option.bind_eq_bind, Option.bind_some]
  rw [moved, Option.bind_some, cfgNothing_string rest, Option.bind_some, eventOf]
  by_cases nothing : BeginsComment ((trimEnd line).dropWhile cfgIsSpace)
  · rw [if_pos (decide_eq_true nothing), if_pos nothing]
    rfl
  · rw [if_neg (fun yes => nothing (of_decide_eq_true yes)), if_neg nothing,
      cfgSetting_string rest]

end Parsing

section Grammar

variable {text category var val : List UInt8}

/-- Letters of a kind in front of one of another kind are taken off. -/
theorem span_front {test : UInt8 → Bool} {front rest : List UInt8}
    (letters : ∀ ch ∈ front, test ch) (stops : ∀ ch, rest.head? = some ch → test ch = false) :
    (front ++ rest).takeWhile test = front ∧ (front ++ rest).dropWhile test = rest := by
  -- The first letter of the rest is what stops.
  rw [List.takeWhile_append_of_pos letters, List.dropWhile_append_of_pos letters]
  cases rest with
  | nil => exact ⟨List.append_nil front, rfl⟩
  | cons ch rest =>
    have other : test ch = false := stops ch rfl
    rw [List.takeWhile_cons, other, List.dropWhile_cons, other]
    exact ⟨List.append_nil front, rfl⟩

/-- The letters that are taken off are of the kind. -/
theorem takeWhile_letters (test : UInt8 → Bool) (text : List UInt8) :
    ∀ ch ∈ text.takeWhile test, test ch := fun _ member => List.mem_takeWhile_imp member

/-- What is left begins with a letter of another kind. -/
theorem dropWhile_stops (test : UInt8 → Bool) (text : List UInt8) (ch : UInt8)
    (first : (text.dropWhile test).head? = some ch) : test ch = false := by
  have other := List.head?_dropWhile_not test text
  rw [first] at other
  simpa using other

/-- A text with a first letter. -/
theorem eq_cons_of_head? {ch : UInt8} (first : text.head? = some ch) : text = ch :: text.tail := by
  cases text with
  | nil => cases first
  | cons letter text => rw [Option.some.inj first, List.tail_cons]

/-- No letter of a name is blank, and none is the dot or the equals sign. -/
theorem symChar_other {ch : UInt8} (letter : cfgIsSymChar ch) :
    cfgIsSpace ch = false ∧ ch ≠ 0x3B ∧ ch ≠ 0x23 ∧ ch ≠ 0x2F := by
  -- The blanks and the marks are seven letters, none of which is one of a name.
  have other : ∀ mark : UInt8, cfgIsSymChar mark = false → ch ≠ mark := by
    rintro mark not_letter rfl
    rw [not_letter] at letter
    cases letter
  refine ⟨?_, other 0x3B rfl, other 0x23 rfl, other 0x2F rfl⟩
  simp only [cfgIsSpace, Bool.or_eq_false_iff, beq_eq_false_iff_ne]
  exact ⟨⟨⟨other 0x20 rfl, other 0x09 rfl⟩, other 0x0D rfl⟩, other 0x0A rfl⟩

/-- The text behind an equals sign is what follows it, with blanks in front of it at most. -/
theorem behindEquals_iff (behind : List UInt8) :
    behindEquals text = some behind ↔
      ∃ before, text = before ++ 0x3D :: behind ∧ ∀ ch ∈ before, cfgIsSpace ch := by
  -- The text begins with the equals sign, or with a blank and later the sign.
  constructor
  · intro found
    unfold behindEquals at found
    split at found
    · rename_i equals
      refine ⟨[], ?_, nofun⟩
      rw [List.nil_append, ← Option.some.inj found]
      exact eq_cons_of_head? equals
    · split at found
      · cases found
      · rename_i space
        dsimp only at found
        split at found
        · rename_i equals
          cases text with
          | nil => exact absurd Bool.false_ne_true space
          | cons first text =>
            rw [List.tail_cons] at found equals
            refine ⟨first :: text.takeWhile cfgIsSpace, ?_, ?_⟩
            · have rest := eq_cons_of_head? equals
              rw [← Option.some.inj found, ← rest, List.cons_append,
                List.takeWhile_append_dropWhile]
            · intro ch member
              obtain rfl | later := List.mem_cons.mp member
              · exact not_not.mp space
              · exact takeWhile_letters cfgIsSpace text ch later
        · cases found
  · rintro ⟨before, rfl, blanks⟩
    unfold behindEquals
    cases before with
    | nil => rw [List.nil_append, List.head?_cons, if_pos rfl, List.tail_cons]
    | cons first before =>
      have space : cfgIsSpace first := blanks first List.mem_cons_self
      have other : ¬ some first = some (0x3D : UInt8) := by
        intro same
        rw [Option.some.inj same] at space
        cases space
      have stops : ∀ ch, (0x3D :: behind).head? = some ch → cfgIsSpace ch = false := by
        intro ch same
        rw [← Option.some.inj same]
        rfl
      have rest := span_front (fun ch member => blanks ch (List.mem_cons_of_mem first member)) stops
      rw [List.cons_append, List.head?_cons, if_neg other, Option.getD_some,
        if_neg (not_not.mpr space), List.tail_cons]
      dsimp only
      rw [rest.2, List.head?_cons, if_pos rfl, List.tail_cons]

/-- A text that comes to a setting is one of the grammar. -/
theorem setting_of_event {handler : CfgHandler}
    (event : eventOf text = .setting category var val handler) :
    IsSetting text category var val ∧ handler = cfgHandler category := by
  unfold eventOf at event
  dsimp only at event
  split at event
  · cases event
  have blanks := List.takeWhile_append_dropWhile (p := cfgIsSpace) (l := text)
  generalize text.dropWhile cfgIsSpace = start at event blanks
  unfold settingOf at event
  dsimp only at event
  split at event
  · cases event
  rename_i dot
  have names := List.takeWhile_append_dropWhile (p := cfgIsSymChar) (l := start)
  rw [eq_cons_of_head? (not_not.mp dot)] at names
  generalize (start.dropWhile cfgIsSymChar).tail = rest at event names
  cases found : behindEquals (rest.dropWhile cfgIsSymChar) with
  | none =>
    rw [found] at event
    cases event
  | some behind =>
    rw [found] at event
    obtain ⟨before, equals, before_blank⟩ := (behindEquals_iff behind).mp found
    have vars := List.takeWhile_append_dropWhile (p := cfgIsSymChar) (l := rest)
    have values := List.takeWhile_append_dropWhile (p := cfgIsSpace) (l := behind)
    dsimp only at event
    unfold cfgProcessLine at event
    split at event
    · cases event
    rename_i empty
    cases event
    refine ⟨⟨⟨text.takeWhile cfgIsSpace, before, behind.takeWhile cfgIsSpace, ?_,
      takeWhile_letters _ _, before_blank, takeWhile_letters _ _⟩, ⟨fun none => empty (Or.inl none),
      takeWhile_letters _ _⟩, ⟨fun none => empty (Or.inr none), takeWhile_letters _ _⟩,
      fun ch first => dropWhile_stops _ _ ch first⟩, rfl⟩
    rw [values, ← equals, vars, names, blanks]

/-- A text of the grammar comes to its setting. -/
theorem event_of_setting (setting : IsSetting text category var val) :
    eventOf text = .setting category var val (cfgHandler category) := by
  obtain ⟨⟨lead, before, after, rfl, lead_blank, before_blank, after_blank⟩, ⟨some_category,
    category_letters⟩, ⟨some_var, var_letters⟩, val_first⟩ := setting
  obtain ⟨letter, letters, is_category⟩ := List.exists_cons_of_ne_nil some_category
  have symbol : cfgIsSymChar letter := category_letters letter (is_category ▸ List.mem_cons_self)
  obtain ⟨not_space, not_comment⟩ := symChar_other symbol
  obtain ⟨rest, is_rest⟩ : ∃ rest, rest = before ++ 0x3D :: (after ++ val) := ⟨_, rfl⟩
  rw [← is_rest]
  have started : ∀ ch, (category ++ 0x2E :: (var ++ rest)).head? = some ch →
      ch = letter := by
    intro ch first
    rw [is_category] at first
    exact (Option.some.inj first).symm
  have skipped := span_front lead_blank (fun ch first => by rw [started ch first, not_space])
  have dot_stops : ∀ ch, (0x2E :: (var ++ rest)).head? = some ch → cfgIsSymChar ch = false := by
    intro ch first
    rw [← Option.some.inj first]
    rfl
  have named := span_front category_letters dot_stops
  -- The variable ends at a blank or at the equals sign.
  have var_stops : ∀ ch, rest.head? = some ch → cfgIsSymChar ch = false := by
    intro ch first
    rw [is_rest] at first
    cases before with
    | nil => rw [← Option.some.inj first]; rfl
    | cons blank before =>
      rw [← Option.some.inj first]
      have space := before_blank blank List.mem_cons_self
      by_contra symbol
      rw [(symChar_other (Bool.not_eq_false _ ▸ symbol)).1] at space
      cases space
  have vars := span_front var_letters var_stops
  have equals := (behindEquals_iff (after ++ val)).mpr ⟨before, is_rest, before_blank⟩
  have values := span_front after_blank val_first
  have no_comment : ¬ BeginsComment (category ++ 0x2E :: (var ++ rest)) := by
    rw [is_category]
    simp [BeginsComment, not_comment]
  rw [eventOf, skipped.2, if_neg no_comment, settingOf, named.1, named.2, List.head?_cons,
    if_neg (not_not.mpr rfl), List.tail_cons, vars.1, vars.2, equals]
  dsimp only
  rw [values.2, cfgProcessLine, if_neg (fun empty => empty.elim some_category some_var)]

/-- No setting is skipped. -/
theorem settingOf_not_skipped (text : List UInt8) : settingOf text ≠ .skipped := by
  -- Every way out of the reader of settings is a warning or a setting.
  unfold settingOf
  dsimp only
  split
  · intro same
    cases same
  · split
    · intro same
      cases same
    · unfold cfgProcessLine
      split <;> intro same <;> cases same

/-- A line without blanks at its end does not end with one. -/
theorem trimEnd_last {line front : List UInt8} {ch : UInt8}
    (split : trimEnd line = front ++ [ch]) : cfgIsSpace ch = false := by
  -- The last letter is the first one that was not dropped from the end.
  have first := congrArg List.reverse split
  rw [trimEnd, List.reverse_reverse, List.reverse_append] at first
  refine dropWhile_stops cfgIsSpace line.reverse ch ?_
  rw [first]
  rfl

/-- A line is skipped if there is nothing in it, or nothing but a comment. -/
theorem skipped_iff (line : List UInt8) :
    eventOf (trimEnd line) = .skipped ↔ trimEnd line = [] ∨ IsComment (trimEnd line) := by
  have blanks := List.takeWhile_append_dropWhile (p := cfgIsSpace) (l := trimEnd line)
  have letters := takeWhile_letters cfgIsSpace (trimEnd line)
  have begins : eventOf (trimEnd line) = .skipped ↔
      BeginsComment ((trimEnd line).dropWhile cfgIsSpace) := by
    unfold eventOf
    dsimp only
    split
    · rename_i comment
      exact ⟨fun _ => comment, fun _ => rfl⟩
    · rename_i comment
      exact ⟨fun skipped => absurd skipped (settingOf_not_skipped _), fun yes => absurd yes comment⟩
  rw [begins]
  constructor
  · intro nothing
    generalize is_rest : (trimEnd line).dropWhile cfgIsSpace = rest at blanks nothing
    obtain rfl | semicolon | hash | ⟨slash, second⟩ := nothing
    · -- A line of blanks would end with one.
      left
      rw [List.append_nil] at blanks
      by_contra some_line
      obtain ⟨front, ch, split⟩ : ∃ front ch, trimEnd line = front ++ [ch] := by
        exact ⟨_, _, (List.dropLast_append_getLast some_line).symm⟩
      have last := trimEnd_last split
      have member : ch ∈ (trimEnd line).takeWhile cfgIsSpace := by
        rw [blanks, split]
        exact List.mem_append_right _ List.mem_cons_self
      rw [letters ch member] at last
      cases last
    · rw [eq_cons_of_head? semicolon] at blanks
      exact Or.inr ⟨_, _, letters, Or.inl blanks.symm⟩
    · rw [eq_cons_of_head? hash] at blanks
      exact Or.inr ⟨_, _, letters, Or.inr (Or.inl blanks.symm)⟩
    · rw [eq_cons_of_head? slash, eq_cons_of_head? second] at blanks
      exact Or.inr ⟨_, _, letters, Or.inr (Or.inr blanks.symm)⟩
  · rintro (empty | ⟨lead, rest, lead_blank, semicolon | hash | slash⟩)
    · rw [empty]
      exact Or.inl rfl
    · rw [semicolon, (span_front lead_blank (fun ch first => by
        rw [← Option.some.inj first]; rfl)).2]
      exact Or.inr (Or.inl rfl)
    · rw [hash, (span_front lead_blank (fun ch first => by
        rw [← Option.some.inj first]; rfl)).2]
      exact Or.inr (Or.inr (Or.inl rfl))
    · rw [slash, (span_front lead_blank (fun ch first => by
        rw [← Option.some.inj first]; rfl)).2]
      exact Or.inr (Or.inr (Or.inr ⟨rfl, rfl⟩))

/-- Each line comes to what it has to. -/
theorem eventOf_right (line : List UInt8) : LineRight line (eventOf (trimEnd line)) := by
  -- The two characterisations leave the warning for what is neither.
  have setting : ∀ category var val,
      (∃ handler, eventOf (trimEnd line) = .setting category var val handler) ↔
        IsSetting (trimEnd line) category var val := by
    intro category var val
    constructor
    · intro ⟨handler, event⟩
      exact (setting_of_event event).1
    · exact fun setting => ⟨_, event_of_setting setting⟩
  refine ⟨setting, fun category var val handler event => (setting_of_event event).2,
    skipped_iff line, ?_⟩
  have skipped := skipped_iff line
  cases event : eventOf (trimEnd line) with
  | skipped =>
    have nothing := skipped.mp event
    exact ⟨nofun, fun warned => absurd nothing (not_or.mpr ⟨warned.1, warned.2.1⟩)⟩
  | warned =>
    rw [event] at skipped setting
    have something : ¬ (trimEnd line = [] ∨ IsComment (trimEnd line)) :=
      fun nothing => nomatch skipped.mpr nothing
    refine ⟨fun _ => ⟨fun empty => something (Or.inl empty), fun comment =>
      something (Or.inr comment), fun category var val is_setting => ?_⟩, fun _ => rfl⟩
    obtain ⟨handler, other⟩ := (setting category var val).mpr is_setting
    cases other
  | setting category var val handler =>
    have is_setting := (setting_of_event event).1
    exact ⟨nofun, fun warned => absurd is_setting (warned.2.2 category var val)⟩

/-- The lines of a file are the file. -/
theorem cfgFileLines_flatten (file : List UInt8) : (cfgFileLines file).flatten = file := by
  -- A letter begins a line, or is put in front of the first line of the rest.
  induction file with
  | nil => rfl
  | cons ch rest ih =>
    rw [cfgFileLines]
    split
    · rw [List.flatten_cons, ih]
      rfl
    · split
      · rename_i empty
        rw [empty] at ih
        rw [← ih]
        rfl
      · rename_i line lines split
        rw [split, List.flatten_cons] at ih
        rw [List.flatten_cons, List.cons_append, ih]

/-- Each line is processed on its own. -/
theorem cfgLoadLines_events {lines : List (List UInt8)} (noNul : ∀ line ∈ lines, 0 ∉ line)
    (lineno : Nat) :
    cfgLoadLines lineno lines =
      some (lines.mapIdx fun i line => (lineno + i + 1, eventOf (trimEnd line))) := by
  -- The lines so far are counted by the number that is handed on.
  induction lines generalizing lineno with
  | nil => rfl
  | cons line lines ih =>
    have clean : 0 ∉ line := noNul line List.mem_cons_self
    have rest := ih (fun other member => noNul other (List.mem_cons_of_mem line member)) (lineno + 1)
    rw [cfgLoadLines]
    simp only [Option.bind_eq_bind]
    rw [cfgLine_event clean, Option.bind_some, rest, Option.bind_some, List.mapIdx_cons]
    have numbers : ∀ i, lineno + 1 + i + 1 = lineno + (i + 1) + 1 := fun i => by omega
    simp only [numbers]
    rfl

/--
Loading a file without zeros never reads behind a line; there is one event for each line, with its
number, and it is the one that the line has to come to.
-/
theorem config_lines_right {file : List UInt8} (noNul : 0 ∉ file) :
    ∃ events, cfgLoadFile (some file) = some events ∧
      events.length = (cfgFileLines file).length ∧
      ∀ i line, (cfgFileLines file)[i]? = some line →
        ∃ event, events[i]? = some (i + 1, event) ∧ LineRight line event := by
  -- The lines have no zero in them, since they are the file.
  have clean : ∀ line ∈ cfgFileLines file, 0 ∉ line := by
    intro line member zero
    apply noNul
    rw [← cfgFileLines_flatten file]
    exact List.mem_flatten.mpr ⟨line, member, zero⟩
  refine ⟨_, cfgLoadLines_events clean 0, List.length_mapIdx, fun i line found => ?_⟩
  refine ⟨eventOf (trimEnd line), ?_, eventOf_right line⟩
  rw [List.getElem?_mapIdx, found, Option.map_some, Nat.zero_add]

/-- A file with a setting and a line that is none. -/
theorem two_lines_right :
    ∃ events, cfgLoadFile (some (ascii "a.b = c\nd=e\n")) = some events ∧
      events.length = (cfgFileLines (ascii "a.b = c\nd=e\n")).length ∧
      ∀ i line, (cfgFileLines (ascii "a.b = c\nd=e\n"))[i]? = some line →
        ∃ event, events[i]? = some (i + 1, event) ∧ LineRight line event :=
  config_lines_right (by decide)

end Grammar

end TwoIne
