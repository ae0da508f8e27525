import Mathlib.Algebra.Group.Nat.Defs
import Mathlib.Data.List.Basic

/-! Numbers in texts, as the C library reads them. -/

namespace Numerals

/-- What counts as white space. -/
def isSpace (c : Char) : Bool :=
  c = ' ' || c = '\t' || c = '\n' || c.toNat = 0x0B || c.toNat = 0x0C || c = '\r'

/-- The value of a digit or a letter. -/
def digitValue (c : Char) : Option Nat :=
  if '0' ≤ c ∧ c ≤ '9' then some (c.toNat - 0x30)
  else if 'a' ≤ c ∧ c ≤ 'z' then some (c.toNat - 0x61 + 10)
  else if 'A' ≤ c ∧ c ≤ 'Z' then some (c.toNat - 0x41 + 10)
  else none

/-- The value of a digit of a base. -/
def digitOf (base : Nat) (c : Char) : Option Nat := (digitValue c).filter fun d => d < base

/-- Reading digits as far as there are any; the answer is the number and the text behind it. -/
def readDigits (base : Nat) : Nat → List Char → Nat × List Char
  | value, [] => (value, [])
  | value, c :: text =>
    match digitOf base c with
    | none => (value, c :: text)
    | some d => readDigits base (value * base + d) text

/-- Whether a text begins with a digit. -/
def startsWithDigit (base : Nat) : List Char → Bool
  | [] => false
  | c :: _ => (digitOf base c).isSome

/-- The sign of a number, and the text behind it. -/
def readSign : List Char → Bool × List Char
  | '-' :: text => (true, text)
  | '+' :: text => (false, text)
  | text => (false, text)

/-- The base of a number that may be marked in front of it, and the digits. -/
def readBase (base : Nat) : List Char → Nat × List Char
  | '0' :: 'x' :: text =>
    if (base = 16 ∨ base = 0) ∧ startsWithDigit 16 text then (16, text)
    else (if base = 0 then 8 else base, '0' :: 'x' :: text)
  | '0' :: 'X' :: text =>
    if (base = 16 ∨ base = 0) ∧ startsWithDigit 16 text then (16, text)
    else (if base = 0 then 8 else base, '0' :: 'X' :: text)
  | '0' :: text => (if base = 0 then 8 else base, '0' :: text)
  | text => (if base = 0 then 10 else base, text)

/--
Reading a number of 32 bits; the answer is the number and the text behind it, all of the text if no
number is there.
-/
def strtoul (text : List Char) (base : Nat) : BitVec 32 × List Char :=
  let signed := readSign (text.dropWhile isSpace)
  let based := readBase base signed.2
  if startsWithDigit based.1 based.2 then
    let number := readDigits based.1 0 based.2
    if 2 ^ 32 ≤ number.1 then (0xFFFFFFFF, number.2)
    else (if signed.1 then - BitVec.ofNat 32 number.1 else BitVec.ofNat 32 number.1, number.2)
  else (0, text)

/-- A text without the mark of hexadecimal numbers. -/
def unmarked : List Char → List Char
  | '0' :: 'x' :: text => text
  | '0' :: 'X' :: text => text
  | text => text

/-- Reading a hexadecimal number of 16 bits, and the text behind it. -/
def scanHex (text : List Char) : Option (BitVec 16 × List Char) :=
  let signed := readSign (text.dropWhile isSpace)
  let digits := unmarked signed.2
  if startsWithDigit 16 digits then
    let number := readDigits 16 0 digits
    some (if signed.1 then - BitVec.ofNat 16 number.1 else BitVec.ofNat 16 number.1, number.2)
  else none

/-- Reading two hexadecimal numbers with a comma between them. -/
def scanHexPair (text : List Char) : Option (BitVec 16 × BitVec 16) :=
  match scanHex text with
  | some (first, ',' :: text) => (scanHex text).map fun second => (first, second.1)
  | _ => none

/-- A hexadecimal number as it is printed, marked as one. -/
def HexNumeral (value : Nat) (text : List Char) : Prop :=
  ∃ digits, text = '0' :: 'x' :: digits ∧ digits ≠ [] ∧
    (∀ c ∈ digits, (digitOf 16 c).isSome) ∧ readDigits 16 0 digits = (value, [])

section Texts

variable {base value : Nat} {text digits tail : List Char} {c : Char}

/-- Digits are read up to the first character that is none. -/
theorem readDigits_append (all : ∀ c ∈ digits, (digitOf base c).isSome)
    (ends : startsWithDigit base tail = false) (value : Nat) :
    readDigits base value (digits ++ tail) = ((readDigits base value digits).1, tail) := by
  induction digits generalizing value with
  | nil =>
    cases tail with
    | nil => rfl
    | cons c tail =>
      -- The text behind the digits starts with none.
      have none_there : digitOf base c = none := Option.not_isSome_iff_eq_none.mp (by
        rw [startsWithDigit] at ends
        exact Bool.eq_false_iff.mp ends)
      rw [List.nil_append, readDigits.eq_2, none_there]
      rfl
  | cons c digits ih =>
    obtain ⟨d, there⟩ := Option.isSome_iff_exists.mp (all c List.mem_cons_self)
    rw [List.cons_append, readDigits.eq_2, there, readDigits.eq_2, there]
    exact ih (fun c member => all c (List.mem_cons_of_mem _ member)) _

/-- A number that is printed begins with digits behind its mark. -/
theorem HexNumeral.starts (numeral : HexNumeral value text) (tail : List Char) :
    ∃ digits, text = '0' :: 'x' :: digits ∧ startsWithDigit 16 (digits ++ tail) = true ∧
      (∀ c ∈ digits, (digitOf 16 c).isSome) ∧ readDigits 16 0 digits = (value, []) := by
  obtain ⟨digits, same, some_there, all, read⟩ := numeral
  refine ⟨digits, same, ?_, all, read⟩
  cases digits with
  | nil => exact absurd rfl some_there
  | cons c digits => exact all c List.mem_cons_self

/-- A number that is printed is read. -/
theorem strtoul_numeral (numeral : HexNumeral value text) (small : value < 2 ^ 32)
    (ends : startsWithDigit 16 tail = false) (based : base = 16 ∨ base = 0) :
    strtoul (text ++ tail) base = (BitVec.ofNat 32 value, tail) := by
  obtain ⟨digits, rfl, starts, all, read⟩ := numeral.starts tail
  have number := readDigits_append all ends 0
  rw [read] at number
  have unsigned : readSign (List.dropWhile isSpace ('0' :: 'x' :: digits ++ tail)) =
      (false, '0' :: 'x' :: (digits ++ tail)) := rfl
  have marked : readBase base ('0' :: 'x' :: (digits ++ tail)) = (16, digits ++ tail) := by
    rw [readBase, if_pos ⟨based, starts⟩]
  unfold strtoul
  rw [unsigned]
  dsimp only
  rw [marked]
  dsimp only
  rw [if_pos starts, number, if_neg (Nat.not_le.mpr small), if_neg Bool.false_ne_true]

/-- A number that is printed is scanned. -/
theorem scanHex_numeral (numeral : HexNumeral value text)
    (ends : startsWithDigit 16 tail = false) :
    scanHex (text ++ tail) = some (BitVec.ofNat 16 value, tail) := by
  obtain ⟨digits, rfl, starts, all, read⟩ := numeral.starts tail
  have number := readDigits_append all ends 0
  rw [read] at number
  have unsigned : readSign (List.dropWhile isSpace ('0' :: 'x' :: digits ++ tail)) =
      (false, '0' :: 'x' :: (digits ++ tail)) := rfl
  have marked : unmarked ('0' :: 'x' :: (digits ++ tail)) = digits ++ tail := rfl
  unfold scanHex
  rw [unsigned]
  dsimp only
  rw [marked, if_pos starts, number, if_neg Bool.false_ne_true]

/-- Blanks in front of a number are skipped. -/
theorem scanHex_gap {gap : List Char} (blank : ∀ c ∈ gap, isSpace c) :
    scanHex (gap ++ text) = scanHex text := by
  unfold scanHex
  rw [List.dropWhile_append_of_pos blank]

/-- Two numbers that are printed with a comma between them are scanned. -/
theorem scanHexPair_numerals {first second : Nat} {front gap back : List Char}
    (left : HexNumeral first front) (blank : ∀ c ∈ gap, isSpace c)
    (right : HexNumeral second back) :
    scanHexPair (front ++ ',' :: (gap ++ back)) =
      some (BitVec.ofNat 16 first, BitVec.ofNat 16 second) := by
  have comma : startsWithDigit 16 (',' :: (gap ++ back)) = false := rfl
  have whole : scanHex (back ++ []) = some (BitVec.ofNat 16 second, []) :=
    scanHex_numeral right rfl
  rw [List.append_nil] at whole
  unfold scanHexPair
  rw [scanHex_numeral left comma]
  show (scanHex (gap ++ back)).map (fun second => (BitVec.ofNat 16 first, second.1)) = _
  rw [scanHex_gap blank, whole]
  rfl

/-- What is left behind digits is an end of the text. -/
theorem readDigits_suffix (base value : Nat) (text : List Char) :
    (readDigits base value text).2 <:+ text := by
  induction text generalizing value with
  | nil => exact List.suffix_rfl
  | cons c text ih =>
    rw [readDigits]
    split
    · exact List.suffix_rfl
    · exact (ih _).trans (List.suffix_cons c text)

/-- What is left behind a sign is an end of the text. -/
theorem readSign_suffix (text : List Char) : (readSign text).2 <:+ text := by
  unfold readSign
  split
  · exact List.suffix_cons _ _
  · exact List.suffix_cons _ _
  · exact List.suffix_rfl

/-- What is left behind a mark is an end of the text. -/
theorem unmarked_suffix (text : List Char) : unmarked text <:+ text := by
  unfold unmarked
  split
  · exact (List.suffix_cons _ _).trans (List.suffix_cons _ _)
  · exact (List.suffix_cons _ _).trans (List.suffix_cons _ _)
  · exact List.suffix_rfl

/-- What is left behind a number that is scanned is an end of the text. -/
theorem scanHex_suffix {number : BitVec 16} (scanned : scanHex text = some (number, tail)) :
    tail <:+ text := by
  unfold scanHex at scanned
  dsimp only at scanned
  split at scanned
  · cases scanned
    exact (readDigits_suffix _ _ _).trans ((unmarked_suffix _).trans
      ((readSign_suffix _).trans (List.dropWhile_suffix _)))
  · cases scanned

/-- Without a comma there are no two numbers. -/
theorem scanHexPair_none (single : ',' ∉ text) : scanHexPair text = none := by
  unfold scanHexPair
  split
  · rename_i first tail scanned
    -- The comma behind the first number would be one of the text.
    exact absurd ((scanHex_suffix scanned).subset List.mem_cons_self) single
  · rfl

end Texts

end Numerals
