import TwoIne.DosCalls.Wildcards
import TwoIne.Lib.Globs

/-! A search decides what its pattern means exactly if committing itself at every star is safe. -/

namespace TwoIne

open CStrings Globs

/--
What the bytes of a pattern mean: any byte or the end, the first full stop a full stop or the end,
any number of bytes, or a byte up to the case of letters.
-/
def wildcardItems (ext : Bool) : List UInt8 → List (Item UInt8)
  | [] => []
  | pat :: pattern =>
    if pat = questionMark then .one (fun _ => true) true :: wildcardItems ext pattern
    else if pat = fullStop ∧ ext = false then
      .one (fun ch => ch = fullStop) true :: wildcardItems true pattern
    else if pat = asterisk then
      .many (fun ch => ch = pattern.head?.getD 0) :: wildcardItems ext pattern
    else .one (fun ch => foldByte ch = foldByte pat) false :: wildcardItems ext pattern

/-- The names that a pattern stands for. -/
def WildcardMatches (str pattern : List UInt8) : Prop := Matches (wildcardItems false pattern) str

/--
At every star the scan comes to: if the rest of the pattern stands for some end of what is left of
the name, then for the one that the first byte starts which stands next in the pattern.
-/
def StarsSafe (str pattern : List UInt8) : Prop := Safe (wildcardItems false pattern) str

/-- The scan commits itself at every star. -/
theorem wildcardScan_eq (ext : Bool) (pattern str : List UInt8) :
    wildcardScan ext pattern str = committed (wildcardItems ext pattern) str := by
  induction pattern generalizing ext str with
  | nil => rfl
  | cons pat pattern ih =>
    unfold wildcardScan wildcardItems
    split
    · -- Any byte is taken, and at the end none.
      cases str with
      | nil => simp [committed, ih]
      | cons ch rest => simp [committed, ih]
    · split
      · cases str with
        | nil => simp [committed, ih]
        | cons ch rest => by_cases dot : ch = fullStop <;> simp [committed, ih, dot]
      · split
        · rw [committed, ← ih]
          simp [skipTo, fromStop]
        · cases str with
          | nil => rfl
          | cons ch rest =>
            by_cases same : foldByte ch = foldByte pat <;> simp [committed, ih, same]

/-- The search decides what the pattern means exactly if every star is safe. -/
theorem wildcardMatch_decides_iff (name pattern : CString) :
    (wildcardMatch name.bytes pattern.bytes = true ↔
        WildcardMatches name.bytes pattern.bytes) ↔
      StarsSafe name.bytes pattern.bytes := by
  rw [wildcardMatch, wildcardScan_eq, WildcardMatches, StarsSafe]
  exact committed_decides_iff

/-- A name with two extensions is not found by its last one. -/
theorem second_extension_missed :
    wildcardMatch (ascii "a.b.c") (ascii "*.c") = false ∧
      WildcardMatches (ascii "a.b.c") (ascii "*.c") := by
  refine ⟨by decide, ?_⟩
  have extension : Matches (wildcardItems false (ascii ".c")) (ascii ".c") := by
    simp [wildcardItems, ascii, questionMark, fullStop, asterisk, foldByte]
  exact .many ⟨ascii "a.b", rfl⟩ extension

end TwoIne
