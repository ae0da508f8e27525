import TwoIne.Lib.CStrings

/-! The patterns that a directory is searched with. -/

namespace TwoIne

/-- The byte that stands for any other one. -/
def questionMark : UInt8 := 63

/-- The byte that stands for any number of others. -/
def asterisk : UInt8 := 42

/-- The byte in front of an extension. -/
def fullStop : UInt8 := 46

/-- A byte without the case of letters. -/
def foldByte (ch : UInt8) : UInt8 := if 65 ≤ ch ∧ ch ≤ 90 then ch + 32 else ch

/-- Going on to the first byte that stands next in a pattern; behind a pattern there is a zero. -/
def skipTo (pattern str : List UInt8) : List UInt8 :=
  str.dropWhile fun ch => ch ≠ pattern.head?.getD 0

/-- The scan of a name; `ext` says whether the first full stop of the pattern was passed. -/
def wildcardScan (ext : Bool) : List UInt8 → List UInt8 → Bool
  | [], str => str.isEmpty
  | pat :: pattern, str =>
    if pat = questionMark then wildcardScan ext pattern (str.drop 1)
    else if pat = fullStop ∧ ext = false then
      match str with
      | [] => wildcardScan true pattern []
      | ch :: rest => if ch = fullStop then wildcardScan true pattern rest else false
    else if pat = asterisk then wildcardScan ext pattern (skipTo pattern str)
    else
      match str with
      | [] => false
      | ch :: rest => if foldByte ch = foldByte pat then wildcardScan ext pattern rest else false

/-- Whether a name is one that a pattern stands for. -/
def wildcardMatch (str pattern : List UInt8) : Bool := wildcardScan false pattern str

end TwoIne
