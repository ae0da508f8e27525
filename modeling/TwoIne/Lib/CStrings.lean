import Mathlib.Data.List.TakeWhile

/-! Strings as C stores them: the bytes in front of the first zero. -/

namespace CStrings

/-- A byte string that C can store, which has no zero in it. -/
structure CString where
  bytes : List UInt8
  noNul : 0 ∉ bytes
  deriving DecidableEq, Repr

/-- A byte string as it is stored, with the zero that ends it. -/
def stored (bytes : List UInt8) : List UInt8 := bytes ++ [0]

/-- The string that memory starts with. -/
def readString (memory : List UInt8) : List UInt8 := memory.takeWhile (· ≠ 0)

/-- The memory behind the string that it starts with, and behind the zero that ends it. -/
def afterString (memory : List UInt8) : List UInt8 := (memory.dropWhile (· ≠ 0)).drop 1

/-- The bytes of a text of the source. -/
def ascii (text : String) : List UInt8 := text.toList.map fun letter => letter.toNat.toUInt8

/-- No byte of a string stops a reader. -/
theorem not_stopped {bytes : List UInt8} (noNul : 0 ∉ bytes) :
    ∀ byte ∈ bytes, decide (byte ≠ 0) = true := by
  intro byte member
  have other : byte ≠ 0 := by
    rintro rfl
    exact noNul member
  exact decide_eq_true other

/-- A stored string is read back, whatever is behind it. -/
theorem readString_stored {bytes : List UInt8} (noNul : 0 ∉ bytes) (rest : List UInt8) :
    readString (stored bytes ++ rest) = bytes := by
  -- The zero behind the string stops the reader.
  rw [readString, stored, List.append_assoc, List.takeWhile_append_of_pos (not_stopped noNul)]
  simp

/-- What is behind a stored string is found there. -/
theorem afterString_stored {bytes : List UInt8} (noNul : 0 ∉ bytes) (rest : List UInt8) :
    afterString (stored bytes ++ rest) = rest := by
  -- The zero that ends the string is the byte that is dropped.
  rw [afterString, stored, List.append_assoc, List.dropWhile_append_of_pos (not_stopped noNul)]
  simp

/-- A string that was read has no zero in it. -/
theorem readString_noNul (memory : List UInt8) : 0 ∉ readString memory := by
  -- Reading stops in front of the first zero.
  intro member
  simpa using List.mem_takeWhile_imp member

end CStrings
