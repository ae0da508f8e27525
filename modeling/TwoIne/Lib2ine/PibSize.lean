import Mathlib.Algebra.GroupWithZero.Nat
import TwoIne.Lib2ine.Pib

/-! The size that is counted for the block of a new process before it is written. -/

namespace TwoIne

open CStrings

/-- What is counted while the bytes of an argument are read. -/
structure ArgCount where
  needsEscape : Bool := false
  numBackslashes : Nat := 0
  len : Nat
  deriving DecidableEq, Repr

/-- Counting a byte; quotes are taken for bytes that are escaped. -/
def ArgCount.byte (count : ArgCount) (ch : UInt8) : ArgCount :=
  if isBlank ch then
    { count with
        needsEscape := true
        len := count.len + 1 }
  else if ch = backslash ∨ ch = quoteMark then
    { count with
        numBackslashes := count.numBackslashes + 1
        len := count.len + 1 }
  else { count with len := count.len + 1 }

/-- Counting an argument with its zero. -/
def countArg (len : Nat) (arg : CString) : Nat :=
  let count := arg.bytes.foldl ArgCount.byte { len }
  (if count.needsEscape then count.len + (2 + count.numBackslashes) else count.len) + 1

/-- Counting a variable of the environment, if it is copied. -/
def countVariable (path : CString) (subprocess : Bool) (len : Nat) (str : CString) : Nat :=
  match copiedVariable path subprocess str with
  | none => len
  | some str => len + (str.bytes.length + 1)

/-- The size that is counted, which the memory that is asked for does not depend on. -/
def pibLength (src : PibSource) : Nat :=
  let len := (src.argv0 :: src.args).foldl countArg 1
  let len := len + (src.argv0.bytes.length + 1)
  let len := src.envp.foldl (countVariable src.path src.subprocess) len
  (len + 4) % 2 ^ 32

end TwoIne
