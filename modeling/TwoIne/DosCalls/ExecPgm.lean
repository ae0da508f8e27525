import TwoIne.Lib2ine.Pib
import TwoIne.Os2Errors

/-! The arguments of a program that another one starts. -/

namespace TwoIne

open CStrings

/-- The size of a pointer. -/
def pointerSize : Nat := 4

/-- A byte that does not end a quoted argument. -/
def inQuotes (ch : UInt8) : Bool := ch != quoteMark

/-- What is behind the quote that ends an argument, which the text may lack. -/
def afterQuotes (src : List UInt8) : List UInt8 := (src.dropWhile inQuotes).drop 1

/-- Skipping text makes it no longer. -/
theorem afterQuotes_length (src : List UInt8) : (afterQuotes src).length ≤ src.length := by
  have dropped := (List.dropWhile_suffix (p := inQuotes) (l := src)).length_le
  simp only [afterQuotes, List.length_drop]
  omega

/-- Skipping blanks makes a text no longer. -/
theorem dropBlanks_length (src : List UInt8) : (src.dropWhile isBlank).length ≤ src.length :=
  (List.dropWhile_suffix (p := isBlank) (l := src)).length_le

/--
The arguments of a text, where `word` is what was read since the start of the next one.

A quote ends the argument it stands in at the next quote, and takes the first byte of it away.
-/
def calcArgvWords (word : List UInt8) : List UInt8 → List (List UInt8)
  | [] => if word = [] then [] else [word]
  | ch :: src =>
    if isBlank ch then word :: calcArgvWords [] (src.dropWhile isBlank)
    else if ch = quoteMark then
      (word ++ ch :: src.takeWhile inQuotes).drop 1 ::
        calcArgvWords [] ((afterQuotes src).dropWhile isBlank)
    else calcArgvWords (word ++ [ch]) src
termination_by src => src.length
decreasing_by
  · exact Nat.lt_succ_of_le (dropBlanks_length src)
  · exact Nat.lt_succ_of_le ((dropBlanks_length _).trans (afterQuotes_length src))
  · exact Nat.lt_succ_self _

/-- The number of pointers that are counted, one of them for the end of the list. -/
def argvPointers (text : List UInt8) : Nat := 1 + text.countP isBlank + 1

/-- The size of the memory of the pointers and of the strings. -/
def argvSize (argv0 text : List UInt8) : Nat :=
  text.length + argv0.length + 1 + pointerSize + argvPointers text * (pointerSize + 1)

/--
The arguments for a new process, from the command line of the call.

The strings are written behind one pointer more than was counted. Pointers written over the
strings, or strings written past the memory, are a fault.
-/
def calcArgv (malloc : Bool) (os2args : List UInt8) : Option (Except ApiRet (List (List UInt8))) :=
  let argv0 := readString os2args
  if argv0 = [] then some (.error .errorBadEnvironment)
  else if !malloc then some (.error .errorNotEnoughMemory)
  else
    let text := readString (afterString os2args)
    let argv := argv0 :: calcArgvWords [] (text.dropWhile isBlank)
    let strings := (argvPointers text + 1) * pointerSize
    if argv.length + 1 ≤ argvPointers text + 1 ∧
        strings + (argv.flatMap stored).length ≤ argvSize argv0 text then
      some (.ok argv)
    else none

end TwoIne
