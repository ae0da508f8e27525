import Mathlib.Algebra.Group.Nat.Defs
import TwoIne.Lib.CStrings

/-!
Loading a source file: tabs are expanded into a block, and the lines are cut out of it in place.

Nothing comes back where a byte behind the end of a block is written.
-/

namespace TwoIne

/-- What is kept of the text of a source file. -/
structure SourceText where
  /-- The bytes of the block that the lines are in. -/
  content : List UInt8
  /-- Where in the block each line starts. -/
  lines : List Nat
  numLines : Nat
  deriving DecidableEq, Repr

/-- Writing a byte behind those written, in a block of so many. -/
def putByte (room : Nat) (content : List UInt8) (ch : UInt8) : Option (List UInt8) :=
  if content.length < room then some (content ++ [ch]) else none

/-- Writing so many blanks. -/
def putBlanks (room : Nat) : Nat → List UInt8 → Option (List UInt8)
  | 0, content => some content
  | spaces + 1, content => do
    let content ← putByte room content 0x20
    putBlanks room spaces content

/-- Expanding tabs and leaving out carriage returns; `col` is the column within the line. -/
def expandTabs (room : Nat) : List UInt8 → Nat → List UInt8 → Option (List UInt8)
  | [], _, content => some content
  | ch :: raw, col, content =>
    if ch = 0x0D then expandTabs room raw col content
    else if ch = 0x09 then do
      let spaces := 8 - col % 8
      let content ← putBlanks room spaces content
      expandTabs room raw (col + spaces) content
    else do
      let content ← putByte room content ch
      expandTabs room raw (if ch = 0x0A then 0 else col + 1) content

/-- Writing the start of a line behind those written, in a block of so many bytes. -/
def putLine (bytes : Nat) (lines : List Nat) (start : Nat) : Option (List Nat) :=
  if 4 * lines.length + 4 ≤ bytes then some (lines ++ [start]) else none

/-- Writing zeros over the newlines, with the place behind each; `left` bytes are left. -/
def splitLines (bytes numLines : Nat) :
    Nat → Nat → List UInt8 → List Nat → Option (List UInt8 × List Nat)
  | 0, _, content, lines => some (content, lines)
  | left + 1, i, content, lines => do
    let ch ← content[i]?
    if ch = 0x0A then
      let content := content.set i 0
      let lines ← if lines.length < numLines then putLine bytes lines (i + 1) else some lines
      splitLines bytes numLines left (i + 1) content lines
    else splitLines bytes numLines left (i + 1) content lines

/-- How many bytes are asked for, for a text that was read. -/
def contentRoom (nread : Nat) : Nat := (nread * 8 + 1) % 2 ^ 32

/-- How many bytes are asked for, for the starts of lines. -/
def linesRoom (numLines : Nat) : Nat := numLines * 4 % 2 ^ 32

/--
The part of `load_source_file` behind the search: `size` is what `ftell` says, `raw` what `fread`
reads, and `malloc` says which sizes there is memory for.
-/
def loadSourceText (malloc : Nat → Bool) (size : Int) (raw : List UInt8) :
    Option (Option SourceText) :=
  if size ≤ 0 then some none
  else if !malloc (size.toNat + 1) then some none
  else if raw.length = 0 then some none
  else if !malloc (contentRoom raw.length) then some none
  else do
    -- No column or place is as large as the block, so that all of them fit an int.
    let text ← expandTabs (contentRoom raw.length) raw 0 []
    let content ← putByte (contentRoom raw.length) text 0
    let numLines := 1 + text.count 0x0A
    if !malloc (linesRoom numLines) then some none
    else do
      let lines ← putLine (linesRoom numLines) [] 0
      let (content, lines) ←
        splitLines (linesRoom numLines) numLines text.length 0 content lines
      return some { content, lines, numLines }

end TwoIne
