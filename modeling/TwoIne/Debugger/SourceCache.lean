import TwoIne.Debugger.SourceFile
import TwoIne.Lib.Cells

/-!
The source files that were loaded: where a file is looked for, and the array of those that were
found, which grows by one with each.

Texts are the bytes in front of their NUL. Nothing comes back where the process is stopped.
-/

namespace TwoIne

open Cells CStrings

/-- What a request meets. -/
structure SourceHost where
  /-- What `ftell` says of the file that a path opens, and what `fread` reads of it. -/
  files : List UInt8 → Option (Int × List UInt8)
  /-- The directories of the environment, with colons between them. -/
  td2ineAsmPath : Option (List UInt8)
  /-- Whether there is memory for so many bytes. -/
  malloc : Nat → Bool
  /-- Whether an array is moved as it grows. -/
  moves : Bool

/-- The part of a name behind its last slash. -/
def sourceBase (filename : List UInt8) : List UInt8 :=
  (filename.reverse.takeWhile (· ≠ 0x2F)).reverse

/-- The part of a name in front of its last slash. -/
def sourceFront (filename : List UInt8) : List UInt8 :=
  ((filename.reverse.dropWhile (· ≠ 0x2F)).drop 1).reverse

/-- The name of the variant with `.lo.asm` in place of `.asm`. -/
def loBase (base : List UInt8) : List UInt8 :=
  let stem := base.take (base.length - 4)
  if 4 < base.length ∧ base.drop (base.length - 4) = ascii ".asm" then
    (stem ++ ascii ".lo.asm").take 255
  else []

/-- The directory that a name has its last part in, if a slash stands in front of that too. -/
def sourceSubdir (filename : List UInt8) : Option (List UInt8) :=
  let front := sourceFront filename
  let subdir := sourceBase front
  if 0x2F ∈ front ∧ 0 < subdir.length ∧ subdir.length < 256 then some subdir else none

/-- The directories of the environment, without those that are empty or too long. -/
def asmDirs (asmPath : List UInt8) : List (List UInt8) :=
  (asmPath.splitOn 0x3A).filter fun dir => 0 < dir.length ∧ dir.length < 512

/-- A file in a directory, and its variant if there is one. -/
def tryBoth (dir base : List UInt8) : List (List UInt8) :=
  (dir ++ base) :: if loBase base ≠ [] then [dir ++ loBase base] else []

/-- The paths that are tried for a name that does not open as it is. -/
def triedPaths (progDir asmPath filename : List UInt8) : List (List UInt8) :=
  let base := sourceBase filename
  let besideProgram :=
    if progDir ≠ [] then
      tryBoth (progDir ++ ascii "/") base ++ [progDir ++ ascii "/tests/asm/" ++ base]
    else []
  let inCwd := if 0x2F ∈ filename then tryBoth [] base else []
  let inDir (dir : List UInt8) :=
    tryBoth (dir ++ ascii "/") base ++
      match sourceSubdir filename with
      | some subdir => tryBoth (dir ++ ascii "/" ++ subdir ++ ascii "/") base
      | none => []
  let tried := besideProgram ++ inCwd ++ [ascii "tests/asm/" ++ base] ++ (asmDirs asmPath).flatMap inDir
  -- Each is printed to an array of 2048 bytes.
  tried.map (List.take 2047)

/-- The path that a name is found at, with the file. -/
def findSourceFile (host : SourceHost) (progDir filename : List UInt8) :
    Option (List UInt8 × Int × List UInt8) :=
  match host.files filename with
  | some file => some (filename, file)
  | none =>
    (triedPaths progDir (host.td2ineAsmPath.getD []) filename).findSome? fun path =>
      (host.files path).map fun file => (path, file)

/-- Loading the file of a name: the path it was found at, and its text. -/
def loadSourceFile (host : SourceHost) (progDir filename : List UInt8) :
    Option (Option (List UInt8 × SourceText)) :=
  match findSourceFile host progDir filename with
  | none => some none
  | some (path, size, raw) => do
    let text ← loadSourceText host.malloc size raw
    return text.map fun text => (path, text)

/-- A file that was loaded. -/
structure SourceFile where
  /-- The path it was found at, unless `strdup` had no memory for it. -/
  path : Option (List UInt8) := none
  /-- The address of its lines. -/
  lines : Nat := 0
  numLines : Nat := 0
  deriving DecidableEq, Repr

/-- An element of the array that was set to zero. -/
def zeroSource : SourceFile := {}

/-- What is at an address; one cell stands for the bytes of a text and for its array of lines. -/
inductive SourceBlock where
  | sources (slots : List SourceFile)
  | text (text : SourceText)
  deriving DecidableEq, Repr

/-- The part of the debug information that source files are kept in. -/
structure DwarfSources where
  loaded : Bool := true
  progDir : List UInt8 := []
  heap : Heap SourceBlock := []
  sources : Option Nat := none
  sourceCount : Nat := 0
  deriving DecidableEq, Repr

/-- The elements of the array. -/
def DwarfSources.slots (g : DwarfSources) : Option (List SourceFile) :=
  match g.sources with
  | none => some []
  | some place =>
    match read g.heap place with
    | some (.sources slots) => some slots
    | _ => none

/-- Comparing the paths of files with a name; one without a path stops the process. -/
def cachedSource (filename : List UInt8) : List SourceFile → Option (Option SourceFile)
  | [] => some none
  | file :: rest =>
    match file.path with
    | none => none
    | some path => if path = filename then some (some file) else cachedSource filename rest

/-- Growing the array to some elements. -/
def DwarfSources.grown (g : DwarfSources) (moves : Bool) (slots : List SourceFile) :
    DwarfSources :=
  match g.sources with
  | none => { g with heap := alloc g.heap (.sources slots), sources := some (fresh g.heap) }
  | some place =>
    if moves then
      { g with
        heap := alloc (free g.heap place) (.sources slots)
        sources := some (fresh g.heap) }
    else { g with heap := write g.heap place (.sources slots) }

/-- Keeping a text and its path in the last element of the array. -/
def DwarfSources.keep (g : DwarfSources) (files : List SourceFile) (path : Option (List UInt8))
    (text : SourceText) : DwarfSources :=
  let lines := fresh g.heap
  let heap := alloc g.heap (.text text)
  let slots := files ++ [{ path, lines, numLines := text.numLines }]
  match g.sources with
  -- The array was grown just before.
  | none => g
  | some place =>
    { g with heap := write heap place (.sources slots), sourceCount := g.sourceCount + 1 }

/-- What a request comes to: the address and the number of lines, and whether a file was loaded. -/
structure SourceReply where
  answer : Option (Nat × Nat)
  searched : Bool
  deriving DecidableEq, Repr

/-- The lines of a source file. -/
def dwarfGetSource (host : SourceHost) (filename : Option (List UInt8)) (g : DwarfSources) :
    Option (DwarfSources × SourceReply) :=
  if !g.loaded then some (g, ⟨none, false⟩)
  else
    match filename with
    | none => some (g, ⟨none, false⟩)
    | some filename => do
      let slots ← g.slots
      let files := slots.take g.sourceCount
      match ← cachedSource filename files with
      | some file => return (g, ⟨some (file.lines, file.numLines), false⟩)
      | none =>
        -- There is no memory for so many elements that the size wraps around.
        if !host.malloc ((g.sourceCount + 1) * 16) then return (g, ⟨none, false⟩)
        else
          let g := g.grown host.moves (files ++ [zeroSource])
          match ← loadSourceFile host g.progDir filename with
          | none => return (g, ⟨none, true⟩)
          | some (used, text) =>
            let path := if host.malloc (used.length + 1) then some used else none
            return (g.keep files path text, ⟨some (fresh g.heap, text.numLines), true⟩)

end TwoIne
