import Mathlib.Algebra.Group.Nat.Defs
import TwoIne.DosCalls.ExecPgm
import TwoIne.Lib.PointerBlocks

/-! The memory that the arguments and the environment of a new process are put into. -/

namespace TwoIne

open CStrings PointerBlocks

/-- A number as the host counts bytes. -/
def sizeT (n : Nat) : Nat := n % 2 ^ 32

/-- The variable that tells a process that another one started it. -/
def subprocessVariable : List UInt8 := ascii "IS_2INE="

/-- Counting the strings of an environment, and what they and their pointers need. -/
def scanEnvp : List UInt8 → Nat → Nat → Option (Nat × Nat)
  | [], _, _ => none
  | ch :: src, len, idx =>
    if ch ≠ 0 then scanEnvp src (len + 1) idx
    else
      match src.head? with
      | none => none
      | some next =>
        -- A string without bytes ends the environment.
        if next = 0 then some (len + pointerSize + 1, idx + 1)
        else scanEnvp src (len + pointerSize + 1) (idx + 1)

/-- Copying the strings of an environment, with a pointer to each of them. -/
def copyEnvp : List UInt8 → Nat → Cursor → Option Cursor
  | [], _, _ => none
  | ch :: src, start, c =>
    match c.append [ch] with
    | none => none
    | some c =>
      if ch ≠ 0 then copyEnvp src start c
      else
        match c.point pointerSize (some start), src.head? with
        | some c, some next => if next = 0 then some c else copyEnvp src c.dst c
        | _, _ => none

/-- The name of the program behind the environment. -/
def nameProgram (exe : List UInt8) (c : Cursor) : Option Cursor := do
  let start := c.dst
  let c ← c.strcpy subprocessVariable
  let c ← c.append (stored exe)
  let c ← c.append [0]
  let c ← c.point pointerSize (some start)
  c.point pointerSize none

/--
The environment for a new process, from the one of the call and the name of the program.

An empty environment has only the pointer that ends the list, and leaves the error as it was.
-/
def calcEnvp (malloc : Bool) (os2env exe : List UInt8) :
    Option (Except (Option ApiRet) Block) :=
  match os2env with
  | [] => none
  | first :: _ =>
    if first = 0 then
      if !malloc then some (.error none)
      else (Cursor.point pointerSize ⟨.new pointerSize, 0, 0⟩ none).map fun c => .ok c.block
    else
      match scanEnvp os2env 0 0 with
      | none => none
      | some (len, idx) =>
        let len := len + pointerSize + (exe.length + 16 + pointerSize)
        if !malloc then some (.error (some .errorNotEnoughMemory))
        else
          let area := sizeT ((idx + 2) * pointerSize)
          ((copyEnvp os2env area ⟨.new (sizeT len), 0, area⟩).bind (nameProgram exe)).map
            fun c => .ok c.block

/-- The memory of the arguments, how many pointers were put there, and where the strings start. -/
structure ArgvBlock where
  block : Block
  slots : Nat
  area : Nat

/-- The arguments for a new process as they are put into memory. -/
def calcArgvBlock (malloc : Bool) (os2args : List UInt8) : Option (Except ApiRet ArgvBlock) :=
  let argv0 := readString os2args
  if argv0 = [] then some (.error .errorBadEnvironment)
  else if !malloc then some (.error .errorNotEnoughMemory)
  else
    let text := readString (afterString os2args)
    let argv := argv0 :: calcArgvWords [] (text.dropWhile isBlank)
    let area := sizeT ((argvPointers text + 1) * pointerSize)
    ((Cursor.putAll pointerSize ⟨.new (sizeT (argvSize argv0 text)), 0, area⟩ argv).bind
      fun c => c.point pointerSize none).map fun c => .ok ⟨c.block, c.idx, area⟩

end TwoIne
