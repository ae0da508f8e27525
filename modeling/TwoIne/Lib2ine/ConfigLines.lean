import Mathlib.Data.List.Basic
import TwoIne.Lib.CStrings

/-! Reading a configuration file: the lines, and the settings that are cut out of them in place. -/

namespace TwoIne

open CStrings

/-- Whether a letter is blank. -/
def cfgIsSpace (ch : UInt8) : Bool := ch == 0x20 || ch == 0x09 || ch == 0x0D || ch == 0x0A

/-- Whether a letter is one of a name. -/
def cfgIsSymChar (ch : UInt8) : Bool :=
  ch == 0x5F || (0x61 ≤ ch && ch ≤ 0x7A) || (0x41 ≤ ch && ch ≤ 0x5A)

/-- What takes care of a setting. -/
inductive CfgHandler where
  | mountPoint
  | system
  /-- There is nothing but a warning about the category. -/
  | unknownCategory
  deriving DecidableEq, Repr

/-- What a line comes to. -/
inductive CfgEvent where
  /-- A blank line or a comment. -/
  | skipped
  | warned
  | setting (category var val : List UInt8) (handler : CfgHandler)
  deriving DecidableEq, Repr

/-- What takes care of the settings of a category. -/
def cfgHandler (category : List UInt8) : CfgHandler :=
  if category = ascii "mountpoint" then .mountPoint
  else if category = ascii "system" then .system
  else .unknownCategory

/-- Processing what was cut out of a line. -/
def cfgProcessLine (category var val : List UInt8) : CfgEvent :=
  if category = [] ∨ var = [] then .warned
  else .setting category var val (cfgHandler category)

/-- Writing zeros over the blanks at the end of a line, and the bytes that are left of it. -/
def stripEnd : Nat → List UInt8 → Option (List UInt8)
  | 0, buffer => some buffer
  | len + 1, buffer => do
    let ch ← buffer[len]?
    if cfgIsSpace ch then stripEnd len (buffer.set len 0) else some buffer

/-- Moving a pointer over letters of a kind; what it points at comes first. -/
def skipLetters (test : UInt8 → Bool) : List UInt8 → Nat → Option Nat
  | [], _ => none
  | ch :: rest, ptr => if test ch then skipLetters test rest (ptr + 1) else some ptr

/-- Moving a pointer over letters of a kind. -/
def skipFrom (test : UInt8 → Bool) (buffer : List UInt8) (ptr : Nat) : Option Nat :=
  skipLetters test (buffer.drop ptr) ptr

/-- Whether there is nothing to be read at a pointer: the end of the line, or a comment. -/
def cfgNothing (buffer : List UInt8) (ptr : Nat) : Option Bool := do
  let ch ← buffer[ptr]?
  if ch = 0 ∨ ch = 0x3B ∨ ch = 0x23 then return true
  else if ch = 0x2F then
    let next ← buffer[ptr + 1]?
    return next = 0x2F
  else return false

/-- Cutting off a name at the equals sign: the pointer behind it, unless there is none. -/
def cfgEquals (buffer : List UInt8) (ptr : Nat) : Option (List UInt8 × Option Nat) := do
  let ch ← buffer[ptr]?
  if ch = 0x3D then return (buffer.set ptr 0, some (ptr + 1))
  else if ¬ cfgIsSpace ch then return (buffer, none)
  else
    let buffer := buffer.set ptr 0
    let ptr ← skipFrom cfgIsSpace buffer (ptr + 1)
    let ch ← buffer[ptr]?
    return (buffer, if ch ≠ 0x3D then none else some (ptr + 1))

/-- Cutting a setting out of a line, from the first letter on. -/
def cfgSetting (buffer : List UInt8) (category : Nat) : Option CfgEvent := do
  let ptr ← skipFrom cfgIsSymChar buffer category
  let ch ← buffer[ptr]?
  if ch ≠ 0x2E then return .warned
  else
    let buffer := buffer.set ptr 0
    let var := ptr + 1
    let ptr ← skipFrom cfgIsSymChar buffer var
    let (buffer, behind) ← cfgEquals buffer ptr
    match behind with
    | none => return .warned
    | some ptr =>
      let val ← skipFrom cfgIsSpace buffer ptr
      return cfgProcessLine (readString (buffer.drop category)) (readString (buffer.drop var))
        (readString (buffer.drop val))

/-- Processing a line; nothing comes back if a byte behind the line were read. -/
def cfgLine (line : List UInt8) : Option CfgEvent := do
  let buffer ← stripEnd line.length (stored line)
  let ptr ← skipFrom cfgIsSpace buffer 0
  if ← cfgNothing buffer ptr then return .skipped else cfgSetting buffer ptr

/-- The lines of a file, each with its end. -/
def cfgFileLines : List UInt8 → List (List UInt8)
  | [] => []
  | ch :: rest =>
    if ch = 0x0A then [ch] :: cfgFileLines rest
    else
      match cfgFileLines rest with
      | [] => [[ch]]
      | line :: lines => (ch :: line) :: lines

/-- Processing lines, with the number of each. -/
def cfgLoadLines : Nat → List (List UInt8) → Option (List (Nat × CfgEvent))
  | _, [] => some []
  | lineno, line :: lines => do
    let lineno := lineno + 1
    let event ← cfgLine line
    let events ← cfgLoadLines lineno lines
    return (lineno, event) :: events

/-- Loading a configuration file, if it can be opened. -/
def cfgLoadFile (file : Option (List UInt8)) : Option (List (Nat × CfgEvent)) :=
  match file with
  | none => some []
  | some file => cfgLoadLines 0 (cfgFileLines file)

end TwoIne
