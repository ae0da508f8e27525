import Mathlib.Data.List.Basic

/-! The line table of the debugger, and the lookups in it. -/

namespace TwoIne

/-- A row of the line table. -/
structure DwarfLineEntry where
  segment : BitVec 16 := 0
  address : BitVec 32 := 0
  line : BitVec 32 := 0
  file : Int := 0
  endSequence : Bool := false
  deriving DecidableEq, Repr

/-- A range of addresses that a unit covers. -/
structure DwarfAddrRange where
  segment : BitVec 16
  address : BitVec 32
  length : BitVec 32
  deriving DecidableEq, Repr

/-- The debug information that was read. -/
structure DwarfInfo where
  loaded : Bool := true
  lines : List DwarfLineEntry := []
  fileNames : List (List UInt8) := []
  ranges : List DwarfAddrRange := []
  deriving DecidableEq, Repr

/-- The address of the next row that ends a sequence, or the highest one. -/
def endAddress : List DwarfLineEntry → BitVec 32
  | [] => 0xFFFFFFFF
  | row :: rest => if row.endSequence then row.address else endAddress rest

/--
The last of the rows with the highest address that is not above the offset.

A row does not count if its sequence ends at the offset or before.
-/
def bestRow (segment : BitVec 16) (offset : BitVec 32) :
    List DwarfLineEntry → Option DwarfLineEntry → BitVec 32 → Option DwarfLineEntry
  | [], best, _ => best
  | row :: rest, best, bestAddr =>
    if row.endSequence then bestRow segment offset rest best bestAddr
    else if row.segment ≠ segment then bestRow segment offset rest best bestAddr
    else if offset < row.address then bestRow segment offset rest best bestAddr
    else if endAddress rest ≤ offset then bestRow segment offset rest best bestAddr
    else if bestAddr ≤ row.address then bestRow segment offset rest (some row) row.address
    else bestRow segment offset rest best bestAddr

/-- The row that an address is looked up in. -/
def rowOfAddr (info : DwarfInfo) (segment : BitVec 16) (offset : BitVec 32) :
    Option DwarfLineEntry :=
  if !info.loaded || info.lines.length == 0 then none
  else bestRow segment offset info.lines none 0

/-- The name that the file index of a row stands for. -/
def rowFileName (info : DwarfInfo) (row : DwarfLineEntry) : Option (List UInt8) :=
  if 0 < row.file ∧ row.file ≤ info.fileNames.length then info.fileNames[(row.file - 1).toNat]?
  else none

/-- The file and the line of an address. -/
def dwarfAddrToLine (info : DwarfInfo) (segment : BitVec 16) (offset : BitVec 32) :
    Option (Option (List UInt8) × BitVec 32) :=
  (rowOfAddr info segment offset).map fun row => (rowFileName info row, row.line)

/-- The part of a path behind its last slash. -/
def baseName (path : List UInt8) : List UInt8 :=
  (path.reverse.takeWhile (· ≠ 47)).reverse

/-- The index of the first file with the same base name, counted from one. -/
def fileIndexOf (info : DwarfInfo) (filename : List UInt8) : Option Nat :=
  (info.fileNames.findIdx? fun name => baseName name = baseName filename).map (· + 1)

/-- The row that a file and a line are looked up in. -/
def rowOfLine (info : DwarfInfo) (filename : List UInt8) (line : BitVec 32) :
    Option DwarfLineEntry :=
  if !info.loaded || info.lines.length == 0 then none
  else
    match fileIndexOf info filename with
    | none => none
    | some fileIdx =>
      info.lines.find? fun row => !row.endSequence && row.file == fileIdx && row.line == line

/-- The segment and the offset of a line of a file. -/
def dwarfLineToAddr (info : DwarfInfo) (filename : List UInt8) (line : BitVec 32) :
    Option (BitVec 16 × BitVec 32) :=
  (rowOfLine info filename line).map fun row => (row.segment, row.address)

end TwoIne
