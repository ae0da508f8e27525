import TwoIne.Debugger.DebugLine

/-!
Finding the debug information of a program: an ELF image within its file, and the sections of it.

The file lies in memory as a whole, and pointers into it are addresses of 32 bits.
-/

namespace TwoIne

open Regions

/-- A file in memory, of a size that its type can hold. -/
structure ExeFile where
  region : Region
  small : region.bytes.length < 0x80000000
  deriving DecidableEq, Repr

/-- The number of bytes of a file. -/
def ExeFile.size (file : ExeFile) : Nat := file.region.bytes.length

/-- The address of an offset in a file. -/
def ExeFile.at (file : ExeFile) (offset : Nat) : Nat := advance file.region.base offset

/-- Whether a number of bytes at an address are bytes of a file. -/
def Inside (file : Region) (p n : Nat) : Prop := file.base ≤ p ∧ p + n ≤ file.finish

instance (file : Region) (p n : Nat) : Decidable (Inside file p n) :=
  inferInstanceAs (Decidable (_ ∧ _))

/-- Comparing all the bytes at an address. -/
def memcmpAt (file : Region) (p : Nat) (bytes : List UInt8) : Except LineFault Bool :=
  if Inside file p bytes.length then .ok (bytes.isPrefixOf (file.from p)) else .error .outside

/-- Comparing the string at an address, up to the first byte that differs. -/
def strcmpAt (file : Region) : Nat → List UInt8 → Except LineFault Bool
  | p, [] => do
    let byte ← readByte file p
    return byte == 0
  | p, byte :: rest => do
    let found ← readByte file p
    if found = byte then strcmpAt file (advance p 1) rest else return false

/-- The bytes that the trailer of a program with debug information starts with. -/
def tisSignature : List UInt8 := [0x54, 0x49, 0x53]

/-- The bytes that an ELF image starts with. -/
def elfMagic : List UInt8 := [0x7F, 0x45, 0x4C, 0x46]

/-- The offset of the image that the trailer at the end of a file leads to. -/
def findElfDebugNe (file : ExeFile) : Except LineFault (Option Nat) :=
  if file.size < 16 then .ok none
  else do
    let trailer := file.at (file.size - 16)
    let signed ← memcmpAt file.region trailer tisSignature
    if !signed then return none
    let infoSize ← readU32Le file.region (advance trailer 12)
    if infoSize = 0 ∨ file.size < infoSize then return none
    let elfBase := file.size - infoSize
    let magic ← memcmpAt file.region (file.at elfBase) elfMagic
    if !magic then return none
    return some elfBase

/-- Where the debugger takes the offset of the debug information from. -/
def lxDebugInfoOffset : Nat := 0x70

/-- Where the debugger takes the length of the debug information from. -/
def lxDebugInfoLen : Nat := 0x74

/-- The offset of the image that the header of a file leads to. -/
def findElfDebugLx (file : ExeFile) : Except LineFault (Option Nat) :=
  if file.size < 64 then .ok none
  else do
    let hdrOff ← readU16Le file.region (file.at 0x3C)
    if hdrOff = 0 ∨ file.size - 4 ≤ hdrOff then return none
    let hdr := file.at hdrOff
    let first ← readByte file.region hdr
    let second ← readByte file.region (advance hdr 1)
    if first ≠ 0x4C ∨ second ≠ 0x58 ∧ second ≠ 0x45 then return none
    let dbgOff ← readU32Le file.region (advance hdr lxDebugInfoOffset)
    let dbgLen ← readU32Le file.region (advance hdr lxDebugInfoLen)
    if dbgOff = 0 ∨ dbgLen = 0 then return none
    if file.size ≤ dbgOff then return none
    let magic ← memcmpAt file.region (file.at dbgOff) elfMagic
    if !magic then return none
    return some dbgOff

/-- The image that is used: that of the trailer, or else that of the header. -/
def findElfBase (file : ExeFile) : Except LineFault (Option Nat) := do
  match ← findElfDebugNe file with
  | some elfBase => return some elfBase
  | none => findElfDebugLx file

/-- What is used of a section header. -/
structure SectionHeader where
  name : Nat
  offset : Nat
  size : Nat
  deriving DecidableEq, Repr

/-- The number of four bytes that some bytes start with, where missing ones count as zero. -/
def word : List UInt8 → Nat
  | b0 :: b1 :: b2 :: b3 :: _ =>
    b0.toNat ||| b1.toNat <<< 8 ||| b2.toNat <<< 16 ||| b3.toNat <<< 24
  | _ => 0

/-- The section header that some bytes start with. -/
def sectionHeader (bytes : List UInt8) : SectionHeader :=
  ⟨word bytes, word (bytes.drop 16), word (bytes.drop 20)⟩

/-- Copying a section header. -/
def copyHeader (file : Region) (p : Nat) : Except LineFault SectionHeader :=
  if Inside file p 40 then .ok (sectionHeader (file.from p)) else .error .outside

/-- Copying section headers, a number of them from an index on. -/
def copyHeaders (file : Region) (table entrySize : Nat) :
    Nat → Nat → Except LineFault (List SectionHeader)
  | _, 0 => .ok []
  | i, count + 1 => do
    let header ← copyHeader file (advance table (i * entrySize))
    let rest ← copyHeaders file table entrySize (i + 1) count
    return header :: rest

/-- The sections that are looked for. -/
inductive DwarfName where
  | debugInfo
  | debugAbbrev
  | debugLine
  | debugAranges
  deriving DecidableEq, Repr

/-- The name of a section. -/
def DwarfName.bytes : DwarfName → List UInt8
  | .debugInfo => [46, 100, 101, 98, 117, 103, 95, 105, 110, 102, 111]
  | .debugAbbrev => [46, 100, 101, 98, 117, 103, 95, 97, 98, 98, 114, 101, 118]
  | .debugLine => [46, 100, 101, 98, 117, 103, 95, 108, 105, 110, 101]
  | .debugAranges => [46, 100, 101, 98, 117, 103, 95, 97, 114, 97, 110, 103, 101, 115]

/-- The sections in the order in which their names are compared. -/
def dwarfNames : List DwarfName := [.debugInfo, .debugAbbrev, .debugLine, .debugAranges]

/-- The first of some sections whose name stands at an address. -/
def sectionNamed (file : Region) (p : Nat) : List DwarfName → Except LineFault (Option DwarfName)
  | [] => .ok none
  | name :: rest => do
    let same ← strcmpAt file p name.bytes
    if same then return some name else sectionNamed file p rest

/-- Where a section is, and how many bytes it has. -/
structure DwarfSection where
  start : Nat
  size : Nat
  deriving DecidableEq, Repr

/-- The sections that were found. -/
abbrev DwarfSections := DwarfName → Option DwarfSection

/-- The address of the name of a section, if there is one to be compared. -/
def nameAddress (shstrtab : Option Nat) (header : SectionHeader) : Option Nat :=
  (shstrtab.filter fun _ => header.name < 0x10000).bind fun table =>
    if advance table header.name = 0 then none else some (advance table header.name)

/-- Looking for the sections among headers. -/
def findSections (file : Region) (elf : Nat) (shstrtab : Option Nat) :
    List SectionHeader → DwarfSections → Except LineFault DwarfSections
  | [], found => .ok found
  | header :: rest, found =>
    match nameAddress shstrtab header with
    | none => findSections file elf shstrtab rest found
    | some p => do
      match ← sectionNamed file p dwarfNames with
      | none => findSections file elf shstrtab rest found
      | some name =>
        findSections file elf shstrtab rest
          (Function.update found name (some ⟨advance elf header.offset, header.size⟩))

/-- The address of the names of the sections, or none where the address is null. -/
def stringTable (elf shstrndx : Nat) (headers : List SectionHeader) : Option Nat :=
  match headers[shstrndx]? with
  | none => none
  | some header =>
    if 0 < header.size ∧ advance elf header.offset ≠ 0 then some (advance elf header.offset)
    else none

/--
The sections of an image at an offset in a file.

`memory` says whether there is memory for the section headers.
-/
def parseElfSections (file : ExeFile) (elfBase : Nat) (memory : Bool) :
    Except LineFault (Option DwarfSections) := do
  let elf := file.at elfBase
  let shnum ← readU16Le file.region (advance elf 48)
  if shnum = 0 then return none
  let shentsize ← readU16Le file.region (advance elf 46)
  if shentsize < 40 then return none
  if !memory then return none
  let shoff ← readU32Le file.region (advance elf 32)
  let headers ← copyHeaders file.region (advance elf shoff) shentsize 0 shnum
  let shstrndx ← readU16Le file.region (advance elf 50)
  let found ← findSections file.region elf (stringTable elf shstrndx headers) headers fun _ => none
  return some found

end TwoIne
