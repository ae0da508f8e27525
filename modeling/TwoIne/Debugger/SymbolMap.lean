import Mathlib.Algebra.Group.Nat.Defs
import Mathlib.Data.List.Infix
import TwoIne.Lib.CStrings

/-! Symbols of a linker map file: reading them, and looking up what is closest to an address. -/

namespace TwoIne

open CStrings

/-- A symbol with its segment and its offset there. -/
structure SymbolEntry where
  segment : BitVec 16
  offset : BitVec 16
  name : List UInt8
  deriving DecidableEq, Repr

/-- The symbols that have been loaded. -/
structure SymbolMap where
  entries : List SymbolEntry
  loaded : Bool
  deriving DecidableEq, Repr

/-- How many symbols there is room for. -/
def maxSymbols : Nat := 1024

/-- The room for a name. -/
def maxSymbolName : Nat := 256

/-- The room for a line of the file. -/
def symbolLineSize : Nat := 1024

/-- Whether a letter is one between the columns of a line. -/
def isLineBlank (c : UInt8) : Bool := c == 0x20 || c == 0x09

/-- Whether a letter is a hexadecimal digit. -/
def isHexDigit (c : UInt8) : Bool :=
  0x30 ≤ c && c ≤ 0x39 || 0x61 ≤ c && c ≤ 0x66 || 0x41 ≤ c && c ≤ 0x46

/-- The value of a hexadecimal digit. -/
def hexDigit (c : UInt8) : Nat :=
  if c ≤ 0x39 then c.toNat - 0x30 else if 0x61 ≤ c then c.toNat - 0x57 else c.toNat - 0x37

/-- The value of hexadecimal digits, none of which stand for zero. -/
def hexValue (digits : List UInt8) : Nat := digits.foldl (fun value c => value * 16 + hexDigit c) 0

/-- Four digits at most, and what is behind them. -/
def hexField (line : List UInt8) : List UInt8 × List UInt8 :=
  let digits := (line.take 4).takeWhile isHexDigit
  (digits, line.drop digits.length)

/-- A name without the blanks at its end. -/
def trimBlanks (name : List UInt8) : List UInt8 := (name.reverse.dropWhile isLineBlank).reverse

/-- The symbol of a line, if it is a line of one. -/
def parseSymbolLine (line : List UInt8) (nameMax : Nat) : Option SymbolEntry :=
  let line := line.dropWhile isLineBlank
  if line.head? = none ∨ line.head? = some 0x0A ∨ line.head? = some 0x0D then none
  else if ascii "Module:" <+: line then none
  else if ascii "Address" <+: line then none
  else if line.head? = some 0x3D ∨ line.head? = some 0x2B then none
  else if line.head? = some 0x2A then none
  else
    let (segStr, line) := hexField line
    if line.head? ≠ some 0x3A then none
    else
      let (offStr, line) := hexField (line.drop 1)
      if offStr.length < 1 then none
      else
        let line := if line.head? = some 0x2A then line.drop 1 else line
        let line := line.dropWhile isLineBlank
        let name := (line.takeWhile fun c => c ≠ 0x0A ∧ c ≠ 0x0D).take (nameMax - 1)
        let name := trimBlanks name
        if name = [] then none
        else some ⟨BitVec.ofNat 16 (hexValue segStr), BitVec.ofNat 16 (hexValue offStr), name⟩

/-- A line as it is read: up to its end, but not more than there is room for. -/
def readLine : Nat → List UInt8 → List UInt8 × List UInt8
  | 0, file => ([], file)
  | _ + 1, [] => ([], [])
  | room + 1, c :: file =>
    if c = 0x0A then ([c], file)
    else
      let (line, rest) := readLine room file
      (c :: line, rest)

/-- The lines of a file, as strings. -/
def readLines : Nat → List UInt8 → List (List UInt8)
  | 0, _ => []
  | steps + 1, file =>
    if file = [] then []
    else
      let (line, rest) := readLine (symbolLineSize - 1) file
      readString line :: readLines steps rest

/-- Whether a line is one of those that are passed over in the memory map. -/
def headerLine (line : List UInt8) : Bool :=
  (ascii "Address" <:+: line && ascii "Symbol" <:+: line) ||
    (line.head? == some 0x3D || line.head? == some 0x2B) || ascii "Module:" <+: line

/-- Adding a symbol while there is room. -/
def addSymbol (entry : SymbolEntry) (entries : List SymbolEntry) : List SymbolEntry :=
  if entries.length < maxSymbols then entries ++ [entry] else entries

/-- The symbols of the lines of a file, from the heading of the memory map to the next one. -/
def loadLines : List (List UInt8) → Bool → List SymbolEntry → List SymbolEntry
  | [], _, entries => entries
  | line :: lines, inMemoryMap, entries =>
    if ascii "Memory Map" <:+: line then loadLines lines true entries
    else if inMemoryMap ∧ ascii "Imported Symbols" <:+: line then entries
    else if inMemoryMap ∧ ascii "Libraries Used" <:+: line then entries
    else if ¬ inMemoryMap then loadLines lines inMemoryMap entries
    else if headerLine line then loadLines lines inMemoryMap entries
    else
      match parseSymbolLine line maxSymbolName with
      | none => loadLines lines inMemoryMap entries
      | some entry =>
        if ascii "llvm." <+: entry.name then loadLines lines inMemoryMap entries
        else loadLines lines inMemoryMap (addSymbol entry entries)

/-- Loading a map file; each line takes at least one byte of it. -/
def symbolMapLoad (file : Option (List UInt8)) (map : SymbolMap) : Int × SymbolMap :=
  match file with
  | none => (-1, map)
  | some file => (0, ⟨loadLines (readLines (file.length + 1) file) false [], true⟩)

/-- What is reported of an address: the entry, its name, and how far behind it the address is. -/
structure SymbolHit where
  entry : Nat
  name : List UInt8
  offset : Int
  deriving DecidableEq, Repr

/-- The best entry so far, and how far in front of the address it is. -/
structure BestSymbol where
  bestIdx : Option Nat
  bestDiff : Int
  deriving DecidableEq, Repr

/-- Looking at an entry. -/
def considerEntry (segment offset : BitVec 16) (i : Nat) (entry : SymbolEntry)
    (best : BestSymbol) : BestSymbol :=
  if entry.segment ≠ segment then best
  else
    let diff : Int := (offset.toNat : Int) - entry.offset.toNat
    if diff < 0 then best
    else if diff < best.bestDiff then ⟨some i, diff⟩
    else best

/-- Looking at all entries from a place on. -/
def considerEntries (segment offset : BitVec 16) :
    Nat → List SymbolEntry → BestSymbol → BestSymbol
  | _, [], best => best
  | i, entry :: rest, best =>
    considerEntries segment offset (i + 1) rest (considerEntry segment offset i entry best)

/-- The symbol closest to an offset of a segment. -/
def symbolMapLookup (map : SymbolMap) (segment offset : BitVec 16) : Option SymbolHit :=
  if !map.loaded then none
  else
    let best := considerEntries segment offset 0 map.entries ⟨none, 0x7FFFFFFF⟩
    match best.bestIdx with
    | none => none
    | some i => some ⟨i, ((map.entries[i]?).map SymbolEntry.name).getD [], best.bestDiff⟩

/-- The number of segments that have a base. -/
def segmentSlots : Nat := 16

/-- The symbol closest to a linear address, in the segments from one on. -/
def lookupSegments (map : SymbolMap) (linear : BitVec 32) (segmentBases : Nat → BitVec 32)
    (numSegments : Int) : Nat → Nat → Option SymbolHit
  | 0, _ => none
  | left + 1, seg =>
    if (seg : Int) ≤ numSegments then
      let segBase := segmentBases seg
      let segEnd := segBase + 0x10000
      if segBase ≠ 0 ∧ segBase ≤ linear ∧ linear < segEnd then
        match symbolMapLookup map (BitVec.ofNat 16 seg) ((linear - segBase).truncate 16) with
        | some hit => some hit
        | none => lookupSegments map linear segmentBases numSegments left (seg + 1)
      else lookupSegments map linear segmentBases numSegments left (seg + 1)
    else none

/-- The symbol closest to a linear address; a segment without a base has none. -/
def symbolMapLookupLinear (map : SymbolMap) (linear : BitVec 32) (segmentBases : Nat → BitVec 32)
    (numSegments : Int) : Option SymbolHit :=
  if !map.loaded then none
  else lookupSegments map linear segmentBases numSegments (segmentSlots - 1) 1

end TwoIne
