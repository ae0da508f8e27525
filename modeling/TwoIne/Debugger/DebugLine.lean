import TwoIne.Debugger.LineTable
import TwoIne.Lib.DwarfLines
import TwoIne.Lib.Regions

/-!
Reading the section of the line number programs, in two passes.

The first pass counts rows and files, and the second one stores them. Pointers are addresses of 32
bits, and each loop is given a number of steps.
-/

namespace TwoIne

open Regions DwarfLines

/-- What ends a pass before its time. -/
inductive LineFault where
  /-- A byte outside the section is read. -/
  | outside
  /-- A digit is shifted by the width of its type or more. -/
  | shift
  | divideByZero
  /-- A byte outside an array is written. -/
  | overrun
  /-- A loop has taken all the steps it was given. -/
  | endless
  deriving DecidableEq, Repr

/-- Reading a byte. -/
def readByte (sec : Region) (p : Nat) : Except LineFault UInt8 :=
  match sec.from p with
  | [] => .error .outside
  | byte :: _ => .ok byte

/-- Reading a number of two bytes. -/
def readU16Le (sec : Region) (p : Nat) : Except LineFault Nat := do
  let b0 ← readByte sec p
  let b1 ← readByte sec (advance p 1)
  return b0.toNat ||| b1.toNat <<< 8

/-- Reading a number of four bytes. -/
def readU32Le (sec : Region) (p : Nat) : Except LineFault Nat := do
  let b0 ← readByte sec p
  let b1 ← readByte sec (advance p 1)
  let b2 ← readByte sec (advance p 2)
  let b3 ← readByte sec (advance p 3)
  return b0.toNat ||| b1.toNat <<< 8 ||| b2.toNat <<< 16 ||| b3.toNat <<< 24

/-- The digits of a number: its bits, the next shift, the last byte, and the bytes read. -/
def lebDigits (shift result count : Nat) :
    List UInt8 → Except LineFault (Nat × Nat × UInt8 × Nat)
  | [] => .error .outside
  | byte :: rest =>
    if 32 ≤ shift then .error .shift
    else
      let result := result ||| ((byte &&& 0x7f).toNat <<< shift) % 0x100000000
      if byte &&& 0x80 ≠ 0 then lebDigits (shift + 7) result (count + 1) rest
      else .ok (result, shift + 7, byte, count + 1)

/-- Reading a number without a sign, and the address behind it. -/
def readUleb128 (sec : Region) (p : Nat) : Except LineFault (Nat × Nat) := do
  let (result, _, _, count) ← lebDigits 0 0 0 (sec.from p)
  return (result, advance p count)

/-- Reading a number with a sign, as the bits of a word, and the address behind it. -/
def readSleb128 (sec : Region) (p : Nat) : Except LineFault (Nat × Nat) := do
  let (result, shift, byte, count) ← lebDigits 0 0 0 (sec.from p)
  let result :=
    if shift < 32 ∧ byte &&& 0x40 ≠ 0 then result ||| (0x100000000 - 1 <<< shift) else result
  return (result, advance p count)

/-- The length of the string that memory starts with. -/
def stringLength : List UInt8 → Except LineFault Nat
  | [] => .error .outside
  | byte :: rest => if byte = 0 then .ok 0 else (stringLength rest).map (· + 1)

/-- Moving behind a string. -/
def skipString (sec : Region) (p : Nat) : Except LineFault Nat := do
  let length ← stringLength (sec.from p)
  return advance p (length + 1)

/-- Moving over the bytes of a number that are not its last. -/
def skipFront (unitEnd p : Nat) : List UInt8 → Except LineFault Nat
  | [] => if p < unitEnd then .error .outside else .ok p
  | byte :: rest =>
    if p < unitEnd then
      if byte &&& 0x80 ≠ 0 then skipFront unitEnd (advance p 1) rest else .ok p
    else .ok p

/-- Moving over a number, up to the end of the unit. -/
def skipNumber (sec : Region) (unitEnd p : Nat) : Except LineFault Nat := do
  let p ← skipFront unitEnd p (sec.from p)
  return if p < unitEnd then advance p 1 else p

/-- Moving behind the include directories, and the zero that ends them. -/
def skipDirectories (sec : Region) (unitEnd : Nat) : Nat → Nat → Except LineFault Nat
  | 0, _ => .error .endless
  | steps + 1, p =>
    if p < unitEnd then do
      let byte ← readByte sec p
      if byte ≠ 0 then
        let p ← skipString sec p
        skipDirectories sec unitEnd steps p
      else return advance p 1
    else .ok p

/-- Moving behind a file entry. -/
def skipFile (sec : Region) (unitEnd p : Nat) : Except LineFault Nat := do
  let p ← skipString sec p
  let p ← skipNumber sec unitEnd p
  let p ← skipNumber sec unitEnd p
  skipNumber sec unitEnd p

/-- Counting the file entries from an address on. -/
def countFiles (sec : Region) (unitEnd : Nat) : Nat → Nat → Nat → Except LineFault Nat
  | 0, _, _ => .error .endless
  | steps + 1, fileCount, p =>
    if p < unitEnd then do
      let byte ← readByte sec p
      if byte ≠ 0 then
        let p ← skipFile sec unitEnd p
        countFiles sec unitEnd steps (fileCount + 1) p
      else return fileCount
    else .ok fileCount

/-- The first include directory of a unit; the opcodes have a length each, from the first one on. -/
def unitDirectories (unitStart opcodeBase : Nat) : Nat := advance unitStart (14 + opcodeBase)

/-- The number of files of a unit. -/
def countUnitFiles (sec : Region) (steps unitStart totalLength : Nat) : Except LineFault Nat := do
  let _version ← readU16Le sec (advance unitStart 4)
  let _prologueLength ← readU32Le sec (advance unitStart 6)
  let opcodeBase ← readByte sec (advance unitStart 14)
  let unitEnd := advance unitStart (4 + totalLength)
  let p ← skipDirectories sec unitEnd steps (unitDirectories unitStart opcodeBase.toNat)
  countFiles sec unitEnd steps 0 p

/-- The size of the map from the file numbers of a unit to the ones of the table. -/
def maxLocalFiles : Nat := 256

/-- The files stored so far, the places there are for them, and the map of the unit. -/
structure FileTable where
  names : List (List UInt8)
  slots : Nat
  fileMap : List Nat
  deriving DecidableEq, Repr

/-- Storing a name, and its number in the table under its number in the unit. -/
def storeFile (localIdx : Nat) (name : List UInt8) (t : FileTable) : Except LineFault FileTable :=
  if t.names.length < t.slots ∧ localIdx + 1 < t.fileMap.length then
    .ok { t with
      names := t.names ++ [name]
      fileMap := t.fileMap.set (localIdx + 1) (t.names.length + 1) }
  else .error .overrun

/-- Storing the file entries from an address on; a full table takes no more. -/
def parseFiles (sec : Region) (unitEnd : Nat) :
    Nat → Nat → Nat → FileTable → Except LineFault FileTable
  | 0, _, _, _ => .error .endless
  | steps + 1, localIdx, p, t =>
    if p < unitEnd then do
      let byte ← readByte sec p
      if byte ≠ 0 ∧ localIdx < maxLocalFiles then
        let length ← stringLength (sec.from p)
        let name := (sec.from p).take length
        let p ← skipFile sec unitEnd p
        if t.names.length < maxLocalFiles then
          let t ← storeFile localIdx name t
          parseFiles sec unitEnd steps (localIdx + 1) p t
        else parseFiles sec unitEnd steps localIdx p t
      else return t
    else .ok t

/-- Storing the files of a unit, with an empty map to start from. -/
def parseUnitFiles (sec : Region) (steps unitStart totalLength : Nat) (names : List (List UInt8))
    (slots : Nat) : Except LineFault FileTable := do
  let _prologueLength ← readU32Le sec (advance unitStart 6)
  let opcodeBase ← readByte sec (advance unitStart 14)
  let unitEnd := advance unitStart (4 + totalLength)
  let p ← skipDirectories sec unitEnd steps (unitDirectories unitStart opcodeBase.toNat)
  parseFiles sec unitEnd steps 0 p ⟨names, slots, List.replicate maxLocalFiles 0⟩

/-- Moving over a number of operands. -/
def skipOperands (sec : Region) : Nat → Nat → Except LineFault Nat
  | 0, p => .ok p
  | count + 1, p => do
    let (_, p) ← readUleb128 sec p
    skipOperands sec count p

/-- Moving over the operands of an opcode that has no meaning here. -/
def skipUnknown (sec : Region) (standardOpcodeLengths : Nat) (opcode : UInt8) (p : Nat) :
    Except LineFault Nat := do
  let count ← readByte sec (advance standardOpcodeLengths (opcode.toNat - 1))
  skipOperands sec count.toNat p

/-- Moving over the operands of a standard opcode, as the first pass does. -/
def skipStandard (sec : Region) (standardOpcodeLengths : Nat) (opcode : UInt8) (p : Nat) :
    Except LineFault Nat :=
  match opcode.toNat with
  | 1 | 6 | 7 | 8 => .ok p
  | 2 | 4 | 5 => return (← readUleb128 sec p).2
  | 3 => return (← readSleb128 sec p).2
  | 9 => .ok (advance p 2)
  | _ => skipUnknown sec standardOpcodeLengths opcode p

/-- Counting the rows of a program, from an address on. -/
def countRows (sec : Region) (opcodeBase : UInt8) (standardOpcodeLengths progEnd : Nat) :
    Nat → Nat → Nat → Except LineFault Nat
  | 0, _, _ => .error .endless
  | steps + 1, lineCount, p =>
    if p < progEnd then do
      let opcode ← readByte sec p
      let p := advance p 1
      if opcode = 0 then
        let (length, p) ← readUleb128 sec p
        if progEnd ≤ p then return lineCount
        let sub ← readByte sec p
        let p := advance p 1
        if sub = 1 then
          countRows sec opcodeBase standardOpcodeLengths progEnd steps (lineCount + 1) p
        else
          -- The length counts the byte that was read; it is unsigned.
          let p := advance p (length + (addresses - 1))
          countRows sec opcodeBase standardOpcodeLengths progEnd steps lineCount p
      else if opcode < opcodeBase then
        let p ← skipStandard sec standardOpcodeLengths opcode p
        countRows sec opcodeBase standardOpcodeLengths progEnd steps (lineCount + 1) p
      else countRows sec opcodeBase standardOpcodeLengths progEnd steps (lineCount + 1) p
    else .ok lineCount

/-- The first pass: the rows and the files of the units from an address on. -/
def countUnits (sec : Region) (steps : Nat) : Nat → Nat → Nat × Nat → Except LineFault (Nat × Nat)
  | 0, _, _ => .error .endless
  | left + 1, cursor, (lineCount, fileCount) =>
    if advance cursor 4 ≤ sec.finish then do
      let totalLength ← readU32Le sec cursor
      let next := advance cursor (4 + totalLength)
      if totalLength = 0 ∨ sec.finish < next then return (lineCount, fileCount)
      let opcodeBase ← readByte sec (advance cursor 14)
      let files ← countUnitFiles sec steps cursor totalLength
      let prologueLength ← readU32Le sec (advance cursor 6)
      let p := advance cursor (10 + prologueLength)
      let lineCount ← countRows sec opcodeBase (advance cursor 15) next steps lineCount p
      countUnits sec steps left next (lineCount, fileCount + files)
    else .ok (lineCount, fileCount)

/-- The header fields of a unit that its program is read with. -/
structure ProgramHeader where
  minInstrLen : UInt8
  lineBase : UInt8
  lineRange : UInt8
  opcodeBase : UInt8
  /-- Where the operand counts of the opcodes are. -/
  standardOpcodeLengths : Nat
  fileMap : List Nat
  deriving DecidableEq, Repr

/-- The table that is filled, and the number of rows stored in it. -/
structure LineStore where
  lines : List DwarfLineEntry
  entryIdx : Nat
  deriving DecidableEq, Repr

/-- The file index of a row: numbers that the map does not reach are kept. -/
def storedFile (fileMap : List Nat) (file : BitVec 32) : Except LineFault Int :=
  if 0 < file.toInt ∧ file.toInt < 256 then
    match fileMap[file.toNat]? with
    | some index => .ok index
    | none => .error .outside
  else .ok file.toInt

/-- Storing a row. -/
def storeRow (header : ProgramHeader) (r : Registers) (endSequence : Bool) (t : LineStore) :
    Except LineFault LineStore := do
  let file ← storedFile header.fileMap r.file
  if t.entryIdx < t.lines.length then
    return {
      lines := t.lines.set t.entryIdx ⟨r.segment, r.address, r.line, file, endSequence⟩
      entryIdx := t.entryIdx + 1 }
  else .error .overrun

/-- An operand of an extended opcode, where its length is one that is known. -/
def readTarget (sec : Region) (length p : Nat) (before : Nat) : Except LineFault Nat :=
  if length = 2 then readU16Le sec p
  else if length = 4 then readU32Le sec p
  else .ok before

/-- An extended opcode behind its length and its own byte. -/
def parseExtended (sec : Region) (header : ProgramHeader) (sub : UInt8) (length p : Nat)
    (r : Registers) (t : LineStore) : Except LineFault (Registers × LineStore) :=
  if sub = 1 then do
    let t ← storeRow header r true t
    return ({}, t)
  else if sub = 2 then do
    let address ← readTarget sec length p r.address.toNat
    return ({ r with address := BitVec.ofNat 32 address }, t)
  else if sub = 4 ∨ sub = 0x80 then do
    let segment ← readTarget sec length p r.segment.toNat
    return ({ r with segment := BitVec.ofNat 16 segment }, t)
  else .ok (r, t)

/-- A standard opcode, and the address behind its operands. -/
def parseStandard (sec : Region) (header : ProgramHeader) (opcode : UInt8) (p : Nat)
    (r : Registers) (t : LineStore) : Except LineFault (Nat × Registers × LineStore) :=
  match opcode.toNat with
  | 1 => do
    let t ← storeRow header r false t
    return (p, r, t)
  | 2 => do
    let (adv, p) ← readUleb128 sec p
    let moved := BitVec.ofNat 32 (adv * header.minInstrLen.toNat)
    return (p, { r with address := r.address + moved }, t)
  | 3 => do
    let (adv, p) ← readSleb128 sec p
    return (p, { r with line := r.line + BitVec.ofNat 32 adv }, t)
  | 4 => do
    let (file, p) ← readUleb128 sec p
    return (p, { r with file := BitVec.ofNat 32 file }, t)
  | 5 => do
    let (_, p) ← readUleb128 sec p
    return (p, r, t)
  | 6 | 7 => .ok (p, r, t)
  | 8 =>
    let moved := BitVec.ofNat 32 ((header.opcodeBase.toNat - 1) * header.minInstrLen.toNat)
    .ok (p, { r with
      address := r.address + moved
      line := r.line + BitVec.ofNat 32 header.lineRange.toNat }, t)
  | 9 => do
    let val ← readU16Le sec p
    return (advance p 2, { r with address := r.address + BitVec.ofNat 32 val }, t)
  | _ => do
    let p ← skipUnknown sec header.standardOpcodeLengths opcode p
    return (p, r, t)

/-- A special opcode. -/
def parseSpecial (header : ProgramHeader) (opcode : UInt8) (r : Registers) (t : LineStore) :
    Except LineFault (Registers × LineStore) := do
  let adjusted := opcode.toNat - header.opcodeBase.toNat
  if header.lineRange = 0 then throw .divideByZero
  let lineIncr := header.lineBase.toInt8.toInt + (adjusted % header.lineRange.toNat : Nat)
  let addrIncr := adjusted / header.lineRange.toNat * header.minInstrLen.toNat
  let r := { r with
    line := r.line + BitVec.ofInt 32 lineIncr
    address := r.address + BitVec.ofNat 32 addrIncr }
  let t ← storeRow header r false t
  return (r, t)

/-- Storing the rows of a program, from an address on, up to the number that was counted. -/
def parseProgram (sec : Region) (header : ProgramHeader) (progEnd totalLineCount : Nat) :
    Nat → Nat → Registers → LineStore → Except LineFault LineStore
  | 0, _, _, _ => .error .endless
  | steps + 1, p, r, t =>
    if p < progEnd ∧ t.entryIdx < totalLineCount then do
      let opcode ← readByte sec p
      let p := advance p 1
      if opcode = 0 then
        let (length, p) ← readUleb128 sec p
        let sub ← readByte sec p
        let p := advance p 1
        let length := (length + (addresses - 1)) % addresses
        let (r, t) ← parseExtended sec header sub length p r t
        parseProgram sec header progEnd totalLineCount steps (advance p length) r t
      else if opcode < header.opcodeBase then
        let (p, r, t) ← parseStandard sec header opcode p r t
        parseProgram sec header progEnd totalLineCount steps p r t
      else
        let (r, t) ← parseSpecial header opcode r t
        parseProgram sec header progEnd totalLineCount steps p r t
    else .ok t

/-- What the second pass has stored so far. -/
structure LineTable where
  names : List (List UInt8)
  slots : Nat
  store : LineStore
  deriving DecidableEq, Repr

/-- Storing the files and the rows of a unit. -/
def parseUnit (sec : Region) (steps cursor totalLength totalLineCount : Nat) (t : LineTable) :
    Except LineFault LineTable := do
  let _version ← readU16Le sec (advance cursor 4)
  let prologueLength ← readU32Le sec (advance cursor 6)
  let minInstrLen ← readByte sec (advance cursor 10)
  let lineBase ← readByte sec (advance cursor 12)
  let lineRange ← readByte sec (advance cursor 13)
  let opcodeBase ← readByte sec (advance cursor 14)
  let files ← parseUnitFiles sec steps cursor totalLength t.names t.slots
  let header := ⟨minInstrLen, lineBase, lineRange, opcodeBase, advance cursor 15, files.fileMap⟩
  let store ← parseProgram sec header (advance cursor (4 + totalLength)) totalLineCount steps
    (advance cursor (10 + prologueLength)) {} t.store
  return { t with names := files.names, store }

/-- The second pass: the units from an address on. -/
def parseUnits (sec : Region) (steps totalLineCount : Nat) :
    Nat → Nat → LineTable → Except LineFault LineTable
  | 0, _, _ => .error .endless
  | left + 1, cursor, t =>
    if advance cursor 4 ≤ sec.finish then do
      let totalLength ← readU32Le sec cursor
      let next := advance cursor (4 + totalLength)
      if totalLength = 0 ∨ sec.finish < next then return t
      let t ← parseUnit sec steps cursor totalLength totalLineCount t
      parseUnits sec steps totalLineCount left next t
    else .ok t

/-- Whether there is memory for the arrays. -/
structure LineMemory where
  files : Bool
  lines : Bool
  deriving DecidableEq, Repr

/-- The answer, the table, and what the passes had counted and stored. -/
structure ParsedLines where
  ret : Int
  lines : List DwarfLineEntry := []
  fileNames : List (List UInt8) := []
  /-- The places allocated for files. -/
  fileSlots : Nat := 0
  /-- The rows that the second pass has stored. -/
  stored : Nat := 0
  deriving DecidableEq, Repr

/-- The number of rows in the table, as it was counted. -/
def ParsedLines.lineCount (parsed : ParsedLines) : Nat := parsed.lines.length

/-- Reading the line section, if there is one. -/
def parseDebugLine (debugLine : Option Region) (memory : LineMemory) (steps : Nat) :
    Except LineFault ParsedLines :=
  match debugLine with
  | none => .ok { ret := -1 }
  | some sec =>
    if sec.bytes.length < 10 then .ok { ret := -1 }
    else do
      let (totalLineCount, totalFileCount) ← countUnits sec steps steps sec.base (0, 0)
      if totalFileCount = 0 then return { ret := 0 }
      if !memory.files then return { ret := -1 }
      if 0 < totalLineCount ∧ !memory.lines then return { ret := -1 }
      let store := ⟨List.replicate totalLineCount {}, 0⟩
      let t ← parseUnits sec steps totalLineCount steps sec.base ⟨[], totalFileCount, store⟩
      return {
        ret := 0
        lines := t.store.lines
        fileNames := t.names
        fileSlots := t.slots
        stored := t.store.entryIdx }

/-- The debug information with the line section that was read. -/
def ParsedLines.info (parsed : ParsedLines) : DwarfInfo where
  lines := parsed.lines
  fileNames := parsed.fileNames

end TwoIne
