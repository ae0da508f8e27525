import TwoIne.Lib.Leb128
import TwoIne.Lib.Regions

/-!
Line number programs of DWARF 2: how they are written, and the rows that they stand for.

The operations of a program change registers, and some of them put the registers out as a row. The
file numbers of the rows count in the file table of the unit the program belongs to.
-/

namespace DwarfLines

open Leb128 Regions

/-- What the header of a unit says about its program. -/
structure LineHeader where
  version : BitVec 16
  minInstLength : UInt8
  defaultIsStmt : UInt8
  lineBase : UInt8
  lineRange : UInt8
  opcodeBase : UInt8
  /-- The number of operands of each standard operation, from the first one on. -/
  standardOpcodeLengths : List UInt8
  deriving DecidableEq, Repr

/-- A file of a unit. -/
structure FileEntry where
  name : List UInt8
  directory : Leb
  modified : Leb
  length : Leb
  deriving DecidableEq, Repr

/-- Operands that stand for an address or for a segment, in the two sizes there are. -/
inductive Target where
  | short (value : BitVec 16)
  | long (value : BitVec 32)
  deriving DecidableEq, Repr

/--
An operation of a line number program.

The extended ones carry their length as it is written, which is the number of bytes behind it.
-/
inductive LineOp where
  | copy
  | advancePc (operand : Leb)
  | advanceLine (operand : Leb)
  | setFile (operand : Leb)
  | setColumn (operand : Leb)
  | negateStmt
  | setBasicBlock
  | constAddPc
  | fixedAdvancePc (operand : BitVec 16)
  | standard (opcode : UInt8) (operands : List Leb)
  | special (opcode : UInt8)
  | endSequence (length : Leb)
  | setAddress (length : Leb) (target : Target)
  | setSegment (length : Leb) (old : Bool) (target : Target)
  | defineFile (length : Leb) (file : FileEntry)
  | extended (length : Leb) (opcode : UInt8) (payload : List UInt8)
  deriving DecidableEq, Repr

/-- A number of two bytes, the lower one first. -/
def le16 (value : BitVec 16) : List UInt8 :=
  [value.toNat.toUInt8, (value.toNat / 256).toUInt8]

/-- A number of four bytes, the lowest one first. -/
def le32 (value : BitVec 32) : List UInt8 :=
  [value.toNat.toUInt8, (value.toNat / 256).toUInt8, (value.toNat / 65536).toUInt8,
    (value.toNat / 16777216).toUInt8]

/-- The bytes of a file of a unit. -/
def FileEntry.bytes (file : FileEntry) : List UInt8 :=
  file.name ++ 0 :: (file.directory.bytes ++ (file.modified.bytes ++ file.length.bytes))

/-- The bytes of an operand. -/
def Target.bytes : Target → List UInt8
  | .short value => le16 value
  | .long value => le32 value

/-- The operation that a standard opcode stands for, where DWARF 2 knows it. -/
def LineOp.opcode : LineOp → UInt8
  | .copy => 1
  | .advancePc _ => 2
  | .advanceLine _ => 3
  | .setFile _ => 4
  | .setColumn _ => 5
  | .negateStmt => 6
  | .setBasicBlock => 7
  | .constAddPc => 8
  | .fixedAdvancePc _ => 9
  | .standard opcode _ => opcode
  | .special opcode => opcode
  | _ => 0

/-- The operands of a standard operation. -/
def LineOp.operands : LineOp → List UInt8
  | .advancePc operand | .advanceLine operand | .setFile operand | .setColumn operand =>
    operand.bytes
  | .fixedAdvancePc operand => le16 operand
  | .standard _ operands => operands.flatMap Leb.bytes
  | _ => []

/-- The length, the opcode and the payload of an extended operation. -/
def LineOp.extendedParts : LineOp → Option (Leb × UInt8 × List UInt8)
  | .endSequence length => some (length, 1, [])
  | .setAddress length target => some (length, 2, target.bytes)
  | .setSegment length old target => some (length, if old then 4 else 0x80, target.bytes)
  | .defineFile length file => some (length, 3, file.bytes)
  | .extended length opcode payload => some (length, opcode, payload)
  | _ => none

/-- The bytes of an operation. -/
def LineOp.bytes (op : LineOp) : List UInt8 :=
  match op.extendedParts with
  | some (length, opcode, payload) => 0 :: (length.bytes ++ opcode :: payload)
  | none => op.opcode :: op.operands

/-- Whether an operation is written as the header has it. -/
def LineOp.Valid (header : LineHeader) (op : LineOp) : Prop :=
  match op with
  | .special opcode => header.opcodeBase ≤ opcode
  | .standard opcode operands => 10 ≤ opcode ∧ opcode < header.opcodeBase ∧
    header.standardOpcodeLengths[opcode.toNat - 1]? = some operands.length.toUInt8 ∧
      operands.length < 256
  | .extended length opcode payload => length.value = payload.length + 1 ∧
    opcode ∉ [1, 2, 3, 4, 0x80]
  | .defineFile length file => length.value = file.bytes.length + 1 ∧ 0 ∉ file.name
  | op =>
    match op.extendedParts with
    | some (length, _, payload) => length.value = payload.length + 1
    | none => op.opcode < header.opcodeBase

/-- A compilation unit of a line section. -/
structure LineUnit where
  header : LineHeader
  directories : List (List UInt8)
  files : List FileEntry
  program : List LineOp
  range : header.lineRange ≠ 0
  base : header.opcodeBase ≠ 0
  lengths : header.standardOpcodeLengths.length + 1 = header.opcodeBase.toNat
  named : ∀ name ∈ directories ++ files.map FileEntry.name, name ≠ [] ∧ 0 ∉ name
  valid : ∀ op ∈ program, op.Valid header

/-- The bytes of the header behind its length field. -/
def LineUnit.prologueBytes (unit : LineUnit) : List UInt8 :=
  [unit.header.minInstLength, unit.header.defaultIsStmt, unit.header.lineBase,
    unit.header.lineRange, unit.header.opcodeBase] ++
    (unit.header.standardOpcodeLengths ++ (unit.directories.flatMap (· ++ [0]) ++ 0 ::
      (unit.files.flatMap FileEntry.bytes ++ [0])))

/-- The bytes of the program. -/
def LineUnit.programBytes (unit : LineUnit) : List UInt8 := unit.program.flatMap LineOp.bytes

/-- The number of bytes behind the length of the unit. -/
def LineUnit.length (unit : LineUnit) : Nat :=
  6 + unit.prologueBytes.length + unit.programBytes.length

/-- The bytes of a unit. -/
def LineUnit.bytes (unit : LineUnit) : List UInt8 :=
  le32 (BitVec.ofNat 32 unit.length) ++ (le16 unit.header.version ++
    (le32 (BitVec.ofNat 32 unit.prologueBytes.length) ++
      (unit.prologueBytes ++ unit.programBytes)))

/-- A line section in memory, which is one unit behind the other. -/
structure LineSection where
  base : Nat
  units : List LineUnit
  fits : base + (units.flatMap LineUnit.bytes).length + 0x1000 ≤ addresses

/-- The memory of a line section. -/
def LineSection.region (s : LineSection) : Region :=
  ⟨s.base, s.units.flatMap LineUnit.bytes, s.fits⟩

/-- The registers of the state machine. -/
structure Registers where
  address : BitVec 32 := 0
  segment : BitVec 16 := 0
  file : BitVec 32 := 1
  line : BitVec 32 := 1
  deriving DecidableEq, Repr

/-- A row, with the registers that it was made of. -/
structure Row where
  registers : Registers
  endSequence : Bool
  deriving DecidableEq, Repr

/-- The advance of a special opcode in instructions and in lines. -/
def specialAdvance (header : LineHeader) (opcode : UInt8) : Nat × Int :=
  let adjusted := opcode.toNat - header.opcodeBase.toNat
  (adjusted / header.lineRange.toNat,
    header.lineBase.toInt8.toInt + (adjusted % header.lineRange.toNat : Nat))

/-- Advancing the address by a number of instructions. -/
def Registers.advance (header : LineHeader) (count : Nat) (r : Registers) : Registers :=
  { r with address := r.address + BitVec.ofNat 32 (count * header.minInstLength.toNat) }

/-- A target as an address. -/
def Target.address : Target → BitVec 32
  | .short value => value.setWidth 32
  | .long value => value

/-- A target as a segment. -/
def Target.segment : Target → BitVec 16
  | .short value => value
  | .long value => value.setWidth 16

/-- What an operation does to the registers. -/
def LineOp.run (header : LineHeader) (op : LineOp) (r : Registers) : Registers :=
  match op with
  | .advancePc operand => r.advance header operand.value
  | .advanceLine operand => { r with line := r.line + BitVec.ofInt 32 operand.signed }
  | .setFile operand => { r with file := BitVec.ofNat 32 operand.value }
  | .constAddPc => r.advance header (specialAdvance header 255).1
  | .fixedAdvancePc operand => { r with address := r.address + operand.setWidth 32 }
  | .special opcode =>
    let advance := specialAdvance header opcode
    { r.advance header advance.1 with line := r.line + BitVec.ofInt 32 advance.2 }
  | .setAddress _ target => { r with address := target.address }
  | .setSegment _ _ target => { r with segment := target.segment }
  | _ => r

/-- The row that an operation puts out, once it has changed the registers. -/
def LineOp.row (op : LineOp) (r : Registers) : Option Row :=
  match op with
  | .copy | .special _ => some ⟨r, false⟩
  | .endSequence _ => some ⟨r, true⟩
  | _ => none

/-- The registers that the next operation starts with; a new sequence has fresh ones. -/
def LineOp.next (op : LineOp) (r : Registers) : Registers :=
  match op with
  | .endSequence _ => {}
  | _ => r

/-- The rows of a program from given registers on, for what operations do to the registers. -/
def rowsWith (run : LineOp → Registers → Registers) : Registers → List LineOp → List Row
  | _, [] => []
  | r, op :: rest => (op.row (run op r)).toList ++ rowsWith run (op.next (run op r)) rest

/-- Whether an operation puts out a row. -/
def LineOp.putsRow : LineOp → Bool
  | .copy | .special _ | .endSequence _ => true
  | _ => false

/-- A program puts out a row for each operation that does, whatever the registers. -/
theorem length_rowsWith (run : LineOp → Registers → Registers) (r : Registers)
    (program : List LineOp) :
    (rowsWith run r program).length = program.countP LineOp.putsRow := by
  -- Each operation puts out one row or none.
  induction program generalizing r with
  | nil => rfl
  | cons op program ih =>
    have here : (op.row (run op r)).toList.length = if LineOp.putsRow op then 1 else 0 := by
      cases op <;> rfl
    rw [rowsWith, List.length_append, List.countP_cons, ih, here, Nat.add_comm]

/-- The rows of a unit. -/
def LineUnit.rows (unit : LineUnit) : List Row :=
  rowsWith (LineOp.run unit.header) {} unit.program

/-- The file that an operation adds to the file table. -/
def LineOp.definedFile : LineOp → Option FileEntry
  | .defineFile _ file => some file
  | _ => none

/-- The names of the file table of a unit, those of its header first. -/
def LineUnit.fileTable (unit : LineUnit) : List (List UInt8) :=
  (unit.files ++ unit.program.filterMap LineOp.definedFile).map FileEntry.name

/-- The name that a file number stands for, where files count from one. -/
def nameOf (table : List (List UInt8)) (number : BitVec 32) : Option (List UInt8) :=
  if number = 0 then none else table[number.toNat - 1]?

end DwarfLines
