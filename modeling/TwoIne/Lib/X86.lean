import Mathlib.Logic.Relation
import TwoIne.Lib.WordMemory

/-!
A part of the instruction set of the x86: moves between registers and segment registers, the stack,
and calls and jumps between segments of 16 and of 32 bits. No instruction here reads the flags, and
neither the limits of segments nor what they may be used for are checked.
-/

namespace X86

open WordMemory

/-- The registers of 32 bits, in the order of their numbers. -/
structure Registers where
  eax : BitVec 32
  ecx : BitVec 32
  edx : BitVec 32
  ebx : BitVec 32
  esp : BitVec 32
  ebp : BitVec 32
  esi : BitVec 32
  edi : BitVec 32
  deriving DecidableEq, Repr

/-- The names of these registers. -/
inductive Reg where
  | eax | ecx | edx | ebx | esp | ebp | esi | edi
  deriving DecidableEq, Repr

/-- The selectors in the segment registers. -/
structure Selectors where
  es : BitVec 16
  cs : BitVec 16
  ss : BitVec 16
  ds : BitVec 16
  deriving DecidableEq, Repr

/-- The names of the segment registers. -/
inductive SegReg where
  | es | cs | ss | ds
  deriving DecidableEq, Repr

/-- A register. -/
def Registers.get (r : Registers) : Reg → BitVec 32
  | .eax => r.eax
  | .ecx => r.ecx
  | .edx => r.edx
  | .ebx => r.ebx
  | .esp => r.esp
  | .ebp => r.ebp
  | .esi => r.esi
  | .edi => r.edi

/-- Writing a register. -/
def Registers.set (r : Registers) (value : BitVec 32) : Reg → Registers
  | .eax => { r with eax := value }
  | .ecx => { r with ecx := value }
  | .edx => { r with edx := value }
  | .ebx => { r with ebx := value }
  | .esp => { r with esp := value }
  | .ebp => { r with ebp := value }
  | .esi => { r with esi := value }
  | .edi => { r with edi := value }

/-- A segment register. -/
def Selectors.get (s : Selectors) : SegReg → BitVec 16
  | .es => s.es
  | .cs => s.cs
  | .ss => s.ss
  | .ds => s.ds

/-- Writing a segment register. -/
def Selectors.set (s : Selectors) (value : BitVec 16) : SegReg → Selectors
  | .es => { s with es := value }
  | .cs => { s with cs := value }
  | .ss => { s with ss := value }
  | .ds => { s with ds := value }

/-- The lower half of a register. -/
def low (value : BitVec 32) : BitVec 16 := value.setWidth 16

/-- A register with another lower half. -/
def withLow (value : BitVec 32) (lower : BitVec 16) : BitVec 32 := value.extractLsb' 16 16 ++ lower

/-- The bytes of half a word, the lowest one first. -/
def halfBytes (half : BitVec 16) : List UInt8 :=
  [⟨half.extractLsb' 0 8⟩, ⟨half.extractLsb' 8 8⟩]

/-- The bytes of a word, the lowest one first. -/
def wordBytes (word : BitVec 32) : List UInt8 :=
  [wordByte word 0, wordByte word 1, wordByte word 2, wordByte word 3]

/-- The half a word of two bytes. -/
def halfOf (byte : Nat → UInt8) : BitVec 16 := (byte 1).toBitVec ++ (byte 0).toBitVec

/-- Where segments start, and which of them are of 32 bits. -/
structure Segments where
  base : BitVec 16 → BitVec 32
  wide : BitVec 16 → Bool

/--
The processor: its registers, and the memory that is written to. The pages with code are read only,
and kept apart from it.
-/
structure Machine where
  regs : Registers
  sel : Selectors
  eip : BitVec 32
  memory : ByteMemory

/-- What a process runs on: the segments, and the pages with code. -/
structure Process where
  segments : Segments
  code : ByteMemory

/-- The instructions; `wide` is whether the operand is a word or half a word. -/
inductive Insn where
  | push (wide : Bool) (reg : Reg)
  | pop (wide : Bool) (reg : Reg)
  | pushImm (wide : Bool) (value : BitVec 32)
  /-- A selector in as many bytes as the operand has. -/
  | pushSeg (wide : Bool) (seg : SegReg)
  | popSeg (wide : Bool) (seg : SegReg)
  | mov (wide : Bool) (target source : Reg)
  | movFromSeg (wide : Bool) (target : Reg) (source : SegReg)
  /-- The lower half of the register is the selector. -/
  | movToSeg (target : SegReg) (source : Reg)
  | movImm (wide : Bool) (target : Reg) (value : BitVec 32)
  | shl (wide : Bool) (target : Reg) (count : Nat)
  | shr (wide : Bool) (target : Reg) (count : Nat)
  /-- Adding a byte with a sign. -/
  | addImm (wide : Bool) (target : Reg) (value : BitVec 8)
  /-- A near call with a return address of a word. -/
  | callReg (target : Reg)
  | jmpFar (selector : BitVec 16) (target : BitVec 32)
  /-- A far return, which also releases so many bytes of the stack. -/
  | retFar (wide : Bool) (release : BitVec 16)
  deriving DecidableEq, Repr

section Stack

variable (segments : Segments) (m : Machine)

/-- Whether the stack pointer is a word. -/
def Machine.wideStack : Bool := segments.wide m.sel.ss

/-- The linear address of the top of the stack. -/
def Machine.stackTop : BitVec 32 :=
  segments.base m.sel.ss +
    if m.wideStack segments then m.regs.esp else (low m.regs.esp).setWidth 32

/-- Moving the stack pointer, of which a stack of 16 bits uses the lower half. -/
def Machine.moveStack (delta : BitVec 32) : Machine :=
  let esp := m.regs.esp
  let moved := if m.wideStack segments then esp + delta else withLow esp (low esp + low delta)
  { m with regs := { m.regs with esp := moved } }

/-- Pushing bytes, of which the first one ends on top. -/
def Machine.pushBytes (bytes : List UInt8) : Machine :=
  let moved := m.moveStack segments (-BitVec.ofNat 32 bytes.length)
  { moved with memory := written moved.memory (moved.stackTop segments) bytes }

/-- The bytes from an address on, unless one of them is not mapped. -/
def readBytes (memory : ByteMemory) (addr : BitVec 32) (count : Nat) : Option (List UInt8) :=
  (List.range count).mapM fun k => memory (addr + BitVec.ofNat 32 k)

/-- Popping bytes. -/
def Machine.popBytes (count : Nat) : Option (List UInt8 × Machine) :=
  (readBytes m.memory (m.stackTop segments) count).map fun bytes =>
    (bytes, m.moveStack segments (BitVec.ofNat 32 count))

end Stack

/-- How many bytes an operand has. -/
def operandSize (wide : Bool) : Nat := if wide then 4 else 2

/-- The bytes of an operand. -/
def operandBytes (wide : Bool) (value : BitVec 32) : List UInt8 :=
  if wide then wordBytes value else halfBytes (low value)

/-- The operand of some bytes, of which half a word leaves the rest of a register as it was. -/
def operandOf (wide : Bool) (before : BitVec 32) (bytes : List UInt8) : BitVec 32 :=
  let byte := fun k => bytes.getD k 0
  if wide then wordOf byte else withLow before (halfOf byte)

/-- Writing an operand to a register. -/
def Machine.write (m : Machine) (wide : Bool) (target : Reg) (value : BitVec 32) : Machine :=
  let value := if wide then value else withLow (m.regs.get target) (low value)
  { m with regs := m.regs.set value target }

/-- The register with a number. -/
def regOf (number : BitVec 3) : Reg :=
  match number.toNat with
  | 0 => .eax
  | 1 => .ecx
  | 2 => .edx
  | 3 => .ebx
  | 4 => .esp
  | 5 => .ebp
  | 6 => .esi
  | _ => .edi

/-- The segment register with a number, of the first four. -/
def segOf (number : BitVec 3) : Option SegReg :=
  match number.toNat with
  | 0 => some .es
  | 1 => some .cs
  | 2 => some .ss
  | 3 => some .ds
  | _ => none

/-- The registers of a byte whose upper bits say that it has no operand in memory. -/
def registersOf (modrm : UInt8) : Option (BitVec 3 × BitVec 3) :=
  if modrm.toBitVec.extractLsb' 6 2 = 3 then
    some (modrm.toBitVec.extractLsb' 3 3, modrm.toBitVec.extractLsb' 0 3)
  else none

/-- An instruction and its length, from its bytes without a prefix. -/
def decodePlain (wide : Bool) (bytes : List UInt8) : Option (Insn × Nat) :=
  match bytes with
  | 0x06 :: _ => some (.pushSeg wide .es, 1)
  | 0x07 :: _ => some (.popSeg wide .es, 1)
  | 0x1E :: _ => some (.pushSeg wide .ds, 1)
  | 0x1F :: _ => some (.popSeg wide .ds, 1)
  | 0x68 :: byte0 :: byte1 :: rest =>
    if wide then
      match rest with
      | byte2 :: byte3 :: _ =>
        some (.pushImm true (wordOf ([byte0, byte1, byte2, byte3].getD · 0)), 5)
      | _ => none
    else some (.pushImm false ((halfOf ([byte0, byte1].getD · 0)).setWidth 32), 3)
  | 0x83 :: modrm :: value :: _ =>
    (registersOf modrm).bind fun (operation, target) =>
      if operation = 0 then some (.addImm wide (regOf target) value.toBitVec, 3) else none
  | 0x89 :: modrm :: _ =>
    (registersOf modrm).map fun (source, target) => (.mov wide (regOf target) (regOf source), 2)
  | 0x8C :: modrm :: _ =>
    (registersOf modrm).bind fun (source, target) =>
      (segOf source).map fun source => (.movFromSeg wide (regOf target) source, 2)
  | 0x8E :: modrm :: _ =>
    (registersOf modrm).bind fun (target, source) =>
      (segOf target).map fun target => (.movToSeg target (regOf source), 2)
  | 0xC1 :: modrm :: count :: _ =>
    (registersOf modrm).bind fun (operation, target) =>
      let count := count.toNat % 32
      if operation = 4 then some (.shl wide (regOf target) count, 3)
      else if operation = 5 then some (.shr wide (regOf target) count, 3) else none
  | 0xCA :: byte0 :: byte1 :: _ =>
    some (.retFar wide (halfOf ([byte0, byte1].getD · 0)), 3)
  | 0xEA :: byte0 :: byte1 :: byte2 :: byte3 :: rest =>
    if wide then
      match rest with
      | byte4 :: byte5 :: _ => some (.jmpFar (halfOf ([byte4, byte5].getD · 0))
          (wordOf ([byte0, byte1, byte2, byte3].getD · 0)), 7)
      | _ => none
    else some (.jmpFar (halfOf ([byte2, byte3].getD · 0))
      ((halfOf ([byte0, byte1].getD · 0)).setWidth 32), 5)
  | 0xFF :: modrm :: _ =>
    (registersOf modrm).bind fun (operation, target) =>
      if operation = 2 ∧ wide then some (.callReg (regOf target), 2) else none
  | opcode :: rest =>
    let target := regOf (opcode.toBitVec.extractLsb' 0 3)
    match (opcode.toBitVec.extractLsb' 3 5).toNat, rest with
    | 0x0A, _ => some (.push wide target, 1)
    | 0x0B, _ => some (.pop wide target, 1)
    | 0x17, byte0 :: byte1 :: rest =>
      if wide then
        match rest with
        | byte2 :: byte3 :: _ =>
          some (.movImm true target (wordOf ([byte0, byte1, byte2, byte3].getD · 0)), 5)
        | _ => none
      else some (.movImm false target ((halfOf ([byte0, byte1].getD · 0)).setWidth 32), 3)
    | _, _ => none
  | [] => none

/-- An instruction and its length, from its bytes; a prefix changes the size of the operand. -/
def decode (wide : Bool) (bytes : List UInt8) : Option (Insn × Nat) :=
  match bytes with
  | 0x66 :: rest => (decodePlain (!wide) rest).map fun (insn, length) => (insn, length + 1)
  | _ => decodePlain wide bytes

/-- What an instruction does; the instruction pointer is behind it already. -/
def execute (segments : Segments) (m : Machine) : Insn → Option Machine
  | .push wide reg => some (m.pushBytes segments (operandBytes wide (m.regs.get reg)))
  | .pop wide reg =>
    (m.popBytes segments (operandSize wide)).map fun (bytes, m) =>
      { m with regs := m.regs.set (operandOf wide (m.regs.get reg) bytes) reg }
  | .pushImm wide value => some (m.pushBytes segments (operandBytes wide value))
  | .pushSeg wide seg =>
    some (m.pushBytes segments (operandBytes wide ((m.sel.get seg).setWidth 32)))
  | .popSeg wide seg =>
    (m.popBytes segments (operandSize wide)).map fun (bytes, m) =>
      { m with sel := m.sel.set (halfOf (bytes.getD · 0)) seg }
  | .mov wide target source => some (m.write wide target (m.regs.get source))
  | .movFromSeg wide target source =>
    some (m.write wide target ((m.sel.get source).setWidth 32))
  | .movToSeg target source => some { m with sel := m.sel.set (low (m.regs.get source)) target }
  | .movImm wide target value => some (m.write wide target value)
  | .shl wide target count => some (m.write wide target (m.regs.get target <<< count))
  | .shr wide target count =>
    some (m.write wide target (if wide then m.regs.get target >>> count
      else (low (m.regs.get target) >>> count).setWidth 32))
  | .addImm wide target value =>
    some (m.write wide target (m.regs.get target + value.signExtend 32))
  | .callReg target =>
    some { m.pushBytes segments (wordBytes m.eip) with eip := m.regs.get target }
  | .jmpFar selector target => some { m with sel := { m.sel with cs := selector }, eip := target }
  | .retFar wide release =>
    (m.popBytes segments (operandSize wide)).bind fun (target, m) =>
      (m.popBytes segments (operandSize wide)).map fun (selector, m) =>
        let m := m.moveStack segments (release.setWidth 32)
        { m with
          sel := { m.sel with cs := halfOf (selector.getD · 0) }
          eip := operandOf wide 0 target }

/-- The linear address of the next instruction. -/
def Machine.pc (p : Process) (m : Machine) : BitVec 32 := p.segments.base m.sel.cs + m.eip

/-- The longest instruction that is decoded here, and its prefix. -/
def longest : Nat := 8

/-- So many bytes from an address on, or as many as are mapped. -/
def fetch (code : ByteMemory) : Nat → BitVec 32 → List UInt8
  | 0, _ => []
  | count + 1, addr =>
    match code addr with
    | none => []
    | some byte => byte :: fetch code count (addr + 1)

/-- One instruction. -/
def step (p : Process) (m : Machine) : Option Machine :=
  (decode (p.segments.wide m.sel.cs) (fetch p.code longest (m.pc p))).bind fun (insn, length) =>
    execute p.segments { m with eip := m.eip + BitVec.ofNat 32 length } insn

/-- One machine comes to be another one in some steps. -/
def Runs (p : Process) : Machine → Machine → Prop :=
  Relation.ReflTransGen fun m n => step p m = some n

end X86
