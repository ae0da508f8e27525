import Mathlib.Data.List.Infix
import TwoIne.Debugger.ApiNames
import TwoIne.Debugger.DebuggeeMemory
import TwoIne.Debugger.LdtAccess
import TwoIne.Lib.Numerals

/-! Where the debuggee goes next, by the instruction that it is at. -/

namespace TwoIne

open Numerals WordMemory

/-- The registers of the debuggee, as the system hands them out. -/
structure UserRegsStruct where
  ebx : BitVec 32
  ecx : BitVec 32
  edx : BitVec 32
  esi : BitVec 32
  edi : BitVec 32
  ebp : BitVec 32
  eax : BitVec 32
  xds : BitVec 32
  xes : BitVec 32
  xfs : BitVec 32
  xgs : BitVec 32
  eip : BitVec 32
  xcs : BitVec 32
  eflags : BitVec 32
  esp : BitVec 32
  xss : BitVec 32
  deriving DecidableEq, Repr

/-- What the disassembler says of an instruction. -/
structure CapstoneInsn where
  mnemonic : List Char
  opStr : List Char
  size : Nat

/-- The disassembler, by the mode, the bytes and their address. -/
abbrev Capstone := Bool → List UInt8 → BitVec 32 → Option CapstoneInsn

/-- An instruction with the name of the call to OS/2 that it is. -/
structure DisasmInstruction where
  mnemonic : List Char
  opStr : List Char
  size : Nat
  apiName : Option (List UInt8)

/-- The name of the call for the operand of a near call or jump. -/
def nearApiName (apiState : Option (List ApiEntry)) (opStr : List Char) : Option (List UInt8) :=
  let hex := strtoul opStr 16
  let apiName :=
    if hex.2 = [] ∨ hex.2.head? = some 'h' then resolveOs2Api apiState hex.1 else none
  if opStr.head? = some '0' ∧ opStr.tail.head? = some 'x' then
    let target := (strtoul opStr 0).1
    if target ≠ 0 ∧ apiName = none then resolveOs2Api apiState target else apiName
  else apiName

/-- Disassembling one instruction; bytes that are none are taken for data. -/
def disasmInstruction (capstone : Capstone) (apiState : Option (List ApiEntry))
    (code : List UInt8) (address : BitVec 32) (is16bit : Bool) : DisasmInstruction :=
  match capstone is16bit code address with
  | none => ⟨"db".toList, [], 1, none⟩
  | some insn =>
    let apiName :=
      if insn.mnemonic = "call".toList ∨ insn.mnemonic = "jmp".toList then
        nearApiName apiState insn.opStr
      else none
    ⟨insn.mnemonic, insn.opStr, insn.size, apiName⟩

/-- Whether a text is somewhere in another one. -/
def strstr (text part : List Char) : Bool := part <:+: text

/-- Whether a conditional jump is taken, by its mnemonic. -/
def jumpTaken (m : List Char) (regs : UserRegsStruct) : Bool :=
  let CF := regs.eflags.getLsbD 0
  let ZF := regs.eflags.getLsbD 6
  let SF := regs.eflags.getLsbD 7
  let OF := regs.eflags.getLsbD 11
  let PF := regs.eflags.getLsbD 2
  -- The jumps for signed numbers are corrected behind the others.
  if m = "jl".toList then SF != OF
  else if m = "jge".toList then SF == OF
  else if m = "je".toList ∨ m = "jz".toList then ZF
  else if m = "jne".toList ∨ m = "jnz".toList then !ZF
  else if m = "jae".toList ∨ m = "jnc".toList then !CF
  else if m = "jb".toList ∨ m = "jc".toList then CF
  else if m = "ja".toList then !CF && !ZF
  else if m = "jbe".toList then CF || ZF
  else if m = "jg".toList then !ZF && SF == OF
  else if m = "jle".toList then ZF || SF != OF
  else if m = "js".toList then SF
  else if m = "jns".toList then !SF
  else if m = "jo".toList then OF
  else if m = "jno".toList then !OF
  else if m = "jp".toList ∨ m = "jpe".toList then PF
  else if m = "jnp".toList ∨ m = "jpo".toList then !PF
  else if m = "jecxz".toList ∨ m = "jcxz".toList then regs.ecx &&& 0xFFFF = 0
  else false

/-- The address that a segment and an offset lead to, unless it counts as none. -/
def farTarget (shared : Option DebugSharedState) (is16bit : Bool) (target : BitVec 16 × BitVec 16) :
    Option (BitVec 32) :=
  if is16bit ∧ shared.isSome then
    let targetLinear := linearAddressFromSelectors shared target.1 target.2
    if targetLinear ≠ 0 then some targetLinear else none
  else none

/-- Behind a far call: into it, or over it. -/
def nextOfFarCall (shared : Option DebugSharedState)
    (is16bit stepIntoFarCalls stepIntoOs2Apis : Bool) (opStr : List Char) : Option (BitVec 32) :=
  match scanHexPair opStr with
  | none => none
  | some target =>
    let isOs2Api := target.1 = 0xFFFF ∨ target.1 = 0xFFEF
    if isOs2Api ∧ stepIntoOs2Apis ∨ ¬ isOs2Api ∧ stepIntoFarCalls then
      farTarget shared is16bit target
    else none

/-- Behind a near call or jump; what is no number is stepped over. -/
def nextOfNear (instr : DisasmInstruction) (stepIntoOs2Apis : Bool) : Option (BitVec 32) :=
  if instr.apiName.isSome ∧ !stepIntoOs2Apis then none
  else
    let hex := strtoul instr.opStr 16
    if hex.2 = [] ∨ hex.2.head? = some 'h' then some hex.1
    else if instr.opStr.head? = some '0' ∧ instr.opStr.tail.head? = some 'x' then
      let target := (strtoul instr.opStr 0).1
      if target ≠ 0 then some target else none
    else none

/-- Behind a return: the address on the stack, with a segment on it too. -/
def nextOfReturn (shared : Option DebugSharedState) (memory : ByteMemory) (regs : UserRegsStruct)
    (is16bit : Bool) : Option (BitVec 32) :=
  let ss := regs.xss.setWidth 16
  let sp := (regs.esp &&& 0xFFFF).setWidth 16
  if is16bit ∧ shared.isSome then
    let linearSp := linearAddressFromSelectors shared ss 0 + sp.setWidth 32
    match ptraceReadMemory memory linearSp 4 with
    | some [byte0, byte1, byte2, byte3] =>
      let retIp := byte1.toBitVec ++ byte0.toBitVec
      let retCs := byte3.toBitVec ++ byte2.toBitVec
      let retLinear := linearAddressFromSelectors shared retCs retIp
      if retLinear ≠ 0 then some retLinear else none
    | _ => none
  else none

/-- Where an instruction leads, if it is not to the one behind it. -/
def nextElsewhere (shared : Option DebugSharedState) (memory : ByteMemory) (regs : UserRegsStruct)
    (is16bit stepIntoFarCalls stepIntoOs2Apis : Bool) (instr : DisasmInstruction) :
    Option (BitVec 32) :=
  if strstr instr.mnemonic "lcall".toList then
    nextOfFarCall shared is16bit stepIntoFarCalls stepIntoOs2Apis instr.opStr
  else if strstr instr.mnemonic "ljmp".toList then
    match scanHexPair instr.opStr with
    | none => none
    | some target => farTarget shared is16bit target
  else if strstr instr.mnemonic "jmp".toList ∨ strstr instr.mnemonic "call".toList then
    nextOfNear instr stepIntoOs2Apis
  else if instr.mnemonic.head? = some 'j' ∧ instr.mnemonic.tail.head? ≠ some 'm' then
    let jumpTarget := (strtoul instr.opStr 0).1
    if jumpTaken instr.mnemonic regs ∧ jumpTarget ≠ 0 then some jumpTarget else none
  else if strstr instr.mnemonic "ret".toList then nextOfReturn shared memory regs is16bit
  -- An interrupt is stepped over, like any other instruction.
  else none

/-- The address of the instruction that is executed next. -/
def calculateNextIP (capstone : Capstone) (apiState : Option (List ApiEntry))
    (shared : Option DebugSharedState) (memory : ByteMemory) (regs : UserRegsStruct)
    (is16bit stepIntoFarCalls stepIntoOs2Apis : Bool) : BitVec 32 :=
  let eip := regs.eip
  let cs := regs.xcs.setWidth 16
  let linearEip :=
    if is16bit ∧ shared.isSome then
      linearAddressFromSelectors shared cs ((eip &&& 0xFFFF).setWidth 16)
    else eip
  if linearEip = 0 then eip
  else
    match ptraceReadMemory memory linearEip 16 with
    | none => linearEip + 1
    | some code =>
      let instr := disasmInstruction capstone apiState code linearEip is16bit
      (nextElsewhere shared memory regs is16bit stepIntoFarCalls stepIntoOs2Apis instr).getD
        (linearEip + BitVec.ofNat 32 instr.size)

/-- The address that a single step plants its breakpoint at. -/
def softwareStepTarget (capstone : Capstone) (apiState : Option (List ApiEntry))
    (shared : Option DebugSharedState) (memory : ByteMemory) (regs : UserRegsStruct)
    (isLxMode : Bool) : BitVec 32 :=
  calculateNextIP capstone apiState shared memory regs (!isLxMode) true false

end TwoIne
