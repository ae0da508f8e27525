import TwoIne.Debugger.NextIp
import TwoIne.Proofs.Debugger.LdtAccess

/-!
What the processor does in 16-bit code: where each kind of instruction leads, and how instructions
are printed.
-/

namespace TwoIne

open Numerals WordMemory

/-- The general registers. -/
inductive GeneralReg where
  | ax
  | cx
  | dx
  | bx
  | sp
  | bp
  | si
  | di
  deriving DecidableEq, Repr

/-- The segment registers that an operand may be in. -/
inductive SegmentReg where
  | es
  | cs
  | ss
  | ds
  | fs
  | gs
  deriving DecidableEq, Repr

/-- The value of a register, in all of its 32 bits. -/
def UserRegsStruct.general (regs : UserRegsStruct) : GeneralReg → BitVec 32
  | .ax => regs.eax
  | .cx => regs.ecx
  | .dx => regs.edx
  | .bx => regs.ebx
  | .sp => regs.esp
  | .bp => regs.ebp
  | .si => regs.esi
  | .di => regs.edi

/-- The selector in a segment register. -/
def UserRegsStruct.selector (regs : UserRegsStruct) : SegmentReg → BitVec 16
  | .es => regs.xes.setWidth 16
  | .cs => regs.xcs.setWidth 16
  | .ss => regs.xss.setWidth 16
  | .ds => regs.xds.setWidth 16
  | .fs => regs.xfs.setWidth 16
  | .gs => regs.xgs.setWidth 16

/-- The name of the low half of a register. -/
def GeneralReg.name : GeneralReg → List Char
  | .ax => "ax".toList
  | .cx => "cx".toList
  | .dx => "dx".toList
  | .bx => "bx".toList
  | .sp => "sp".toList
  | .bp => "bp".toList
  | .si => "si".toList
  | .di => "di".toList

/--
An operand in memory: a segment, registers that are added, the second of them scaled, and a
displacement. The sum counts in all of its 32 bits if `wide` says so.
-/
structure MemOperand where
  segment : SegmentReg
  base : Option GeneralReg
  index : Option GeneralReg
  scale : Fin 4
  disp : BitVec 32
  wide : Bool
  deriving DecidableEq, Repr

/-- The operand of a near jump or call. -/
inductive NearOperand where
  | reg (register : GeneralReg)
  | mem (place : MemOperand)
  deriving DecidableEq, Repr

/-- The conditions of jumps. -/
inductive JumpCond where
  | o
  | no
  | b
  | ae
  | e
  | ne
  | be
  | a
  | s
  | ns
  | p
  | np
  | l
  | ge
  | le
  | g
  deriving DecidableEq, Repr

/-- The name of a conditional jump. -/
def JumpCond.mnemonic : JumpCond → List Char
  | .o => "jo".toList
  | .no => "jno".toList
  | .b => "jb".toList
  | .ae => "jae".toList
  | .e => "je".toList
  | .ne => "jne".toList
  | .be => "jbe".toList
  | .a => "ja".toList
  | .s => "js".toList
  | .ns => "jns".toList
  | .p => "jp".toList
  | .np => "jnp".toList
  | .l => "jl".toList
  | .ge => "jge".toList
  | .le => "jle".toList
  | .g => "jg".toList

/-- The carry, parity, zero, sign and overflow flags. -/
structure StatusFlags where
  carry : Bool
  parity : Bool
  zero : Bool
  sign : Bool
  overflow : Bool
  deriving DecidableEq, Repr

/-- The status flags of a flag word. -/
def statusFlags (eflags : BitVec 32) : StatusFlags where
  carry := eflags.getLsbD 0
  parity := eflags.getLsbD 2
  zero := eflags.getLsbD 6
  sign := eflags.getLsbD 7
  overflow := eflags.getLsbD 11

/-- Whether a condition holds of the flags. -/
def JumpCond.holds (flags : StatusFlags) : JumpCond → Bool
  | .o => flags.overflow
  | .no => !flags.overflow
  | .b => flags.carry
  | .ae => !flags.carry
  | .e => flags.zero
  | .ne => !flags.zero
  | .be => flags.carry || flags.zero
  | .a => !(flags.carry || flags.zero)
  | .s => flags.sign
  | .ns => !flags.sign
  | .p => flags.parity
  | .np => !flags.parity
  | .l => flags.sign != flags.overflow
  | .ge => flags.sign == flags.overflow
  | .le => flags.zero || flags.sign != flags.overflow
  | .g => !(flags.zero || flags.sign != flags.overflow)

/-- The loops: by the count alone, or by the zero flag too. -/
inductive LoopKind where
  | loop
  | loope
  | loopne
  deriving DecidableEq, Repr

/-- The name of a loop. -/
def LoopKind.mnemonic : LoopKind → List Char
  | .loop => "loop".toList
  | .loope => "loope".toList
  | .loopne => "loopne".toList

/-- Whether the zero flag lets a loop go on. -/
def LoopKind.goesOn (flags : StatusFlags) : LoopKind → Bool
  | .loop => true
  | .loope => flags.zero
  | .loopne => !flags.zero

/-- The returns: of near calls, of far calls, and of interrupts. -/
inductive ReturnKind where
  | near
  | far
  | interrupt
  deriving DecidableEq, Repr

/-- How many items a return takes from the stack. -/
def ReturnKind.items : ReturnKind → Nat
  | .near => 1
  | .far => 2
  | .interrupt => 3

/--
An instruction of 16-bit code, interrupts apart.

Direct targets are offsets in the code segment. The counter of `loop` and `jcxz` and the offsets of
indirect jumps, calls and returns have 32 bits if `wide` says so.
-/
inductive Insn16 where
  | ordinary
  | jcc (cond : JumpCond) (target : BitVec 16)
  | loop (kind : LoopKind) (wide : Bool) (target : BitVec 16)
  | jcxz (wide : Bool) (target : BitVec 16)
  | near (isCall : Bool) (target : BitVec 16)
  | nearIndirect (isCall wide : Bool) (operand : NearOperand)
  | far (isCall : Bool) (selector target : BitVec 16)
  | farIndirect (isCall wide : Bool) (place : MemOperand)
  | ret (kind : ReturnKind) (wide : Bool)
  deriving DecidableEq, Repr

section Processor

variable (state : DebugSharedState) (memory : ByteMemory) (regs : UserRegsStruct)

/-- The linear address of an offset in the segment of a selector. -/
def linearOf (selector offset : BitVec 16) : BitVec 32 :=
  state.base selector + offset.setWidth 32

/-- Reading words in a segment; what crosses its end or is not mapped is a fault. -/
def readSegment (selector offset : BitVec 16) : Nat → Option (List (BitVec 16))
  | 0 => some []
  | words + 1 =>
    if offset = 0xFFFF then none
    else
      match memory (linearOf state selector offset), memory (linearOf state selector offset + 1) with
      | some low, some high =>
        if words ≠ 0 ∧ offset = 0xFFFE then none
        else (readSegment selector (offset + 2) words).map fun rest =>
          (high.toBitVec ++ low.toBitVec) :: rest
      | _, _ => none

/-- The offset of an operand in memory; one behind the segment is a fault. -/
def MemOperand.offset (place : MemOperand) : Option (BitVec 16) :=
  let base := (place.base.map regs.general).getD 0
  let index := (place.index.map regs.general).getD 0 <<< place.scale.val
  let sum := base + index + place.disp
  if place.wide ∧ 0xFFFF < sum then none else some (sum.setWidth 16)

/-- The words of an operand in memory. -/
def MemOperand.read (place : MemOperand) (words : Nat) : Option (List (BitVec 16)) :=
  match place.offset regs with
  | none => none
  | some offset => readSegment state memory (regs.selector place.segment) offset words

/-- The offset at the front of words and the words behind; one behind the segment is a fault. -/
def takeOffset : Bool → List (BitVec 16) → Option (BitVec 16 × List (BitVec 16))
  | false, offset :: rest => some (offset, rest)
  | true, offset :: high :: rest => if high = 0 then some (offset, rest) else none
  | _, _ => none

/-- How many words offsets and what goes with them take. -/
def wordsOf (wide : Bool) (items : Nat) : Nat := if wide then 2 * items else items

/-- The offset that the operand of a near jump or call holds. -/
def NearOperand.read (wide : Bool) : NearOperand → Option (BitVec 16)
  | .reg register =>
    if wide ∧ 0xFFFF < regs.general register then none
    else some ((regs.general register).setWidth 16)
  | .mem place =>
    match place.read state memory regs (wordsOf wide 1) with
    | none => none
    | some words => (takeOffset wide words).map Prod.fst

/-- The selector and the offset that the operand of a far jump or call holds. -/
def MemOperand.readFar (wide : Bool) (place : MemOperand) : Option (BitVec 16 × BitVec 16) :=
  match place.read state memory regs (wordsOf wide 1 + 1) with
  | none => none
  | some words =>
    match takeOffset wide words with
    | some (offset, selector :: _) => some (selector, offset)
    | _ => none

/-- The selector of the code. -/
def codeSelector : BitVec 16 := regs.xcs.setWidth 16

/-- The linear address of the instruction that is executed. -/
def currentLinear : BitVec 32 := linearOf state (codeSelector regs) (regs.eip.setWidth 16)

/-- The linear address behind an instruction of some size. -/
def following (size : Nat) : BitVec 32 := currentLinear state regs + BitVec.ofNat 32 size

/-- Whether the counter of an instruction is some number. -/
def counterIs (wide : Bool) (count : Nat) : Bool :=
  if wide then regs.ecx = BitVec.ofNat 32 count else regs.ecx.setWidth 16 = BitVec.ofNat 16 count

/-- The selector and the offset that a return takes from the stack. -/
def popReturn (kind : ReturnKind) (wide : Bool) : Option (BitVec 16 × BitVec 16) :=
  match readSegment state memory (regs.xss.setWidth 16) (regs.esp.setWidth 16)
    (wordsOf wide kind.items) with
  | none => none
  | some words =>
    match kind, takeOffset wide words with
    | .near, some (offset, _) => some (codeSelector regs, offset)
    | _, some (offset, selector :: _) => some (selector, offset)
    | _, _ => none

/-- Where the processor goes on after an instruction; nothing if the instruction faults. -/
def x86Next (insn : Insn16) (size : Nat) : Option (BitVec 32) :=
  let here := linearOf state (codeSelector regs)
  let behind := following state regs size
  match insn with
  | .ordinary => some behind
  | .jcc cond target =>
    some (if cond.holds (statusFlags regs.eflags) then here target else behind)
  | .loop kind wide target =>
    -- The counter is decremented first, and one is the last count.
    some (if counterIs regs wide 1 = false ∧ kind.goesOn (statusFlags regs.eflags) then here target
      else behind)
  | .jcxz wide target => some (if counterIs regs wide 0 then here target else behind)
  | .near _ target => some (here target)
  | .nearIndirect _ wide operand => (operand.read state memory regs wide).map here
  | .far _ selector target => some (linearOf state selector target)
  | .farIndirect _ wide place =>
    (place.readFar state memory regs wide).map fun address => linearOf state address.1 address.2
  | .ret kind wide =>
    (popReturn state memory regs kind wide).map fun address => linearOf state address.1 address.2

/-- An ordinary instruction has a name that tells it from calls, jumps and returns. -/
structure OrdinaryName (mnemonic : List Char) : Prop where
  noCall : ¬ "call".toList <:+: mnemonic
  noJump : ¬ "jmp".toList <:+: mnemonic
  noReturn : ¬ "ret".toList <:+: mnemonic
  noCondition : mnemonic.head? ≠ some 'j'

/-- A return has a name that says so. -/
structure ReturnName (mnemonic : List Char) : Prop where
  noCall : ¬ "call".toList <:+: mnemonic
  noJump : ¬ "jmp".toList <:+: mnemonic
  noCondition : mnemonic.head? ≠ some 'j'
  isReturn : "ret".toList <:+: mnemonic

/--
How an instruction is printed: direct targets as numbers, those of near jumps as linear addresses,
and operands in memory with their size or without a comma.
-/
def PrintedAs (mnemonic opStr : List Char) : Insn16 → Prop
  | .ordinary => OrdinaryName mnemonic
  | .jcc cond target =>
    mnemonic = cond.mnemonic ∧
      HexNumeral (linearOf state (codeSelector regs) target).toNat opStr
  | .loop kind _ target =>
    mnemonic = kind.mnemonic ∧
      HexNumeral (linearOf state (codeSelector regs) target).toNat opStr
  | .jcxz wide target =>
    mnemonic = (if wide then "jecxz".toList else "jcxz".toList) ∧
      HexNumeral (linearOf state (codeSelector regs) target).toNat opStr
  | .near isCall target =>
    mnemonic = (if isCall then "call".toList else "jmp".toList) ∧
      HexNumeral (linearOf state (codeSelector regs) target).toNat opStr
  | .nearIndirect isCall wide operand =>
    mnemonic = (if isCall then "call".toList else "jmp".toList) ∧
      match operand with
      | .reg register => opStr = if wide then 'e' :: register.name else register.name
      | .mem _ => ∃ place, opStr = (if wide then 'd' :: "word ptr ".toList else "word ptr ".toList) ++
          place
  | .far isCall selector target =>
    mnemonic = (if isCall then "lcall".toList else "ljmp".toList) ∧
      ∃ front gap back, opStr = front ++ ',' :: (gap ++ back) ∧ (∀ c ∈ gap, isSpace c) ∧
        HexNumeral selector.toNat front ∧ HexNumeral target.toNat back
  | .farIndirect isCall _ _ =>
    mnemonic = (if isCall then "lcall".toList else "ljmp".toList) ∧ ',' ∉ opStr
  | .ret _ _ => ReturnName mnemonic

end Processor

end TwoIne
