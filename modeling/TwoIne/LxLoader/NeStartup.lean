import TwoIne.LxLoader.EntryTable
import TwoIne.LxLoader.Ldt

/-! The stack and the registers that an NE module is started with. -/

namespace TwoIne

/-- The fields of the header of an NE module that say how it is started, too. -/
structure NeStartHeader extends NeHeader where
  module_flags : BitVec 16
  auto_data_segment : BitVec 16
  stack_size : BitVec 16
  reg_sp : BitVec 16
  reg_ss : BitVec 16
  deriving DecidableEq, Repr

/-- A module is a library by its flags. -/
def NeStartHeader.isDLL (ne : NeStartHeader) : Bool := ne.module_flags &&& 0x8000 = 0x8000

/-- The size of a segment in its table; the first one has the index zero. -/
def readSegmentSize (exe : List UInt8) (ne : NeHeader) (i : Nat) :
    Except TableFault (BitVec 16) := do
  let size ← readNumber 2 (exe.drop (ne.segment_table_offset.toNat + 8 * i + 2))
  return BitVec.ofNat 16 size.1

/--
The stack that the loader sets up: the stack segment and pointer of the program, where the stack
ends in the segment, and its size.
-/
structure NeStack where
  ss : Nat
  sp : BitVec 16
  topofstack : BitVec 16
  stacksize : BitVec 16
  deriving DecidableEq, Repr

/-- Where the stack ends: behind the automatic data segment if the header names no place. -/
def neStackTop (ne : NeStartHeader) (size : BitVec 16) : BitVec 16 :=
  if ne.reg_ss = ne.auto_data_segment ∧ ne.reg_sp = 0 then size + ne.stack_size else ne.reg_sp

/-- The size of the stack that ends somewhere; what is below it may be the data segment. -/
def neStackSize (ne : NeStartHeader) (size sp : BitVec 16) : BitVec 16 :=
  if ne.stack_size ≠ 0 then ne.stack_size
  else if sp ≠ 0 ∧ ne.reg_ss = ne.auto_data_segment then sp - size
  else sp

/-- Setting up the stack, with the size of the automatic data segment if there is one. -/
def neStack (ne : NeStartHeader) (autodataseg : Option (BitVec 16)) (selector : Nat) :
    Option NeStack :=
  if ne.reg_ss = ne.auto_data_segment ∧ ne.reg_sp = 0 ∧ autodataseg = none then none
  else
    let size := autodataseg.getD 0
    let sp := neStackTop ne size
    some ⟨lxSelectorToSegment selector, if sp ≠ 0 then sp else 0xFFFF, sp, neStackSize ne size sp⟩

/--
How a module is started: the index of the entry that is taken for the automatic data segment, the
size in it, and the stack of a program.
-/
structure NeStart where
  autodataindex : Option Nat
  autodatasize : BitVec 16
  stack : Option NeStack
  deriving DecidableEq, Repr

/--
Setting up how a module is started, after its segments were mapped to selectors; without an answer
it is not loaded.
-/
def loadNeStart (exe : List UInt8) (ne : NeStartHeader) (aliases : List Nat) :
    Except TableFault (Option NeStart) :=
  if ne.reg_ss = 0 ∨ ne.num_segment_table_entries < ne.reg_ss then return none
  else do
    -- The pointer to the table is moved by the number of the segment, which counts from one.
    let autodataindex :=
      if ne.auto_data_segment ≠ 0 then some ne.auto_data_segment.toNat else none
    let autodataseg ←
      match autodataindex with
      | none => pure none
      | some i => (readSegmentSize exe ne.toNeHeader i).map some
    let _segments ← loadNeSegments exe ne.toNeHeader
    let autodatasize := autodataseg.getD 0
    if ne.isDLL then return some ⟨autodataindex, autodatasize, none⟩
    else
      match aliases[ne.reg_ss.toNat - 1]? with
      | none => .error .outside
      | some selector =>
        return (neStack ne autodataseg selector).map fun stack =>
          ⟨autodataindex, autodatasize, some stack⟩

/-- The registers that a program is started with, and the bottom of its stack. -/
structure NeRegisters where
  ss : Nat
  sp : BitVec 16
  ds : Nat
  cx : BitVec 16
  bottom : BitVec 16
  deriving DecidableEq, Repr

/-- Starting a program; six words are pushed in front of it. -/
def runNeModule (ne : NeStartHeader) (aliases : List Nat) (autodatasize : BitVec 16)
    (stack : NeStack) : Except TableFault NeRegisters :=
  let sp := stack.sp - 12
  let bottom := stack.sp - stack.stacksize
  if ne.auto_data_segment ≠ 0 then
    match aliases[ne.auto_data_segment.toNat - 1]? with
    | none => .error .outside
    | some selector =>
      return ⟨stack.ss, sp, lxSelectorToSegment selector, autodatasize, bottom⟩
  else return ⟨stack.ss, sp, stack.ss, autodatasize, bottom⟩

end TwoIne
