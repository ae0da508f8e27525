import Mathlib.Data.Vector.Basic
import Mathlib.Logic.Function.Basic
import TwoIne.Lib.WordMemory

/-! A fault on the page of the thread-local slots, and the moves that are carried out for it. -/

namespace TwoIne

/-- The registers that the system hands to a handler of signals. -/
inductive Greg where
  | gs
  | fs
  | es
  | ds
  | edi
  | esi
  | ebp
  | esp
  | ebx
  | edx
  | ecx
  | eax
  | trapno
  | err
  | eip
  | cs
  | efl
  | uesp
  | ss
  deriving DecidableEq, Repr

/-- A thread at a fault: its registers, its own slots, and the bytes of the code that it runs. -/
structure FaultedThread where
  gregs : Greg → BitVec 32
  /-- The slots behind the thread's second information block, which its `fs` leads to. -/
  tls : Vector (BitVec 32) 32
  code : BitVec 32 → UInt8

/-- What becomes of a faulted thread. -/
inductive FaultOutcome where
  /-- The context that is handed to `setcontext`, for the thread to go on in. -/
  | setcontext (t : FaultedThread)
  | abort
  /-- The slots or the table of registers were used outside of their elements. -/
  | outside

/-- A value in a register. -/
def FaultedThread.setGreg (t : FaultedThread) (reg : Greg) (value : BitVec 32) : FaultedThread :=
  { t with gregs := Function.update t.gregs reg value }

/-- Going on some bytes behind the instruction that faulted. -/
def FaultedThread.skip (t : FaultedThread) (length : BitVec 32) : FaultedThread :=
  t.setGreg .eip (t.gregs .eip + length)

/-- The value of a slot. -/
def FaultedThread.slotValue (t : FaultedThread) (slot : Int) : Option (BitVec 32) :=
  if 0 ≤ slot then t.tls[slot.toNat]? else none

/-- A value in a slot. -/
def FaultedThread.setSlot (t : FaultedThread) (slot : Int) (value : BitVec 32) :
    Option FaultedThread :=
  if inside : 0 ≤ slot ∧ slot.toNat < 32 then some { t with tls := t.tls.set slot.toNat value }
  else none

/-- The registers by number. -/
def x86RegisterToUContextEnum : List Greg := [.eax, .ecx, .edx, .ebx, .esp, .ebp, .esi, .edi]

/-- The register that the byte behind the opcode selects. -/
def FaultedThread.secondByteReg (t : FaultedThread) : Option Greg :=
  x86RegisterToUContextEnum[(t.code (t.gregs .eip + 1) >>> 3).toNat]?

/-- The thread as a move left it, unless something was used outside of its elements. -/
def goOn : Option FaultedThread → FaultOutcome
  | some t => .setcontext t
  | none => .outside

/-- Carrying out the move that faulted on a slot. -/
def handleThreadLocalStorageAccess (slot : Int) (t : FaultedThread) : FaultOutcome :=
  let eip := t.gregs .eip
  match t.code eip with
  -- mov imm16/32 -> r/m
  | 0xC7 =>
    goOn do
      let stored ← t.setSlot slot (WordMemory.wordOf fun i => t.code (eip + 2 + BitVec.ofNat 32 i))
      pure (stored.skip 6)
  -- mov r -> r/m
  | 0x89 =>
    goOn do
      let reg ← t.secondByteReg
      let stored ← t.setSlot slot (t.gregs reg)
      pure (stored.skip 2)
  -- mov r/m -> r
  | 0x8B =>
    goOn do
      let reg ← t.secondByteReg
      let value ← t.slotValue slot
      pure ((t.setGreg reg value).skip 2)
  | _ => .abort

/-- What is done about a fault at an address. -/
def segfaultCatcher (tlspage addr : BitVec 32) (t : FaultedThread) : FaultOutcome :=
  if tlspage ≠ 0 ∧ tlspage ≤ addr then
    -- A difference of pointers to words is signed.
    let slot := (addr - tlspage).toInt / 4
    if slot < 32 then handleThreadLocalStorageAccess slot t else .abort
  else .abort

end TwoIne
