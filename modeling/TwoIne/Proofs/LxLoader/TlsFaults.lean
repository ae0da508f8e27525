import TwoIne.Lib.ModRm
import TwoIne.LxLoader.TlsFaults

/-! Which moves between a slot and a register or a number are carried out as the processor would. -/

namespace TwoIne

open ModRm

/-- The register that a number in an instruction stands for. -/
def registerOf : BitVec 3 → Greg
  | 0 => .eax
  | 1 => .ecx
  | 2 => .edx
  | 3 => .ebx
  | 4 => .esp
  | 5 => .ebp
  | 6 => .esi
  | _ => .edi

/-- A value in one of the thread's slots. -/
def FaultedThread.withSlot (t : FaultedThread) (slot : Fin 32) (value : BitVec 32) :
    FaultedThread :=
  { t with tls := t.tls.set slot.val value slot.isLt }

/-- The thread once the processor has moved to or from a slot, and stands behind the move. -/
def FaultedThread.moved (t : FaultedThread) (insn : MoveInsn) (slot : Fin 32) : FaultedThread :=
  let after := match insn.move with
    | .immediate value => t.withSlot slot value
    | .store register => t.withSlot slot (t.gregs (registerOf register))
    | .load register => t.setGreg (registerOf register) (t.tls.get slot)
  after.skip (BitVec.ofNat 32 insn.length)

/-- The bytes of the instruction that a thread faulted at. -/
def FaultedThread.bytes (t : FaultedThread) (i : Nat) : UInt8 :=
  t.code (t.gregs .eip + BitVec.ofNat 32 i)

/-- A thread that faulted at a move, on a slot of the page, whatever the operand names. -/
structure TlsFault where
  thread : FaultedThread
  insn : MoveInsn
  /-- Any encoding of a move whose operand is in memory. -/
  decoded : moveAt thread.bytes = some insn
  tlspage : BitVec 32
  mapped : tlspage ≠ 0
  addr : BitVec 32
  /-- The fault is on one of the 32 slots. -/
  behind : tlspage.toNat ≤ addr.toNat
  inside : addr.toNat < tlspage.toNat + 4 * 32

/-- The slot that the fault is on. -/
def TlsFault.slot (f : TlsFault) : Fin 32 :=
  ⟨(f.addr.toNat - f.tlspage.toNat) / 4, by
    have inside := f.inside
    omega⟩

/-- The move is carried out as the processor would: value, registers, length. -/
def TlsFault.Right (f : TlsFault) : Prop :=
  segfaultCatcher f.tlspage f.addr f.thread = .setcontext (f.thread.moved f.insn f.slot)

/-- The operand is where a register points, with no byte behind the ModRM byte. -/
def TlsFault.Plain (f : TlsFault) : Prop := AtRegister (f.thread.bytes 1)

instance (f : TlsFault) : Decidable f.Plain := inferInstanceAs (Decidable (AtRegister _))

/-- The address that the operand names. -/
def TlsFault.operandAddress (f : TlsFault) : BitVec 32 :=
  f.insn.operand.address fun register => f.thread.gregs (registerOf register)

/-- A thread at code of its own, with a pointer in `ecx`. -/
def threadAt (code : List UInt8) (pointer : BitVec 32) : FaultedThread where
  gregs reg := if reg = .eip then 0x10000 else if reg = .ecx then pointer else 0
  tls := .replicate 32 7
  code place := code.getD (place - 0x10000).toNat 0

section Moves

variable {t : FaultedThread} {insn : MoveInsn} {slot : Fin 32}

/-- The table has the registers in the order of their numbers. -/
theorem table_registerOf (register : BitVec 3) :
    x86RegisterToUContextEnum[register.toNat]? = some (registerOf register) := by
  have all : ∀ register : BitVec 3,
      x86RegisterToUContextEnum[register.toNat]? = some (registerOf register) := by decide
  exact all register

/-- Behind mode zero the second byte selects the register that the instruction names. -/
theorem secondByteReg_named (mode : modField (t.bytes 1) = 0) :
    t.secondByteReg = some (registerOf (regField (t.bytes 1))) := by
  -- The bits of the mode are part of the index, and they are zero.
  unfold FaultedThread.secondByteReg
  show x86RegisterToUContextEnum[(t.bytes 1 >>> 3).toNat]? = _
  rw [shifted_fields, mode]
  simpa using table_registerOf (regField (t.bytes 1))

/-- Behind every other mode it selects nothing: the index is past the table. -/
theorem secondByteReg_outside (mode : modField (t.bytes 1) ≠ 0) : t.secondByteReg = none := by
  -- A mode other than zero adds at least eight to the number of the register.
  unfold FaultedThread.secondByteReg
  show x86RegisterToUContextEnum[(t.bytes 1 >>> 3).toNat]? = _
  have positive : (modField (t.bytes 1)).toNat ≠ 0 := fun zero =>
    mode (BitVec.eq_of_toNat_eq zero)
  rw [shifted_fields]
  apply List.getElem?_eq_none
  show 8 ≤ _
  omega

/-- A slot of the page is one of the thread's own. -/
theorem setSlot_slot (value : BitVec 32) :
    t.setSlot slot.val value = some (t.withSlot slot value) := by
  simp [FaultedThread.setSlot, FaultedThread.withSlot]

/-- Its value is the thread's own. -/
theorem slotValue_slot : t.slotValue slot.val = some (t.tls.get slot) := by
  rw [FaultedThread.slotValue, if_pos (Int.natCast_nonneg _)]
  exact Vector.getElem?_eq_getElem slot.isLt

/-- Going on behind the wrong number of bytes is going on somewhere else. -/
theorem skip_length {s : FaultedThread} {m n : Nat} (same : s.gregs .eip = t.gregs .eip)
    (skipped : s.skip (BitVec.ofNat 32 m) = t.skip (BitVec.ofNat 32 n)) (m_lt : m < 2 ^ 32)
    (n_lt : n < 2 ^ 32) : m = n := by
  -- Both stand at the same place first, so that the numbers agree as words.
  have places := congrArg (fun thread => thread.gregs .eip) skipped
  simp only [FaultedThread.skip, FaultedThread.setGreg, Function.update_self, same,
    BitVec.add_right_inj] at places
  have numbers := congrArg BitVec.toNat places
  simp only [BitVec.toNat_ofNat] at numbers
  rwa [Nat.mod_eq_of_lt m_lt, Nat.mod_eq_of_lt n_lt] at numbers

/-- The first byte is the opcode. -/
theorem bytes_zero : t.code (t.gregs .eip) = t.bytes 0 := by
  simp [FaultedThread.bytes]

/-- A number is stored as it stands behind the second byte. -/
theorem handle_immediate (opcode : t.bytes 0 = 0xC7) :
    handleThreadLocalStorageAccess slot.val t = .setcontext
      ((t.withSlot slot (WordMemory.wordOf fun i => t.bytes (2 + i))).skip (BitVec.ofNat 32 6)) := by
  -- The four bytes that are read begin behind the second one.
  have value : (WordMemory.wordOf fun i => t.code (t.gregs .eip + 2 + BitVec.ofNat 32 i)) =
      WordMemory.wordOf fun i => t.bytes (2 + i) := by
    congr 1
    funext i
    simp only [FaultedThread.bytes, BitVec.ofNat_add, BitVec.add_assoc]
    rfl
  simp only [handleThreadLocalStorageAccess, bytes_zero, opcode, value, setSlot_slot]
  rfl

/-- A register is stored, if the second byte selects one. -/
theorem handle_store (opcode : t.bytes 0 = 0x89) :
    handleThreadLocalStorageAccess slot.val t = goOn (t.secondByteReg.map fun reg =>
      (t.withSlot slot (t.gregs reg)).skip (BitVec.ofNat 32 2)) := by
  simp only [handleThreadLocalStorageAccess, bytes_zero, opcode, setSlot_slot]
  cases t.secondByteReg <;> rfl

/-- A register is loaded, if the second byte selects one. -/
theorem handle_load (opcode : t.bytes 0 = 0x8B) :
    handleThreadLocalStorageAccess slot.val t = goOn (t.secondByteReg.map fun reg =>
      (t.setGreg reg (t.tls.get slot)).skip (BitVec.ofNat 32 2)) := by
  simp only [handleThreadLocalStorageAccess, bytes_zero, opcode, slotValue_slot]
  cases t.secondByteReg <;> rfl

/-- Moving a register is right exactly when its operand is where a register points. -/
theorem register_move_iff (after : Greg → FaultedThread) {operand : Operand}
    (memory : operandAt (fun i => t.bytes (1 + i)) = some operand) :
    goOn (t.secondByteReg.map fun reg => (after reg).skip (BitVec.ofNat 32 2)) =
        .setcontext ((after (registerOf (regField (t.bytes 1)))).skip
          (BitVec.ofNat 32 (1 + operand.size))) ↔ AtRegister (t.bytes 1) := by
  have sizes := operandAt_size memory
  have plain_iff := operandAt_size_eq_one_iff memory
  by_cases mode : modField (t.bytes 1) = 0
  -- The right register is moved; what is left is the length.
  · rw [secondByteReg_named mode]
    constructor
    · intro right
      have lengths : 2 = 1 + operand.size :=
        skip_length rfl (FaultOutcome.setcontext.inj right) (by decide) (by omega)
      exact plain_iff.mp (by omega)
    · intro plain
      rw [plain_iff.mpr plain]
      rfl
  -- No register is found in the table.
  · rw [secondByteReg_outside mode]
    constructor
    · intro right
      contradiction
    · intro plain
      exact absurd plain.1 mode

/-- A slot is moved to or from right exactly when the operand is where a register points. -/
theorem handle_right_iff (decoded : moveAt t.bytes = some insn) :
    handleThreadLocalStorageAccess slot.val t = .setcontext (t.moved insn slot) ↔
      AtRegister (t.bytes 1) := by
  obtain ⟨memory, ⟨opcode, length, move⟩ | ⟨opcode, length, move⟩ | ⟨opcode, length, move⟩⟩ :=
    moveAt_cases decoded
  -- A number: its place and the length are those of an operand of one byte.
  · have sizes := operandAt_size memory
    have plain_iff := operandAt_size_eq_one_iff memory
    rw [handle_immediate opcode, FaultedThread.moved, move, length]
    constructor
    · intro right
      have lengths : 6 = 5 + insn.operand.size := by
        refine skip_length ?_ (FaultOutcome.setcontext.inj right) (by decide) (by omega)
        rfl
      exact plain_iff.mp (by omega)
    · intro plain
      rw [plain_iff.mpr plain]
  · rw [handle_store opcode, FaultedThread.moved, move, length]
    exact register_move_iff (fun reg => t.withSlot slot (t.gregs reg)) memory
  · rw [handle_load opcode, FaultedThread.moved, move, length]
    exact register_move_iff (fun reg => t.setGreg reg (t.tls.get slot)) memory

end Moves

/-- A fault on the page is handled as one on its slot. -/
theorem TlsFault.caught (f : TlsFault) :
    segfaultCatcher f.tlspage f.addr f.thread =
      handleThreadLocalStorageAccess f.slot.val f.thread := by
  have behind := f.behind
  have inside := f.inside
  have above : f.tlspage ≤ f.addr := BitVec.le_def.mpr behind
  -- The difference is small, so that it is not taken for a negative one.
  have difference : (f.addr - f.tlspage).toNat = f.addr.toNat - f.tlspage.toNat :=
    BitVec.toNat_sub_of_le above
  have slot_eq : (f.addr - f.tlspage).toInt / 4 = (f.slot.val : Int) := by
    rw [BitVec.toInt_eq_toNat_of_lt (by omega), difference]
    rfl
  have slot_lt : (f.slot.val : Int) < 32 := by
    have := f.slot.isLt
    omega
  unfold segfaultCatcher
  rw [if_pos ⟨f.mapped, above⟩]
  simp only [slot_eq, if_pos slot_lt]

/--
A fault on a slot is made up for as the processor would have moved exactly when the operand is
where a register points, with neither a displacement nor a SIB byte.
-/
theorem tls_access_right_iff (f : TlsFault) : f.Right ↔ f.Plain := by
  unfold TlsFault.Right TlsFault.Plain
  rw [f.caught]
  exact handle_right_iff f.decoded

/-- A load through `ecx`, from the third slot. -/
def loadThroughEcx : TlsFault where
  thread := threadAt [0x8B, 0x01] 0x40001008
  insn := ⟨.load 0, ⟨some 1, none, 0, 0, 1⟩, 2⟩
  decoded := by decide
  tlspage := 0x40001000
  mapped := by decide
  addr := 0x40001008
  behind := by decide
  inside := by decide

/-- What a register points to is loaded. -/
theorem register_operand_right :
    loadThroughEcx.operandAddress = loadThroughEcx.addr ∧ loadThroughEcx.Right :=
  ⟨by decide, (tls_access_right_iff loadThroughEcx).mpr (by decide)⟩

/-- A load into `ecx` from the address of the first slot. -/
def loadFromAddress : TlsFault where
  thread := threadAt [0x8B, 0x0D, 0x00, 0x10, 0x00, 0x40] 0
  insn := ⟨.load 1, ⟨none, none, 0, 0x40001000, 5⟩, 6⟩
  decoded := by decide
  tlspage := 0x40001000
  mapped := by decide
  addr := 0x40001000
  behind := by decide
  inside := by decide

/-- Behind a load from an address the thread goes on at the bytes of that address. -/
theorem address_operand_wrong :
    loadFromAddress.operandAddress = loadFromAddress.addr ∧ ¬ loadFromAddress.Right := by
  -- The operand is five bytes long, where the handler goes on behind the first of them.
  constructor
  · decide
  · unfold TlsFault.Right
    rw [loadFromAddress.caught, handle_right_iff loadFromAddress.decoded]
    decide

end TwoIne
