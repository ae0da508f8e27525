import TwoIne.Lib.WordMemory

/-!
The moves between a 32-bit register or number and an operand in memory, as 32-bit code encodes
them: opcode, ModRM byte, SIB byte, displacement, number.
-/

namespace ModRm

open WordMemory

/-- The upper two bits: how an operand is addressed, or the scale of an index. -/
def modField (byte : UInt8) : BitVec 2 := byte.toBitVec.extractLsb' 6 2

/-- The middle three bits: a register. -/
def regField (byte : UInt8) : BitVec 3 := byte.toBitVec.extractLsb' 3 3

/-- The lower three bits: the register that addresses the operand. -/
def rmField (byte : UInt8) : BitVec 3 := byte.toBitVec.extractLsb' 0 3

/-- An operand in memory, and how many bytes it is encoded in. -/
structure Operand where
  base : Option (BitVec 3)
  index : Option (BitVec 3)
  scale : BitVec 2
  displacement : BitVec 32
  size : Nat
  deriving DecidableEq, Repr

/-- Where an operand is. -/
def Operand.address (o : Operand) (registers : BitVec 3 → BitVec 32) : BitVec 32 :=
  (o.base.map registers).getD 0 + ((o.index.map registers).getD 0 <<< o.scale.toNat) +
    o.displacement

/-- A displacement and its bytes; `absolute` says that it stands in place of a base. -/
def displacementAt (mode : BitVec 2) (absolute : Bool) (bytes : Nat → UInt8) : BitVec 32 × Nat :=
  if mode = 1 then ((bytes 0).toBitVec.signExtend 32, 1)
  else if mode = 2 ∨ absolute then (wordOf bytes, 4)
  else (0, 0)

/-- The operand that a ModRM byte begins, unless it is a register. -/
def operandAt (bytes : Nat → UInt8) : Option Operand :=
  let mode := modField (bytes 0)
  let rm := rmField (bytes 0)
  if mode = 3 then none
  else if rm = 4 then
    -- A SIB byte: no index by the number of the stack pointer, no base by that of the frame.
    let sib := bytes 1
    let absolute : Bool := mode = 0 ∧ rmField sib = 5
    let displacement := displacementAt mode absolute fun i => bytes (2 + i)
    some {
      base := if absolute then none else some (rmField sib)
      index := if regField sib = 4 then none else some (regField sib)
      scale := modField sib
      displacement := displacement.1
      size := 2 + displacement.2 }
  else
    let absolute : Bool := mode = 0 ∧ rm = 5
    let displacement := displacementAt mode absolute fun i => bytes (1 + i)
    some {
      base := if absolute then none else some rm
      index := none
      scale := 0
      displacement := displacement.1
      size := 1 + displacement.2 }

/-- What is moved to or from an operand. -/
inductive Move where
  /-- A number into the operand. -/
  | immediate (value : BitVec 32)
  /-- A register into the operand. -/
  | store (register : BitVec 3)
  /-- The operand into a register. -/
  | load (register : BitVec 3)
  deriving DecidableEq, Repr

/-- A move, its operand, and how many bytes it is long. -/
structure MoveInsn where
  move : Move
  operand : Operand
  length : Nat
  deriving DecidableEq, Repr

/-- The move that is encoded without a byte before its opcode, if it is one. -/
def moveAt (bytes : Nat → UInt8) : Option MoveInsn :=
  match operandAt fun i => bytes (1 + i) with
  | none => none
  | some operand =>
    let reg := regField (bytes 1)
    -- The number of 0xC7 stands behind the displacement; its register bits select the move.
    if bytes 0 = 0xC7 ∧ reg = 0 then
      some ⟨.immediate (wordOf fun i => bytes (1 + operand.size + i)), operand, 5 + operand.size⟩
    else if bytes 0 = 0x89 then some ⟨.store reg, operand, 1 + operand.size⟩
    else if bytes 0 = 0x8B then some ⟨.load reg, operand, 1 + operand.size⟩
    else none

/-- A ModRM byte whose operand is where a register points: nothing belongs to it behind it. -/
def AtRegister (modRm : UInt8) : Prop :=
  modField modRm = 0 ∧ rmField modRm ≠ 4 ∧ rmField modRm ≠ 5

instance (modRm : UInt8) : Decidable (AtRegister modRm) := by
  unfold AtRegister
  infer_instance

section Operands

variable {bytes : Nat → UInt8} {operand : Operand} {byte : UInt8}

/-- The upper five bits are those of the mode and of the register. -/
theorem shifted_fields (byte : UInt8) :
    (byte >>> 3).toNat = 8 * (modField byte).toNat + (regField byte).toNat := by
  -- Both fields are digits of the byte, read as numbers.
  have below : byte.toNat < 256 := byte.toNat_lt
  have shifted : (byte >>> 3).toNat = byte.toNat / 8 := by
    simp [UInt8.toNat_shiftRight, Nat.shiftRight_eq_div_pow]
  have mode : (modField byte).toNat = byte.toNat / 64 % 4 := by
    simp [modField, BitVec.extractLsb'_toNat, Nat.shiftRight_eq_div_pow]
  have register : (regField byte).toNat = byte.toNat / 8 % 8 := by
    simp [regField, BitVec.extractLsb'_toNat, Nat.shiftRight_eq_div_pow]
  rw [shifted, mode, register]
  omega

/-- No displacement is longer than four bytes. -/
theorem displacementAt_le (mode : BitVec 2) (absolute : Bool) (bytes : Nat → UInt8) :
    (displacementAt mode absolute bytes).2 ≤ 4 := by
  -- A displacement is missing, or one byte, or a word.
  unfold displacementAt
  split
  · simp
  · split <;> simp

/-- There is no displacement only behind mode zero, with a base. -/
theorem displacementAt_eq_zero_iff (mode : BitVec 2) (absolute : Bool) (bytes : Nat → UInt8)
    (memory : mode ≠ 3) :
    (displacementAt mode absolute bytes).2 = 0 ↔ mode = 0 ∧ absolute = false := by
  -- The modes other than zero have a displacement each, of one or of four bytes.
  have modes : ∀ mode : BitVec 2, mode ≠ 3 → mode = 0 ∨ mode = 1 ∨ mode = 2 := by decide
  obtain rfl | rfl | rfl := modes mode memory <;> cases absolute <;> simp [displacementAt]

/-- An operand in memory is encoded with a SIB byte or without one, and with its displacement. -/
theorem operandAt_cases (decoded : operandAt bytes = some operand) :
    modField (bytes 0) ≠ 3 ∧
      ((rmField (bytes 0) = 4 ∧ ∃ absolute rest,
          operand.size = 2 + (displacementAt (modField (bytes 0)) absolute rest).2) ∨
        (rmField (bytes 0) ≠ 4 ∧ ∃ rest, operand.size = 1 + (displacementAt (modField (bytes 0))
          (modField (bytes 0) = 0 ∧ rmField (bytes 0) = 5) rest).2)) := by
  -- The decoder branches on the mode first, and then on whether a SIB byte follows.
  simp only [operandAt] at decoded
  by_cases register : modField (bytes 0) = 3
  · rw [if_pos register] at decoded
    contradiction
  · refine ⟨register, ?_⟩
    rw [if_neg register] at decoded
    by_cases sib : rmField (bytes 0) = 4
    · rw [if_pos sib, Option.some.injEq] at decoded
      exact .inl ⟨sib, _, _, by rw [← decoded]⟩
    · rw [if_neg sib, Option.some.injEq] at decoded
      exact .inr ⟨sib, _, by rw [← decoded]⟩

/-- An operand in memory takes one to six bytes. -/
theorem operandAt_size (decoded : operandAt bytes = some operand) :
    1 ≤ operand.size ∧ operand.size ≤ 6 := by
  -- One byte or two in front of a displacement of at most four.
  have short := displacementAt_le (modField (bytes 0))
  obtain ⟨_, ⟨_, absolute, rest, size⟩ | ⟨_, rest, size⟩⟩ := operandAt_cases decoded
  · have := short absolute rest
    omega
  · have := short (modField (bytes 0) = 0 ∧ rmField (bytes 0) = 5) rest
    omega

/-- An operand takes one byte exactly when it is where a register points. -/
theorem operandAt_size_eq_one_iff (decoded : operandAt bytes = some operand) :
    operand.size = 1 ↔ AtRegister (bytes 0) := by
  obtain ⟨memory, ⟨sib, absolute, rest, size⟩ | ⟨noSib, rest, size⟩⟩ := operandAt_cases decoded
  -- The SIB byte is a second one.
  · have other : ¬ AtRegister (bytes 0) := fun plain => plain.2.1 sib
    simp only [other, iff_false]
    omega
  -- Otherwise the operand ends with its displacement, if it has one.
  · have none_iff := displacementAt_eq_zero_iff (modField (bytes 0))
      (modField (bytes 0) = 0 ∧ rmField (bytes 0) = 5) rest memory
    calc operand.size = 1
        ↔ (displacementAt (modField (bytes 0))
            (modField (bytes 0) = 0 ∧ rmField (bytes 0) = 5) rest).2 = 0 := by omega
      _ ↔ AtRegister (bytes 0) := by
        rw [none_iff]
        unfold AtRegister
        simp only [decide_eq_false_iff_not]
        constructor
        · intro ⟨mode, notAbsolute⟩
          exact ⟨mode, noSib, fun five => notAbsolute ⟨mode, five⟩⟩
        · intro ⟨mode, _, notFive⟩
          exact ⟨mode, fun absolute => notFive absolute.2⟩

/-- A move is one of three, each with its own length. -/
theorem moveAt_cases {insn : MoveInsn} (decoded : moveAt bytes = some insn) :
    operandAt (fun i => bytes (1 + i)) = some insn.operand ∧
      ((bytes 0 = 0xC7 ∧ insn.length = 5 + insn.operand.size ∧
          insn.move = .immediate (wordOf fun i => bytes (1 + insn.operand.size + i))) ∨
        (bytes 0 = 0x89 ∧ insn.length = 1 + insn.operand.size ∧
          insn.move = .store (regField (bytes 1))) ∨
        (bytes 0 = 0x8B ∧ insn.length = 1 + insn.operand.size ∧
          insn.move = .load (regField (bytes 1)))) := by
  unfold moveAt at decoded
  cases memory : operandAt fun i => bytes (1 + i) with
  | none =>
    rw [memory] at decoded
    contradiction
  | some operand =>
    simp only [memory] at decoded
    -- One branch for each opcode, in the order of the decoder.
    split_ifs at decoded with immediate store load <;> obtain rfl := Option.some.inj decoded
    · exact ⟨rfl, .inl ⟨immediate.1, rfl, rfl⟩⟩
    · exact ⟨rfl, .inr (.inl ⟨store, rfl, rfl⟩)⟩
    · exact ⟨rfl, .inr (.inr ⟨load, rfl, rfl⟩)⟩

end Operands

end ModRm
