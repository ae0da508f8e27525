import TwoIne.Proofs.Debugger.ControlTransfers
import TwoIne.Proofs.Debugger.DebuggeeMemory

/-!
A single step stops where the processor goes on, but for loops, indirect jumps and calls, and near
returns: those are taken for other instructions.
-/

namespace TwoIne

open Numerals WordMemory

/-- A selector of the LDT whose segment of 64K is within the address space. -/
structure AllocatedSelector (state : DebugSharedState) (selector : BitVec 16) : Prop where
  localTable : selector &&& 0x4 ≠ 0
  used : state.base selector ≠ 0
  inside : (state.base selector).toNat + 0xFFFF < 2 ^ 32

section Steps

variable {state : DebugSharedState} {memory : ByteMemory} {regs : UserRegsStruct}
  {apiState : Option (List ApiEntry)} {selector target offset : BitVec 16} {addr : BitVec 32}
  {instr : DisasmInstruction} {size : Nat} {text mnemonic opStr : List Char}

/-- No address in an allocated segment is zero. -/
theorem AllocatedSelector.linear_ne (allocated : AllocatedSelector state selector)
    (offset : BitVec 16) : linearOf state selector offset ≠ 0 := by
  have used := allocated.used
  have inside := allocated.inside
  have short := offset.isLt
  unfold linearOf
  bv_omega

/-- The debugger converts a code address like the processor does. -/
theorem linearAddress_eq (state : DebugSharedState) (selector offset : BitVec 16) :
    linearAddressFromSelectors (some state) selector offset = linearOf state selector offset :=
  linearAddressFromSelectors_eq state selector offset

/-- The low half of a register is all of it that is used. -/
theorem low_half (value : BitVec 32) : (value &&& 0xFFFF).setWidth 16 = value.setWidth 16 := by
  have mask : ∀ i < 16, (0xFFFF : BitVec 32).getLsbD i = true := by decide
  apply BitVec.eq_of_getLsbD_eq
  intro i inside
  rw [BitVec.getLsbD_setWidth, BitVec.getLsbD_setWidth, BitVec.getLsbD_and, mask i inside,
    Bool.and_true]

/-- A register without its high half is the low half, extended. -/
theorem low_half_extended (value : BitVec 32) :
    value &&& 0xFFFF = (value.setWidth 16).setWidth 32 := by
  have mask : ∀ i < 32, (0xFFFF : BitVec 32).getLsbD i = decide (i < 16) := by decide
  apply BitVec.eq_of_getLsbD_eq
  intro i inside
  rw [BitVec.getLsbD_and, mask i inside, BitVec.getLsbD_setWidth, BitVec.getLsbD_setWidth,
    decide_eq_true inside, Bool.true_and, Bool.and_comm]

/-! Reading the debuggee -/

/-- What is read byte by byte is what is there. -/
theorem ptraceReadMemory_some {bytes : List UInt8} {len : Nat}
    (read : ptraceReadMemory memory addr len = some bytes) :
    bytes.length = len ∧ HoldsAt memory addr bytes := by
  induction len generalizing addr bytes with
  | zero =>
    cases read
    exact ⟨rfl, fun k none_there => absurd none_there (Nat.not_lt_zero k)⟩
  | succ len ih =>
    rw [ptraceReadMemory] at read
    cases peeked : peekWord memory (addr &&& ~~~3) with
    | none =>
      rw [peeked] at read
      cases read
    | some word =>
      rw [peeked] at read
      dsimp only at read
      obtain ⟨rest, later, rfl⟩ := Option.map_eq_some_iff.mp read
      obtain ⟨length, holds⟩ := ih later
      refine ⟨by rw [List.length_cons, length], fun k inside => ?_⟩
      have small : (addr &&& 3).toNat < 4 := (wordOffset addr).isLt
      cases k with
      | zero =>
        -- The first byte is the one of its word.
        have there := peekWord_byte peeked small
        have place := wordAddr_add_offset addr
        unfold wordAddr at place
        rw [place] at there
        rw [BitVec.add_zero, there, ← shifted_byte word small]
        rfl
      | succ k =>
        rw [List.length_cons] at inside
        have there := holds k (by omega)
        rw [List.getElem?_cons_succ, ← there, Nat.add_comm, BitVec.ofNat_add,
          ← BitVec.add_assoc]
        rfl

/-- Bytes that are all mapped are read. -/
theorem ptraceReadMemory_four (whole : WholeWords memory) {byte0 byte1 byte2 byte3 : UInt8}
    (first : memory addr = some byte0) (second : memory (addr + 1) = some byte1)
    (third : memory (addr + 2) = some byte2) (fourth : memory (addr + 3) = some byte3) :
    ptraceReadMemory memory addr 4 = some [byte0, byte1, byte2, byte3] := by
  have holds : HoldsAt memory addr [byte0, byte1, byte2, byte3] := by
    intro k inside
    match k, inside with
    | 0, _ => rw [BitVec.add_zero, first]; rfl
    | 1, _ => exact second
    | 2, _ => exact third
    | 3, _ => exact fourth
  have mapped : RangeMapped memory addr [byte0, byte1, byte2, byte3].length :=
    whole.range fun k inside => by
      rw [holds k inside, List.getElem?_eq_getElem inside]
      rfl
  exact ptraceReadMemory_eq mapped holds

/-! Where the code looks for the target -/

/-- A far address in an allocated segment is taken. -/
theorem farTarget_eq (allocated : AllocatedSelector state selector) (target : BitVec 16) :
    farTarget (some state) true (selector, target) = some (linearOf state selector target) := by
  unfold farTarget
  rw [if_pos ⟨rfl, rfl⟩]
  dsimp only
  rw [linearAddress_eq, if_pos (allocated.linear_ne target)]

/-- The word behind the first one at an address. -/
def wordBehind (memory : ByteMemory) (addr : BitVec 32) : Option (BitVec 16) :=
  match memory (addr + 2), memory (addr + 3) with
  | some low, some high => some (high.toBitVec ++ low.toBitVec)
  | _, _ => none

/-- The linear address of the top of the stack. -/
def stackLinear (state : DebugSharedState) (regs : UserRegsStruct) : BitVec 32 :=
  linearOf state (regs.xss.setWidth 16) (regs.esp.setWidth 16)

/-- A return is taken for one to the segment that is on the stack behind the offset. -/
theorem nextOfReturn_eq (whole : WholeWords memory) {low high : UInt8}
    (first : memory (stackLinear state regs) = some low)
    (second : memory (stackLinear state regs + 1) = some high) :
    nextOfReturn (some state) memory regs true =
      match wordBehind memory (stackLinear state regs) with
      | none => none
      | some selector =>
        if linearOf state selector (high.toBitVec ++ low.toBitVec) ≠ 0 then
          some (linearOf state selector (high.toBitVec ++ low.toBitVec))
        else none := by
  have place : linearAddressFromSelectors (some state) (regs.xss.setWidth 16) 0 +
      ((regs.esp &&& 0xFFFF).setWidth 16).setWidth 32 = stackLinear state regs := by
    rw [linearAddress_eq, low_half]
    unfold stackLinear linearOf
    have none_added : (0 : BitVec 16).setWidth 32 = 0 := rfl
    rw [none_added, show state.base (regs.xss.setWidth 16) + 0 = state.base (regs.xss.setWidth 16)
      from BitVec.add_zero _]
  unfold nextOfReturn
  rw [if_pos ⟨rfl, rfl⟩]
  dsimp only
  rw [place]
  unfold wordBehind
  cases third : memory (stackLinear state regs + 2) with
  | none =>
    -- Without the third byte the four cannot be read.
    cases read : ptraceReadMemory memory (stackLinear state regs) 4 with
    | none => rfl
    | some bytes =>
      obtain ⟨length, holds⟩ := ptraceReadMemory_some read
      have there : memory (stackLinear state regs + 2) = bytes[2]? := holds 2 (by omega)
      rw [third, List.getElem?_eq_getElem (by omega)] at there
      cases there
  | some low' =>
    cases fourth : memory (stackLinear state regs + 3) with
    | none =>
      cases read : ptraceReadMemory memory (stackLinear state regs) 4 with
      | none => rfl
      | some bytes =>
        obtain ⟨length, holds⟩ := ptraceReadMemory_some read
        have there : memory (stackLinear state regs + 3) = bytes[3]? := holds 3 (by omega)
        rw [fourth, List.getElem?_eq_getElem (by omega)] at there
        cases there
    | some high' =>
      rw [ptraceReadMemory_four whole first second third fourth]
      dsimp only
      rw [linearAddress_eq]

/-- An operand that is printed as a number is taken for the target. -/
theorem strtoul_target (numeral : HexNumeral addr.toNat opStr) {base : Nat}
    (based : base = 16 ∨ base = 0) : strtoul opStr base = (addr, []) := by
  have read : strtoul (opStr ++ []) base = (BitVec.ofNat 32 addr.toNat, []) :=
    strtoul_numeral numeral addr.isLt rfl based
  rw [List.append_nil, BitVec.ofNat_toNat, BitVec.setWidth_eq] at read
  exact read

/-- The name of a near call or jump is that of its target. -/
theorem nearApiName_target (numeral : HexNumeral addr.toNat opStr) :
    nearApiName apiState opStr = resolveOs2Api apiState addr := by
  unfold nearApiName
  rw [strtoul_target numeral (.inl rfl), strtoul_target numeral (.inr rfl)]
  have first : (if ([] : List Char) = [] ∨ ([] : List Char).head? = some 'h' then
      resolveOs2Api apiState addr else none) = resolveOs2Api apiState addr := if_pos (.inl rfl)
  dsimp only
  rw [first]
  -- A second lookup is for the same address.
  split
  · exact ite_self _
  · rfl

/-- A near call or jump to a target without a name goes there. -/
theorem nextOfNear_target (numeral : HexNumeral addr.toNat instr.opStr) :
    nextOfNear instr false = if instr.apiName.isSome then none else some addr := by
  unfold nextOfNear
  by_cases named : instr.apiName.isSome
  · rw [if_pos ⟨named, rfl⟩, if_pos named]
  · rw [if_neg fun both => named both.1, if_neg named, strtoul_target numeral (.inl rfl)]
    exact if_pos (.inl rfl)

/-- The operand of an indirect jump or call is no number, and it does not look like one. -/
structure NoNumber (opStr : List Char) : Prop where
  rest : (strtoul opStr 16).2 ≠ []
  mark : (strtoul opStr 16).2.head? ≠ some 'h'
  start : opStr.head? ≠ some '0'

/-- The name of a register is no number, although it may begin with a digit. -/
theorem noNumber_register (register : GeneralReg) (wide : Bool) :
    NoNumber (if wide then 'e' :: register.name else register.name) := by
  cases wide with
  | false => cases register <;> exact ⟨by decide, by decide, by decide⟩
  | true => cases register <;> exact ⟨by decide, by decide, by decide⟩

/-- A place in memory is no number, although the name of its size may begin with a digit. -/
theorem noNumber_place (place : List Char) (wide : Bool) :
    NoNumber ((if wide then 'd' :: "word ptr ".toList else "word ptr ".toList) ++ place) := by
  cases wide with
  | false =>
    have read : strtoul ("word ptr ".toList ++ place) 16 = (0, "word ptr ".toList ++ place) := rfl
    refine ⟨read ▸ List.cons_ne_nil _ _, read ▸ fun same => ?_, fun same => ?_⟩
    · exact absurd (Option.some.inj same) (by decide)
    · exact absurd (Option.some.inj same) (by decide)
  | true =>
    -- The first letter is read as a digit, and what is left is no end of a number.
    have read : strtoul ('d' :: "word ptr ".toList ++ place) 16 =
      (0xD, "word ptr ".toList ++ place) := rfl
    refine ⟨read ▸ List.cons_ne_nil _ _, read ▸ fun same => ?_, fun same => ?_⟩
    · exact absurd (Option.some.inj same) (by decide)
    · exact absurd (Option.some.inj same) (by decide)

/-- What is no number is stepped over. -/
theorem nextOfNear_noNumber (text : NoNumber instr.opStr) : nextOfNear instr false = none := by
  unfold nextOfNear
  split
  · rfl
  · dsimp only
    rw [if_neg fun either => either.elim text.rest text.mark, if_neg fun both => text.start both.1]

/-- What is no call and no jump without a condition is told by its first letters or its last. -/
theorem nextElsewhere_other (noCall : ¬ "call".toList <:+: instr.mnemonic)
    (noJump : ¬ "jmp".toList <:+: instr.mnemonic) :
    nextElsewhere (some state) memory regs true true false instr =
      if instr.mnemonic.head? = some 'j' ∧ instr.mnemonic.tail.head? ≠ some 'm' then
        let jumpTarget := (strtoul instr.opStr 0).1
        if jumpTaken instr.mnemonic regs ∧ jumpTarget ≠ 0 then some jumpTarget else none
      else if strstr instr.mnemonic "ret".toList then nextOfReturn (some state) memory regs true
      else none := by
  have call : "call".toList <:+: "lcall".toList := by decide
  have jump : "jmp".toList <:+: "ljmp".toList := by decide
  unfold nextElsewhere
  -- The names of the far calls and jumps hold those of the near ones.
  have noFarCall : ¬ strstr instr.mnemonic "lcall".toList = true := fun far =>
    noCall (call.trans (of_decide_eq_true far))
  have noFarJump : ¬ strstr instr.mnemonic "ljmp".toList = true := fun far =>
    noJump (jump.trans (of_decide_eq_true far))
  have noNear : ¬ (strstr instr.mnemonic "jmp".toList = true ∨
      strstr instr.mnemonic "call".toList = true) := fun near =>
    near.elim (fun jmp => noJump (of_decide_eq_true jmp)) fun call =>
      noCall (of_decide_eq_true call)
  rw [if_neg noFarCall, if_neg noFarJump, if_neg noNear]

/-- An ordinary instruction leads to the one behind it. -/
theorem nextElsewhere_ordinary (name : OrdinaryName instr.mnemonic) :
    nextElsewhere (some state) memory regs true true false instr = none := by
  rw [nextElsewhere_other name.noCall name.noJump, if_neg fun both => name.noCondition both.1]
  exact if_neg fun ret => name.noReturn (of_decide_eq_true ret)

/-- The name of a jump that depends on a condition. -/
structure ConditionName (mnemonic : List Char) : Prop where
  noCall : ¬ "call".toList <:+: mnemonic
  noJump : ¬ "jmp".toList <:+: mnemonic
  first : mnemonic.head? = some 'j'
  second : mnemonic.tail.head? ≠ some 'm'

/-- All conditional jumps have such names. -/
theorem JumpCond.conditionName (cond : JumpCond) : ConditionName cond.mnemonic := by
  cases cond <;> exact ⟨by decide, by decide, by decide, by decide⟩

/-- A conditional jump leads to its target if it is taken. -/
theorem nextElsewhere_condition (name : ConditionName instr.mnemonic)
    (numeral : HexNumeral addr.toNat instr.opStr) (nonzero : addr ≠ 0) :
    nextElsewhere (some state) memory regs true true false instr =
      if jumpTaken instr.mnemonic regs then some addr else none := by
  rw [nextElsewhere_other name.noCall name.noJump, if_pos ⟨name.first, name.second⟩, strtoul_target numeral (.inr rfl)]
  by_cases taken : jumpTaken instr.mnemonic regs
  · rw [if_pos taken]
    exact if_pos ⟨taken, nonzero⟩
  · rw [if_neg taken]
    exact if_neg fun both => taken both.1

/-- The flags decide on a conditional jump as they do in the processor. -/
theorem jumpTaken_holds (cond : JumpCond) (regs : UserRegsStruct) :
    jumpTaken cond.mnemonic regs = cond.holds (statusFlags regs.eflags) := by
  cases cond with
  | a => exact (Bool.not_or _ _).symm
  | g =>
    have same : ∀ zero sign overflow : Bool,
        (!zero && sign == overflow) = !(zero || sign != overflow) := by decide
    exact same _ _ _
  | _ => rfl

/-- A near jump or call is taken for one to a number. -/
theorem nextElsewhere_near {isCall : Bool}
    (name : instr.mnemonic = if isCall then "call".toList else "jmp".toList) :
    nextElsewhere (some state) memory regs true true false instr = nextOfNear instr false := by
  unfold nextElsewhere strstr
  rw [name]
  cases isCall with
  | false => rw [if_neg (by decide), if_neg (by decide), if_pos (by decide)]
  | true => rw [if_neg (by decide), if_neg (by decide), if_pos (by decide)]

/-- A far jump, or a far call that is none to OS/2, leads to the target that is printed. -/
theorem nextElsewhere_far {isCall : Bool}
    (name : instr.mnemonic = if isCall then "lcall".toList else "ljmp".toList)
    (scanned : scanHexPair instr.opStr = some (selector, target))
    (allocated : AllocatedSelector state selector)
    (noApi : isCall = true → ¬ (selector = 0xFFFF ∨ selector = 0xFFEF)) :
    nextElsewhere (some state) memory regs true true false instr =
      some (linearOf state selector target) := by
  unfold nextElsewhere strstr
  rw [name]
  cases isCall with
  | false =>
    rw [if_neg (by decide), if_pos (by decide), scanned]
    exact farTarget_eq allocated target
  | true =>
    rw [if_pos (by decide)]
    unfold nextOfFarCall
    rw [scanned]
    dsimp only
    rw [if_pos (.inr ⟨noApi rfl, rfl⟩)]
    exact farTarget_eq allocated target

/-- A far jump or call whose target is not printed is stepped over. -/
theorem nextElsewhere_farIndirect {isCall : Bool}
    (name : instr.mnemonic = if isCall then "lcall".toList else "ljmp".toList)
    (scanned : scanHexPair instr.opStr = none) :
    nextElsewhere (some state) memory regs true true false instr = none := by
  unfold nextElsewhere strstr
  rw [name]
  cases isCall with
  | false => rw [if_neg (by decide), if_pos (by decide), scanned]
  | true =>
    rw [if_pos (by decide)]
    unfold nextOfFarCall
    rw [scanned]

/-- All returns are taken for the same. -/
theorem nextElsewhere_ret (name : ReturnName instr.mnemonic) :
    nextElsewhere (some state) memory regs true true false instr =
      nextOfReturn (some state) memory regs true := by
  rw [nextElsewhere_other name.noCall name.noJump, if_neg fun both => name.noCondition both.1]
  exact if_pos (decide_eq_true name.isReturn)

/-- The jumps on the counter have names like conditional jumps. -/
theorem counterName (wide : Bool) :
    ConditionName (if wide then "jecxz".toList else "jcxz".toList) := by
  cases wide <;> exact ⟨by decide, by decide, by decide, by decide⟩

/-- A jump on the counter is decided by the low half of it, whatever its size. -/
theorem jumpTaken_counter (wide : Bool) (regs : UserRegsStruct) :
    jumpTaken (if wide then "jecxz".toList else "jcxz".toList) regs =
      decide (regs.ecx.setWidth 16 = 0) := by
  have half : regs.ecx &&& 0xFFFF = 0 ↔ regs.ecx.setWidth 16 = 0 := by
    constructor
    · intro none_there
      rw [← low_half, none_there]
      rfl
    · intro none_there
      rw [low_half_extended, none_there]
      rfl
  have named : jumpTaken (if wide then "jecxz".toList else "jcxz".toList) regs =
      decide (regs.ecx &&& 0xFFFF = 0) := by cases wide <;> rfl
  rw [named]
  exact decide_eq_decide.mpr half

/-! What returns take from the stack -/

/-- The first word that is read is the one at the offset, and the next one is behind it. -/
theorem readSegment_first {words : Nat} {found : List (BitVec 16)}
    (read : readSegment state memory selector offset (words + 1) = some found) :
    ∃ low high rest, memory (linearOf state selector offset) = some low ∧
      memory (linearOf state selector offset + 1) = some high ∧
      found = (high.toBitVec ++ low.toBitVec) :: rest ∧
      readSegment state memory selector (offset + 2) words = some rest ∧
      (words ≠ 0 → linearOf state selector (offset + 2) = linearOf state selector offset + 2) := by
  rw [readSegment] at read
  split at read
  · cases read
  · rename_i inside
    split at read
    · rename_i low high first second
      split at read
      · cases read
      · rename_i within
        obtain ⟨rest, later, rfl⟩ := Option.map_eq_some_iff.mp read
        refine ⟨low, high, rest, first, second, rfl, later, fun more => ?_⟩
        -- A word that fits behind the first one is not back at the start of the segment.
        have fits : offset ≠ 0xFFFE := fun last => within ⟨more, last⟩
        unfold linearOf
        bv_omega
    · cases read

/-- The words that are read are the first one and the one behind it. -/
theorem readSegment_second {words : Nat} {found : List (BitVec 16)}
    (read : readSegment state memory selector offset (words + 2) = some found) :
    ∃ first second rest, found = first :: second :: rest ∧
      wordBehind memory (linearOf state selector offset) = some second := by
  obtain ⟨low, high, rest, -, -, rfl, later, place⟩ := readSegment_first read
  obtain ⟨low', high', rest', third, fourth, rfl, -, -⟩ := readSegment_first later
  rw [place (Nat.succ_ne_zero _)] at third fourth
  have last : memory (linearOf state selector offset + 3) = some high' := by
    rw [← fourth, BitVec.add_assoc]
    rfl
  refine ⟨_, _, rest', rfl, ?_⟩
  unfold wordBehind
  rw [third, last]

/-- The offset that is taken is the first word. -/
theorem takeOffset_first {wide : Bool} {word taken : BitVec 16} {words rest : List (BitVec 16)}
    (holds : takeOffset wide (word :: words) = some (taken, rest)) : taken = word := by
  unfold takeOffset at holds
  split at holds
  · rename_i same
    cases same
    cases holds
    rfl
  · rename_i same
    cases same
    split at holds
    · cases holds
      rfl
    · cases holds
  · cases holds

/-- The offset of a return is the word on top of the stack. -/
theorem popReturn_first {kind : ReturnKind} {wide : Bool}
    (popped : popReturn state memory regs kind wide = some (selector, target)) :
    ∃ low high, memory (stackLinear state regs) = some low ∧
      memory (stackLinear state regs + 1) = some high ∧
      target = high.toBitVec ++ low.toBitVec := by
  have count : ∃ words, wordsOf wide kind.items = words + 1 := by
    cases wide <;> cases kind <;> exact ⟨_, rfl⟩
  obtain ⟨words, counted⟩ := count
  unfold popReturn at popped
  rw [counted] at popped
  cases read : readSegment state memory (regs.xss.setWidth 16) (regs.esp.setWidth 16)
      (words + 1) with
  | none =>
    rw [read] at popped
    cases popped
  | some found =>
    rw [read] at popped
    obtain ⟨low, high, rest, first, second, rfl, -, -⟩ := readSegment_first read
    refine ⟨low, high, first, second, ?_⟩
    dsimp only at popped
    split at popped
    · rename_i taken
      cases popped
      exact takeOffset_first taken
    · rename_i taken
      cases popped
      exact takeOffset_first taken
    · cases popped

/-- The selector of a return from a far call is the word behind the offset. -/
theorem popReturn_selector {kind : ReturnKind} (far : kind ≠ .near)
    (popped : popReturn state memory regs kind false = some (selector, target)) :
    wordBehind memory (stackLinear state regs) = some selector := by
  have count : ∃ words, wordsOf false kind.items = words + 2 := by
    cases kind with
    | near => exact absurd rfl far
    | far => exact ⟨0, rfl⟩
    | interrupt => exact ⟨1, rfl⟩
  obtain ⟨words, counted⟩ := count
  unfold popReturn at popped
  rw [counted] at popped
  cases read : readSegment state memory (regs.xss.setWidth 16) (regs.esp.setWidth 16)
      (words + 2) with
  | none =>
    rw [read] at popped
    cases popped
  | some found =>
    rw [read] at popped
    obtain ⟨first, second, rest, rfl, behind⟩ := readSegment_second read
    have taken : selector = second := by
      cases kind with
      | near => exact absurd rfl far
      | far =>
        cases popped
        rfl
      | interrupt =>
        cases popped
        rfl
    rw [taken]
    exact behind

end Steps

end TwoIne
