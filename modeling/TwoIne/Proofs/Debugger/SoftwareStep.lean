import TwoIne.Proofs.Debugger.NextIp

/-!
A single step stops where the processor goes on, but for loops, indirect jumps and calls, and near
returns: those are taken for other instructions.
-/

namespace TwoIne

open Numerals WordMemory

section Steps

variable (capstone : Capstone) (apiState : Option (List ApiEntry)) (state : DebugSharedState)
  (memory : ByteMemory) (regs : UserRegsStruct)

/-- The calls that a step goes over: to names of OS/2, or through its gates. -/
def IsApiCall : Insn16 → Prop
  | .near true target =>
    resolveOs2Api apiState (linearOf state (codeSelector regs) target) ≠ none
  | .nearIndirect true wide operand =>
    ∃ target, operand.read state memory regs wide = some target ∧
      resolveOs2Api apiState (linearOf state (codeSelector regs) target) ≠ none
  | .far true selector _ => selector = 0xFFFF ∨ selector = 0xFFEF
  | .farIndirect true wide place =>
    ∃ selector target, place.readFar state memory regs wide = some (selector, target) ∧
      (selector = 0xFFFF ∨ selector = 0xFFEF)
  | _ => False

/-- The segment that is left for, if there is one, is allocated. -/
def TargetAllocated : Insn16 → Prop
  | .far _ selector _ => AllocatedSelector state selector
  | .ret kind wide =>
    ∀ selector target, popReturn state memory regs kind wide = some (selector, target) →
      AllocatedSelector state selector
  | _ => True

/--
A step from an instruction: the disassembler tells of it what it is, the segments are allocated, and
it is no call to OS/2.
-/
structure StepCase (insn : Insn16) (size : Nat) : Prop where
  whole : WholeWords memory
  code : AllocatedSelector state (codeSelector regs)
  target : TargetAllocated state memory regs insn
  printed : ∀ bytes, ptraceReadMemory memory (currentLinear state regs) 16 = some bytes →
    ∃ text, capstone true bytes (currentLinear state regs) = some text ∧ text.size = size ∧
      PrintedAs state regs text.mnemonic text.opStr insn
  noApi : ¬ IsApiCall apiState state memory regs insn

/-- The word on the stack behind the offset of a return leads to where the return goes. -/
def ReturnFound (size : Nat) (selector target : BitVec 16) : Prop :=
  match wordBehind memory (stackLinear state regs) with
  | none => linearOf state selector target = following state regs size
  | some segment =>
    state.base segment = state.base selector ∨
      linearOf state segment target = 0 ∧
        linearOf state selector target = following state regs size

/-- What must hold for each kind of instruction so that a step stops behind it. -/
def KindPredicted (size : Nat) : Insn16 → Prop
  | .ordinary => True
  | .jcc _ _ => True
  | .loop kind wide target =>
    counterIs regs wide 1 = false → kind.goesOn (statusFlags regs.eflags) = true →
      linearOf state (codeSelector regs) target = following state regs size
  | .jcxz wide target =>
    wide = true → regs.ecx.setWidth 16 = 0 → regs.ecx ≠ 0 →
      linearOf state (codeSelector regs) target = following state regs size
  | .near isCall target =>
    isCall = false →
      resolveOs2Api apiState (linearOf state (codeSelector regs) target) ≠ none →
      linearOf state (codeSelector regs) target = following state regs size
  | .nearIndirect _ wide operand =>
    ∀ target, operand.read state memory regs wide = some target →
      linearOf state (codeSelector regs) target = following state regs size
  | .far _ _ _ => True
  | .farIndirect _ wide place =>
    ∀ selector target, place.readFar state memory regs wide = some (selector, target) →
      linearOf state selector target = following state regs size
  | .ret .far false => True
  | .ret .interrupt false => True
  | .ret kind wide =>
    ∀ selector target, popReturn state memory regs kind wide = some (selector, target) →
      ReturnFound state memory regs size selector target

/-- A step is predicted by the kind of the instruction, or by luck if it cannot be read. -/
def StepPredicted (insn : Insn16) (size : Nat) : Prop :=
  if ptraceReadMemory memory (currentLinear state regs) 16 = none then
    ∀ next, x86Next state memory regs insn size = some next →
      next = currentLinear state regs + 1
  else KindPredicted apiState state memory regs size insn

end Steps

section Kinds

/-- An address is the one where the processor goes on, if the instruction does not fault. -/
def RightAfter (state : DebugSharedState) (memory : ByteMemory) (regs : UserRegsStruct)
    (insn : Insn16) (size : Nat) (found : BitVec 32) : Prop :=
  ∀ next, x86Next state memory regs insn size = some next → found = next

/-- The address that a step stops at, for an instruction of some size. -/
def stepOf (state : DebugSharedState) (memory : ByteMemory) (regs : UserRegsStruct)
    (instr : DisasmInstruction) (size : Nat) : BitVec 32 :=
  (nextElsewhere (some state) memory regs true true false instr).getD (following state regs size)

variable {capstone : Capstone} {apiState : Option (List ApiEntry)} {state : DebugSharedState}
  {memory : ByteMemory} {regs : UserRegsStruct} {insn : Insn16} {size : Nat}
  {instr : DisasmInstruction}

/-- A step looks at the instruction that the processor is at. -/
theorem softwareStepTarget_eq (code : AllocatedSelector state (codeSelector regs)) :
    softwareStepTarget capstone apiState (some state) memory regs false =
      match ptraceReadMemory memory (currentLinear state regs) 16 with
      | none => currentLinear state regs + 1
      | some bytes =>
        let instr := disasmInstruction capstone apiState bytes (currentLinear state regs) true
        stepOf state memory regs instr instr.size := by
  have place : linearAddressFromSelectors (some state) (regs.xcs.setWidth 16)
      ((regs.eip &&& 0xFFFF).setWidth 16) = currentLinear state regs := by
    rw [linearAddress_eq, low_half]
    rfl
  have linear : (if (!false) = true ∧ (some state).isSome = true then
      linearAddressFromSelectors (some state) (regs.xcs.setWidth 16)
        ((regs.eip &&& 0xFFFF).setWidth 16) else regs.eip) = currentLinear state regs :=
    (if_pos ⟨rfl, rfl⟩).trans place
  have used : currentLinear state regs ≠ 0 := code.linear_ne _
  unfold softwareStepTarget calculateNextIP
  dsimp only
  rw [linear, if_neg used]
  rfl

/-- A step is right for an instruction that does not fault if it stops at the one address. -/
theorem right_some {found next : BitVec 32}
    (goes : x86Next state memory regs insn size = some next) :
    RightAfter state memory regs insn size found ↔ found = next := by
  unfold RightAfter
  rw [goes]
  exact ⟨fun right => right next rfl, fun same _ there => same.trans (Option.some.inj there)⟩

/-- A step is right for an instruction that may fault if it stops where one without faults goes. -/
theorem right_map {α : Type} {found : BitVec 32} {read : Option α} {place : α → BitVec 32}
    (goes : x86Next state memory regs insn size = read.map place) :
    RightAfter state memory regs insn size found ↔ ∀ a, read = some a → found = place a := by
  unfold RightAfter
  rw [goes]
  constructor
  · intro right a there
    exact right _ (by rw [there]; rfl)
  · intro right address there
    obtain ⟨a, holds, rfl⟩ := Option.map_eq_some_iff.mp there
    exact right a holds

/-- A step from an ordinary instruction is right. -/
theorem right_ordinary (name : OrdinaryName instr.mnemonic) :
    RightAfter state memory regs .ordinary size (stepOf state memory regs instr size) := by
  refine (right_some rfl).mpr ?_
  unfold stepOf
  rw [nextElsewhere_ordinary name]
  rfl

/-- A step from a conditional jump is right. -/
theorem right_jcc (code : AllocatedSelector state (codeSelector regs)) {cond : JumpCond}
    {target : BitVec 16} (name : instr.mnemonic = cond.mnemonic)
    (numeral : HexNumeral (linearOf state (codeSelector regs) target).toNat instr.opStr) :
    RightAfter state memory regs (.jcc cond target) size (stepOf state memory regs instr size) := by
  refine (right_some rfl).mpr ?_
  unfold stepOf
  rw [nextElsewhere_condition (name ▸ cond.conditionName) numeral (code.linear_ne target), name,
    jumpTaken_holds]
  split
  · rfl
  · rfl

/-- A loop is not among the jumps that the code knows. -/
theorem LoopKind.ordinaryName (kind : LoopKind) : OrdinaryName kind.mnemonic := by
  cases kind <;> exact ⟨by decide, by decide, by decide, by decide⟩

/-- A step from a loop is right if it is not taken, or taken to the instruction behind it. -/
theorem right_loop_iff {kind : LoopKind} {wide : Bool} {target : BitVec 16}
    (name : instr.mnemonic = kind.mnemonic) :
    RightAfter state memory regs (.loop kind wide target) size
        (stepOf state memory regs instr size) ↔
      KindPredicted apiState state memory regs size (.loop kind wide target) := by
  refine (right_some rfl).trans ?_
  unfold stepOf
  rw [nextElsewhere_ordinary (name ▸ kind.ordinaryName)]
  show following state regs size = _ ↔ _
  by_cases taken : counterIs regs wide 1 = false ∧ kind.goesOn (statusFlags regs.eflags) = true
  · rw [if_pos taken]
    exact ⟨fun same _ _ => same.symm, fun same => (same taken.1 taken.2).symm⟩
  · rw [if_neg taken]
    exact iff_of_true rfl fun count goes => absurd ⟨count, goes⟩ taken

/-- A step from a jump on the counter is right if the low half of the counter tells. -/
theorem right_jcxz_iff (code : AllocatedSelector state (codeSelector regs)) {wide : Bool}
    {target : BitVec 16}
    (name : instr.mnemonic = if wide then "jecxz".toList else "jcxz".toList)
    (numeral : HexNumeral (linearOf state (codeSelector regs) target).toNat instr.opStr) :
    RightAfter state memory regs (.jcxz wide target) size (stepOf state memory regs instr size) ↔
      KindPredicted apiState state memory regs size (.jcxz wide target) := by
  refine (right_some rfl).trans ?_
  unfold stepOf
  rw [nextElsewhere_condition (name ▸ counterName wide) numeral (code.linear_ne target), name,
    jumpTaken_counter]
  have narrow : counterIs regs false 0 = decide (regs.ecx.setWidth 16 = 0) := rfl
  have whole : counterIs regs true 0 = decide (regs.ecx = 0) := rfl
  by_cases half : regs.ecx.setWidth 16 = 0
  · rw [if_pos (decide_eq_true half), Option.getD_some]
    cases wide with
    | false =>
      -- The low half is the whole counter.
      rw [narrow, if_pos (decide_eq_true half)]
      exact iff_of_true rfl fun wide => absurd wide Bool.false_ne_true
    | true =>
      rw [whole]
      by_cases none_there : regs.ecx = 0
      · rw [if_pos (decide_eq_true none_there)]
        exact iff_of_true rfl fun _ _ some_there => absurd none_there some_there
      · rw [if_neg fun zero => none_there (of_decide_eq_true zero)]
        exact ⟨fun same _ _ _ => same, fun same => same rfl half none_there⟩
  · -- A counter with a low half is not zero.
    have some_there : regs.ecx ≠ 0 := fun zero => half (by rw [zero]; rfl)
    rw [if_neg fun zero => half (of_decide_eq_true zero), Option.getD_none]
    cases wide with
    | false =>
      rw [narrow, if_neg fun zero => half (of_decide_eq_true zero)]
      exact iff_of_true rfl fun wide => absurd wide Bool.false_ne_true
    | true =>
      rw [whole, if_neg fun zero => some_there (of_decide_eq_true zero)]
      exact iff_of_true rfl fun _ zero => absurd zero half

/-- A step from a direct jump is right unless it is taken for a call; one from a call is right. -/
theorem right_near_iff {isCall : Bool} {target : BitVec 16}
    (name : instr.mnemonic = if isCall then "call".toList else "jmp".toList)
    (numeral : HexNumeral (linearOf state (codeSelector regs) target).toNat instr.opStr)
    (named : instr.apiName =
      resolveOs2Api apiState (linearOf state (codeSelector regs) target))
    (noApi : ¬ IsApiCall apiState state memory regs (.near isCall target)) :
    RightAfter state memory regs (.near isCall target) size
        (stepOf state memory regs instr size) ↔
      KindPredicted apiState state memory regs size (.near isCall target) := by
  refine (right_some rfl).trans ?_
  unfold stepOf
  rw [nextElsewhere_near name, nextOfNear_target numeral, named]
  by_cases api : resolveOs2Api apiState (linearOf state (codeSelector regs) target) = none
  · rw [api, if_neg (by decide)]
    exact iff_of_true rfl fun _ has => absurd api has
  · rw [if_pos (Option.isSome_iff_ne_none.mpr api)]
    cases isCall with
    | true => exact absurd api noApi
    | false => exact ⟨fun same _ _ => same.symm, fun same => (same rfl api).symm⟩

/-- A step from an indirect near jump or call is right if it leads to the instruction behind. -/
theorem right_nearIndirect_iff {isCall wide : Bool} {operand : NearOperand}
    (name : instr.mnemonic = if isCall then "call".toList else "jmp".toList)
    (text : NoNumber instr.opStr) :
    RightAfter state memory regs (.nearIndirect isCall wide operand) size
        (stepOf state memory regs instr size) ↔
      KindPredicted apiState state memory regs size (.nearIndirect isCall wide operand) := by
  refine (right_map rfl).trans ?_
  unfold stepOf
  rw [nextElsewhere_near name, nextOfNear_noNumber text]
  exact forall₂_congr fun _ _ => eq_comm

/-- A step from a direct far jump or call is right. -/
theorem right_far {isCall : Bool} {selector target : BitVec 16}
    (allocated : AllocatedSelector state selector)
    (name : instr.mnemonic = if isCall then "lcall".toList else "ljmp".toList)
    (scanned : scanHexPair instr.opStr = some (selector, target))
    (noApi : ¬ IsApiCall apiState state memory regs (.far isCall selector target)) :
    RightAfter state memory regs (.far isCall selector target) size
      (stepOf state memory regs instr size) := by
  refine (right_some rfl).mpr ?_
  unfold stepOf
  rw [nextElsewhere_far name scanned allocated fun call gate => noApi (call ▸ gate)]
  rfl

/-- A step from an indirect far jump or call is right if it leads to the instruction behind. -/
theorem right_farIndirect_iff {isCall wide : Bool} {place : MemOperand}
    (name : instr.mnemonic = if isCall then "lcall".toList else "ljmp".toList)
    (single : ',' ∉ instr.opStr) :
    RightAfter state memory regs (.farIndirect isCall wide place) size
        (stepOf state memory regs instr size) ↔
      KindPredicted apiState state memory regs size (.farIndirect isCall wide place) := by
  refine (right_map rfl).trans ?_
  unfold stepOf
  rw [nextElsewhere_farIndirect name (scanHexPair_none single)]
  exact ⟨fun right selector target there => (right (selector, target) there).symm,
    fun right address there => (right address.1 address.2 there).symm⟩

/-- Two segments lead to one address with an offset if they have one base. -/
theorem linearOf_inj {segment selector target : BitVec 16} :
    linearOf state segment target = linearOf state selector target ↔
      state.base segment = state.base selector := BitVec.add_left_inj _

/-- A step from a return stops where it goes if the stack holds a segment with the right base. -/
theorem stepOf_ret (whole : WholeWords memory) (name : ReturnName instr.mnemonic)
    {kind : ReturnKind} {wide : Bool} {selector target : BitVec 16}
    (allocated : AllocatedSelector state selector)
    (popped : popReturn state memory regs kind wide = some (selector, target)) :
    stepOf state memory regs instr size = linearOf state selector target ↔
      ReturnFound state memory regs size selector target := by
  obtain ⟨low, high, first, second, rfl⟩ := popReturn_first popped
  unfold stepOf ReturnFound
  rw [nextElsewhere_ret name, nextOfReturn_eq whole first second]
  cases wordBehind memory (stackLinear state regs) with
  | none => exact eq_comm
  | some segment =>
    dsimp only
    by_cases used : linearOf state segment (high.toBitVec ++ low.toBitVec) = 0
    · -- An address that is zero is none of the right segment.
      have other : state.base segment ≠ state.base selector := fun same =>
        allocated.linear_ne _ ((linearOf_inj.mpr same).symm.trans used)
      rw [if_neg (not_not_intro used)]
      exact ⟨fun same => .inr ⟨used, same.symm⟩,
        fun either => either.elim (fun same => absurd same other) fun both => both.2.symm⟩
    · rw [if_pos used]
      exact linearOf_inj.trans
        ⟨.inl, fun either => either.elim id fun both => absurd both.1 used⟩

/-- A step from a return is right if the stack holds a segment with the right base. -/
theorem right_ret_iff (whole : WholeWords memory) (name : ReturnName instr.mnemonic)
    {kind : ReturnKind} {wide : Bool}
    (allocated : TargetAllocated state memory regs (.ret kind wide)) :
    RightAfter state memory regs (.ret kind wide) size (stepOf state memory regs instr size) ↔
      KindPredicted apiState state memory regs size (.ret kind wide) := by
  have found : RightAfter state memory regs (.ret kind wide) size
      (stepOf state memory regs instr size) ↔
      ∀ selector target, popReturn state memory regs kind wide = some (selector, target) →
        ReturnFound state memory regs size selector target := by
    refine (right_map rfl).trans ⟨fun right selector target popped => ?_,
      fun right address popped => ?_⟩
    · have goes := right (selector, target) popped
      exact (stepOf_ret whole name (allocated selector target popped) popped).mp goes
    · obtain ⟨selector, target⟩ := address
      have holds := right selector target popped
      exact (stepOf_ret whole name (allocated selector target popped) popped).mpr holds
  -- A far return has its own selector behind the offset.
  have far (other : kind ≠ .near) (narrow : wide = false) (selector target : BitVec 16)
      (popped : popReturn state memory regs kind wide = some (selector, target)) :
      ReturnFound state memory regs size selector target := by
    subst narrow
    unfold ReturnFound
    rw [popReturn_selector other popped]
    exact .inl rfl
  refine found.trans ?_
  match kind, wide with
  | .near, _ => exact Iff.rfl
  | .far, true => exact Iff.rfl
  | .interrupt, true => exact Iff.rfl
  | .far, false => exact iff_of_true (far (by decide) rfl) trivial
  | .interrupt, false => exact iff_of_true (far (by decide) rfl) trivial

/-- The name of a call is looked up for near calls and jumps alone. -/
def namedApi (apiState : Option (List ApiEntry)) (mnemonic opStr : List Char) :
    Option (List UInt8) :=
  if mnemonic = "call".toList ∨ mnemonic = "jmp".toList then nearApiName apiState opStr else none

/-- A direct near call or jump has the name of its target. -/
theorem namedApi_near {isCall : Bool} {addr : BitVec 32} {mnemonic opStr : List Char}
    (name : mnemonic = if isCall then "call".toList else "jmp".toList)
    (numeral : HexNumeral addr.toNat opStr) :
    namedApi apiState mnemonic opStr = resolveOs2Api apiState addr := by
  have near : mnemonic = "call".toList ∨ mnemonic = "jmp".toList := by
    cases isCall with
    | false => exact .inr name
    | true => exact .inl name
  unfold namedApi
  rw [if_pos near, nearApiName_target numeral]

/-- A step from an instruction that can be read is right if its kind is one that is known. -/
theorem right_kind_iff (case : StepCase capstone apiState state memory regs insn size)
    (printed : PrintedAs state regs instr.mnemonic instr.opStr insn)
    (named : instr.apiName = namedApi apiState instr.mnemonic instr.opStr) :
    RightAfter state memory regs insn size (stepOf state memory regs instr size) ↔
      KindPredicted apiState state memory regs size insn := by
  obtain ⟨whole, code, allocated, -, noApi⟩ := case
  cases insn with
  | ordinary => exact iff_of_true (right_ordinary printed) trivial
  | jcc cond target => exact iff_of_true (right_jcc code printed.1 printed.2) trivial
  | loop kind wide target => exact right_loop_iff printed.1
  | jcxz wide target => exact right_jcxz_iff code printed.1 printed.2
  | near isCall target =>
    exact right_near_iff printed.1 printed.2
      (named.trans (namedApi_near printed.1 printed.2)) noApi
  | nearIndirect isCall wide operand =>
    obtain ⟨name, shown⟩ := printed
    refine right_nearIndirect_iff name ?_
    cases operand with
    | reg register =>
      rw [shown]
      exact noNumber_register register wide
    | mem place =>
      obtain ⟨inside, shown⟩ := shown
      rw [shown]
      exact noNumber_place inside wide
  | far isCall selector target =>
    obtain ⟨name, front, gap, back, shown, blank, left, right⟩ := printed
    have scanned : scanHexPair instr.opStr = some (selector, target) := by
      rw [shown, scanHexPair_numerals left blank right, BitVec.ofNat_toNat, BitVec.ofNat_toNat,
        BitVec.setWidth_eq, BitVec.setWidth_eq]
    exact iff_of_true (right_far allocated name scanned noApi) trivial
  | farIndirect isCall wide place => exact right_farIndirect_iff printed.1 printed.2
  | ret kind wide => exact right_ret_iff whole printed allocated

/-- A single step stops where the processor goes on exactly if the step is predicted. -/
theorem next_ip_right_iff (case : StepCase capstone apiState state memory regs insn size) :
    (∀ next, x86Next state memory regs insn size = some next →
      softwareStepTarget capstone apiState (some state) memory regs false = next) ↔
      StepPredicted apiState state memory regs insn size := by
  rw [softwareStepTarget_eq case.code]
  unfold StepPredicted
  cases read : ptraceReadMemory memory (currentLinear state regs) 16 with
  | none =>
    rw [if_pos rfl]
    exact forall₂_congr fun _ _ => eq_comm
  | some bytes =>
    rw [if_neg (Option.some_ne_none bytes)]
    obtain ⟨text, decoded, rfl, printed⟩ := case.printed bytes read
    have instr : disasmInstruction capstone apiState bytes (currentLinear state regs) true =
        ⟨text.mnemonic, text.opStr, text.size, namedApi apiState text.mnemonic text.opStr⟩ := by
      unfold disasmInstruction
      rw [decoded]
      rfl
    dsimp only
    rw [instr]
    exact right_kind_iff case printed rfl

/-! Two instructions in a segment at 0x20000 -/

/-- The registers in front of an instruction, with the zero flag and a count of two. -/
def twoLeft : UserRegsStruct where
  ebx := 0
  ecx := 2
  edx := 0
  esi := 0
  edi := 0
  ebp := 0
  eax := 0
  xds := 0x17
  xes := 0x17
  xfs := 0
  xgs := 0
  eip := 0x100
  xcs := 0x17
  eflags := 0x40
  esp := 0x8000
  xss := 0x17

/-- A disassembler that knows a jump forward and a loop back, both at 0x20100. -/
def twoJumps : Capstone := fun _ code _ =>
  match code.head? with
  | some 0x74 => some ⟨"je".toList, "0x20176".toList, 2⟩
  | some 0xE2 => some ⟨"loop".toList, "0x200e4".toList, 2⟩
  | _ => none

/-- The segment of the instructions is allocated. -/
theorem twoLeft_code : AllocatedSelector sharedTile (codeSelector twoLeft) :=
  ⟨by decide, by decide, by decide⟩

/-- The jump forward is a case of a step. -/
theorem jumpForward_case :
    StepCase twoJumps none sharedTile (fun _ => some 0x74) twoLeft (.jcc .e 0x176) 2 where
  whole := fun _ _ => decide_eq_true fun _ _ => rfl
  code := twoLeft_code
  target := trivial
  printed := fun bytes read => by
    have code : ptraceReadMemory (fun _ => some 0x74) (currentLinear sharedTile twoLeft) 16 =
      some (List.replicate 16 0x74) := rfl
    cases code.symm.trans read
    refine ⟨⟨"je".toList, "0x20176".toList, 2⟩, rfl, rfl, rfl, "20176".toList, rfl, ?_, ?_, rfl⟩
    · exact List.cons_ne_nil _ _
    · exact List.all_eq_true.mp rfl
  noApi := id

/-- The loop back is a case of a step. -/
theorem loopBack_case :
    StepCase twoJumps none sharedTile (fun _ => some 0xE2) twoLeft (.loop .loop false 0xE4) 2 where
  whole := fun _ _ => decide_eq_true fun _ _ => rfl
  code := twoLeft_code
  target := trivial
  printed := fun bytes read => by
    have code : ptraceReadMemory (fun _ => some 0xE2) (currentLinear sharedTile twoLeft) 16 =
      some (List.replicate 16 0xE2) := rfl
    cases code.symm.trans read
    refine ⟨⟨"loop".toList, "0x200e4".toList, 2⟩, rfl, rfl, rfl, "200e4".toList, rfl, ?_, ?_, rfl⟩
    · exact List.cons_ne_nil _ _
    · exact List.all_eq_true.mp rfl
  noApi := id

/-- A step from the jump forward stops behind it. -/
theorem jump_forward_stepped :
    softwareStepTarget twoJumps none (some sharedTile) (fun _ => some 0x74) twoLeft false =
      0x20176 := by
  have read : ptraceReadMemory (fun _ => some 0x74) (currentLinear sharedTile twoLeft) 16 ≠ none :=
    by decide
  have predicted : StepPredicted none sharedTile (fun _ => some 0x74) twoLeft (.jcc .e 0x176) 2 := by
    unfold StepPredicted
    rw [if_neg read]
    trivial
  exact (next_ip_right_iff jumpForward_case).mpr predicted 0x20176 rfl

/-- A step from the loop back stops at the instruction behind the loop, which goes on elsewhere. -/
theorem loop_back_missed :
    StepCase twoJumps none sharedTile (fun _ => some 0xE2) twoLeft (.loop .loop false 0xE4) 2 ∧
      x86Next sharedTile (fun _ => some 0xE2) twoLeft (.loop .loop false 0xE4) 2 =
        some 0x200E4 ∧
      softwareStepTarget twoJumps none (some sharedTile) (fun _ => some 0xE2) twoLeft false =
        0x20102 :=
  ⟨loopBack_case, rfl, rfl⟩

end Kinds

end TwoIne
