import TwoIne.Lib.X86Rules
import TwoIne.LxLoader.Bridges

/-!
The code for one function as the instructions that it is made of, and what the stretches of it
between two jumps come to.
-/

namespace TwoIne

open X86 WordMemory

section Code

variable (original : OriginalSelectors)

/-- The caller's registers are pushed, and its stack pointer is copied. -/
def savingCode : List (Insn × List UInt8) :=
  [(.push false .ebx, [0x53]), (.push false .ecx, [0x51]), (.push false .edx, [0x52]),
    (.push false .esi, [0x56]), (.push false .edi, [0x57]), (.push false .ebp, [0x55]),
    (.mov false .ecx .esp, [0x89, 0xE1])]

/-- The stack is found in the segment of all memory. -/
def stackCode : List (Insn × List UInt8) :=
  [(.movFromSeg false .ebx .ss, [0x66, 0x8C, 0xD3]), (.shl true .ebx 16, [0xC1, 0xE3, 0x10]),
    (.mov false .ebx .ecx, [0x66, 0x89, 0xCB]), (.movFromSeg false .eax .ss, [0x66, 0x8C, 0xD0]),
    (.shr false .eax 3, [0x66, 0xC1, 0xE8, 0x03]), (.shl true .eax 16, [0xC1, 0xE0, 0x10]),
    (.mov false .eax .ecx, [0x66, 0x89, 0xC8]),
    (.movImm false .ecx (original.ss.setWidth 32), [0x66, 0xB9] ++ halfBytes original.ss),
    (.movToSeg .ss .ecx, [0x8E, 0xD1]), (.mov true .esp .eax, [0x89, 0xC4]),
    (.addImm true .eax 0x10, [0x83, 0xC0, 0x10])]

/-- What is needed to return is pushed. -/
def framingCode : List (Insn × List UInt8) :=
  [(.push true .ebx, [0x53]), (.pushSeg true .ds, [0x1E]), (.pushSeg true .es, [0x06])]

/-- A selector is loaded through `cx`, unless it is there already. -/
def loadingCode (before selector : BitVec 16) (seg : SegReg) (move : List UInt8) :
    List (Insn × List UInt8) :=
  (if before ≠ selector then
    [(.movImm false .ecx (selector.setWidth 32), [0x66, 0xB9] ++ halfBytes selector)] else []) ++
    [(.movToSeg seg .ecx, move)]

/-- The data segments are those of the loader, and the function is called with one argument. -/
def callingCode (fn : BitVec 32) : List (Insn × List UInt8) :=
  framingCode ++ loadingCode original.ss original.ds .ds [0x8E, 0xD9] ++
    loadingCode original.ds original.es .es [0x8E, 0xC1] ++
    [(.push true .eax, [0x50]), (.movImm true .eax fn, 0xB8 :: wordBytes fn)]

/-- What is needed to return is popped. -/
def leavingCode : List (Insn × List UInt8) :=
  [(.addImm true .esp 4, [0x83, 0xC4, 0x04]), (.popSeg true .es, [0x07]),
    (.popSeg true .ds, [0x1F]), (.pop false .ebx, [0x66, 0x5B]), (.pop false .ecx, [0x66, 0x59])]

/-- The caller's stack and registers are restored. -/
def restoringCode : List (Insn × List UInt8) :=
  [(.movToSeg .ss .ecx, [0x8E, 0xD1]), (.mov false .esp .ebx, [0x89, 0xDC]),
    (.pop false .ebp, [0x5D]), (.pop false .edi, [0x5F]), (.pop false .esi, [0x5E]),
    (.pop false .edx, [0x5A]), (.pop false .ecx, [0x59]), (.pop false .ebx, [0x5B])]

/-- A jump to code of 32 bits. -/
def jumpWide (selector : BitVec 16) (target : BitVec 32) : List UInt8 :=
  [0x66, 0xEA] ++ wordBytes target ++ halfBytes selector

/-- A jump to code of 16 bits. -/
def jumpNarrow (selector target : BitVec 16) : List UInt8 :=
  [0x66, 0xEA] ++ halfBytes target ++ halfBytes selector

/-- The part of the code that is executed in 32 bits up to the call. -/
def wideCode (fn : BitVec 32) : List (Insn × List UInt8) :=
  stackCode original ++ callingCode original fn

/-- How far behind the start of the code for a function it returns to 16 bits. -/
def narrowStart (fn : BitVec 32) : Nat := 33 + (code (wideCode original fn)).length

/-- The code for one function, which starts somewhere in the object. -/
def bridgeCode (mmapaddr : BitVec 32) (selector : BitVec 16) (bridged : BridgedFunction)
    (start : Nat) : List UInt8 :=
  code savingCode ++ (jumpWide original.cs (mmapaddr + BitVec.ofNat 32 (start + 16)) ++
    (code (wideCode original bridged.fn) ++ ([0xFF, 0xD0] ++ (code leavingCode ++
      (jumpNarrow selector (BitVec.ofNat 16 (start + narrowStart original bridged.fn)) ++
        (code restoringCode ++ (0xCA :: halfBytes bridged.argbytes)))))))

/-- How long the code for one function is. -/
theorem bridgeCode_length (mmapaddr : BitVec 32) (selector : BitVec 16)
    (bridged : BridgedFunction) (start : Nat) :
    (bridgeCode original mmapaddr selector bridged start).length =
      narrowStart original bridged.fn + 13 := by
  unfold bridgeCode narrowStart
  simp only [List.length_append]
  show 8 + (8 + (_ + (2 + (9 + (6 + (10 + 3)))))) = _
  omega

/-- The code that is generated is made of these instructions. -/
theorem init16BitBridge_eq (mmapaddr : BitVec 32) (alias16 : BitVec 16) (bridged : BridgedFunction)
    (before : List UInt8) :
    init16BitBridge original mmapaddr alias16 bridged before =
      before ++ bridgeCode original mmapaddr (alias16 <<< 3 ||| 7) bridged before.length := by
  -- Whether a selector is loaded makes no difference to what lies around it.
  have load : ∀ (selector other : BitVec 16) (front : List UInt8),
      (if selector ≠ other then front ++ [0x66, 0xB9] ++ halfBytes other else front) =
        front ++ if selector ≠ other then [0x66, 0xB9] ++ halfBytes other else [] := by
    intro selector other front
    split
    · rw [List.append_assoc]
    · rw [List.append_nil]
  have loading : ∀ (selector other : BitVec 16) (seg : SegReg) (move : List UInt8),
      code (loadingCode selector other seg move) =
        (if selector ≠ other then [0x66, 0xB9] ++ halfBytes other else []) ++ move := by
    intro selector other seg move
    unfold code loadingCode
    split
    · simp
    · simp
  unfold init16BitBridge bridgeCode narrowStart wideCode callingCode
  simp only [load, code_append, loading]
  generalize (if original.ss ≠ original.ds then [0x66, 0xB9] ++ halfBytes original.ds else []) = ds
  generalize (if original.ds ≠ original.es then [0x66, 0xB9] ++ halfBytes original.es else []) = es
  simp [code, savingCode, stackCode, framingCode, leavingCode, restoringCode, jumpWide, jumpNarrow,
    halfBytes, wordBytes, Nat.add_comm, Nat.add_left_comm]

end Code

section Encoding

variable (original : OriginalSelectors)

/-- The instructions that save registers. -/
theorem encodes_saving : ∀ pair ∈ savingCode, Encodes false pair.1 pair.2 := by
  unfold savingCode
  simp only [List.forall_mem_cons]
  exact ⟨⟨by decide, fun _ => rfl⟩, ⟨by decide, fun _ => rfl⟩, ⟨by decide, fun _ => rfl⟩,
    ⟨by decide, fun _ => rfl⟩, ⟨by decide, fun _ => rfl⟩, ⟨by decide, fun _ => rfl⟩,
    ⟨by decide, fun _ => rfl⟩, by simp⟩

/-- Half a word is loaded with a prefix. -/
theorem encodes_movHalf (half : BitVec 16) :
    Encodes true (.movImm false .ecx (half.setWidth 32)) ([0x66, 0xB9] ++ halfBytes half) := by
  refine ⟨show 4 ≤ 8 by decide, fun more => ?_⟩
  show some (Insn.movImm false .ecx ((halfOf ((halfBytes half).getD · 0)).setWidth 32), 4) = _
  rw [halfOf_alone]
  rfl

/-- The instructions that find the stack. -/
theorem encodes_stack : ∀ pair ∈ stackCode original, Encodes true pair.1 pair.2 := by
  unfold stackCode
  simp only [List.forall_mem_cons]
  exact ⟨⟨by decide, fun _ => rfl⟩, ⟨by decide, fun _ => rfl⟩, ⟨by decide, fun _ => rfl⟩,
    ⟨by decide, fun _ => rfl⟩, ⟨by decide, fun _ => rfl⟩, ⟨by decide, fun _ => rfl⟩,
    ⟨by decide, fun _ => rfl⟩, encodes_movHalf original.ss, ⟨by decide, fun _ => rfl⟩,
    ⟨by decide, fun _ => rfl⟩, ⟨by decide, fun _ => rfl⟩, by simp⟩

/-- The instructions that load a selector. -/
theorem encodes_loading (before selector : BitVec 16) {seg : SegReg} {move : List UInt8}
    (moves : Encodes true (.movToSeg seg .ecx) move) :
    ∀ pair ∈ loadingCode before selector seg move, Encodes true pair.1 pair.2 := by
  intro pair member
  rcases List.mem_append.mp member with load | last
  · split at load
    · obtain rfl := List.mem_singleton.mp load
      exact encodes_movHalf selector
    · cases load
  · obtain rfl := List.mem_singleton.mp last
    exact moves

/-- The instructions that are executed in 32 bits up to the call. -/
theorem encodes_wide (fn : BitVec 32) :
    ∀ pair ∈ wideCode original fn, Encodes true pair.1 pair.2 := by
  have framing : ∀ pair ∈ framingCode, Encodes true pair.1 pair.2 := by
    unfold framingCode
    simp only [List.forall_mem_cons]
    exact ⟨⟨by decide, fun _ => rfl⟩, ⟨by decide, fun _ => rfl⟩, ⟨by decide, fun _ => rfl⟩, by simp⟩
  have word : Encodes true (.movImm true .eax fn) (0xB8 :: wordBytes fn) := by
    refine ⟨show 5 ≤ 8 by decide, fun more => ?_⟩
    show some (Insn.movImm true .eax (wordOf ((wordBytes fn).getD · 0)), 5) = _
    rw [wordOf_alone]
    rfl
  have last : ∀ pair ∈ [(.push true .eax, [0x50]), (.movImm true .eax fn, 0xB8 :: wordBytes fn)],
      Encodes true pair.1 pair.2 := by
    simp only [List.forall_mem_cons]
    exact ⟨⟨by decide, fun _ => rfl⟩, word, by simp⟩
  have data := encodes_loading original.ss original.ds
    (show Encodes true (.movToSeg .ds .ecx) [0x8E, 0xD9] from ⟨by decide, fun _ => rfl⟩)
  have extra := encodes_loading original.ds original.es
    (show Encodes true (.movToSeg .es .ecx) [0x8E, 0xC1] from ⟨by decide, fun _ => rfl⟩)
  unfold wideCode callingCode
  simp only [List.forall_mem_append]
  exact ⟨encodes_stack original, ⟨⟨framing, data⟩, extra⟩, last⟩

/-- These instructions do not branch. -/
theorem straight_wide (fn : BitVec 32) :
    ∀ insn ∈ (wideCode original fn).map Prod.fst, insn.straight = true := by
  have loading : ∀ (before selector : BitVec 16) (seg : SegReg) (move : List UInt8), seg ≠ .cs →
      ∀ insn ∈ (loadingCode before selector seg move).map Prod.fst, insn.straight = true := by
    intro before selector seg move data insn member
    rw [loadingCode, List.map_append] at member
    rcases List.mem_append.mp member with load | last
    · split at load
      · obtain rfl := List.mem_singleton.mp load
        rfl
      · cases load
    · obtain rfl := List.mem_singleton.mp last
      exact decide_eq_true data
  unfold wideCode callingCode
  simp only [List.map_append, List.forall_mem_append]
  refine ⟨?_, ⟨⟨by decide, loading _ _ _ _ (by decide)⟩, loading _ _ _ _ (by decide)⟩, ?_⟩
  · simp [stackCode, Insn.straight]
  · simp [Insn.straight]

/-- The instructions behind the call. -/
theorem encodes_leaving : ∀ pair ∈ leavingCode, Encodes true pair.1 pair.2 := by
  unfold leavingCode
  simp only [List.forall_mem_cons]
  exact ⟨⟨by decide, fun _ => rfl⟩, ⟨by decide, fun _ => rfl⟩, ⟨by decide, fun _ => rfl⟩,
    ⟨by decide, fun _ => rfl⟩, ⟨by decide, fun _ => rfl⟩, by simp⟩

/-- The instructions that restore registers. -/
theorem encodes_restoring : ∀ pair ∈ restoringCode, Encodes false pair.1 pair.2 := by
  unfold restoringCode
  simp only [List.forall_mem_cons]
  exact ⟨⟨by decide, fun _ => rfl⟩, ⟨by decide, fun _ => rfl⟩, ⟨by decide, fun _ => rfl⟩,
    ⟨by decide, fun _ => rfl⟩, ⟨by decide, fun _ => rfl⟩, ⟨by decide, fun _ => rfl⟩,
    ⟨by decide, fun _ => rfl⟩, ⟨by decide, fun _ => rfl⟩, by simp⟩

/-- The jump to code of 32 bits. -/
theorem encodes_jumpWide (selector : BitVec 16) (target : BitVec 32) :
    Encodes false (.jmpFar selector target) (jumpWide selector target) := by
  refine ⟨show 8 ≤ 8 by decide, fun more => ?_⟩
  show some (Insn.jmpFar (halfOf ((halfBytes selector).getD · 0))
    (wordOf ((wordBytes target).getD · 0)), 8) = _
  rw [wordOf_alone, halfOf_alone]
  rfl

/-- The jump to code of 16 bits. -/
theorem encodes_jumpNarrow (selector target : BitVec 16) :
    Encodes true (.jmpFar selector (target.setWidth 32)) (jumpNarrow selector target) := by
  refine ⟨show 6 ≤ 8 by decide, fun more => ?_⟩
  show some (Insn.jmpFar (halfOf ((halfBytes selector).getD · 0))
    ((halfOf ((halfBytes target).getD · 0)).setWidth 32), 6) = _
  rw [halfOf_alone, halfOf_alone]
  rfl

/-- The return to the caller. -/
theorem encodes_return (argbytes : BitVec 16) :
    Encodes false (.retFar false argbytes) (0xCA :: halfBytes argbytes) := by
  refine ⟨show 3 ≤ 8 by decide, fun more => ?_⟩
  show some (Insn.retFar false (halfOf ((halfBytes argbytes).getD · 0)), 3) = _
  rw [halfOf_alone]
  rfl

end Encoding

end TwoIne
