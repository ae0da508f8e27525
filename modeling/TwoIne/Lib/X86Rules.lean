import TwoIne.Lib.X86

/-!
Rules for programs of the x86: what is pushed lies on the stack until it is popped, and code that
does not branch is executed from its first instruction to the last.
-/

namespace X86

open WordMemory

section Halves

variable {value : BitVec 32} {lower upper : BitVec 16}

/-- The lower half that was written. -/
@[simp] theorem low_withLow (value : BitVec 32) (lower : BitVec 16) :
    low (withLow value lower) = lower := by
  unfold low withLow
  rw [BitVec.setWidth_append]
  simp

/-- Writing the lower half that is there. -/
@[simp] theorem withLow_low (value : BitVec 32) : withLow value (low value) = value := by
  apply BitVec.eq_of_getLsbD_eq
  intro i inside
  unfold withLow low
  rw [BitVec.getLsbD_append, BitVec.getLsbD_extractLsb', BitVec.getLsbD_setWidth]
  by_cases first : i < 16
  · simp [first]
  · simp [first, show i - 16 < 16 by omega, show 16 + (i - 16) = i by omega]

/-- Writing the lower half twice. -/
@[simp] theorem withLow_withLow (value : BitVec 32) (lower other : BitVec 16) :
    withLow (withLow value lower) other = withLow value other := by
  unfold withLow
  congr 1
  rw [BitVec.extractLsb'_append_eq_of_le (by omega)]
  simp

/-- A lower half that is shifted up, with another one below it. -/
@[simp] theorem withLow_shift (value : BitVec 32) (upper lower : BitVec 16) :
    withLow (withLow value upper <<< 16) lower = upper ++ lower := by
  unfold withLow
  congr 1
  apply BitVec.eq_of_getLsbD_eq
  intro i inside
  rw [BitVec.getLsbD_extractLsb', BitVec.getLsbD_shiftLeft, BitVec.getLsbD_append]
  simp [inside]
  omega

/-- The lower half is added to a word without one. -/
theorem append_zero_add (upper lower : BitVec 16) :
    (upper ++ 0#16) + lower.setWidth 32 = upper ++ lower := by
  apply BitVec.eq_of_toNat_eq
  have high := upper.isLt
  have small := lower.isLt
  rw [BitVec.toNat_add, BitVec.toNat_append, BitVec.toNat_append, BitVec.toNat_setWidth,
    ← Nat.shiftLeft_add_eq_or_of_lt small, ← Nat.shiftLeft_add_eq_or_of_lt (by decide),
    Nat.shiftLeft_eq]
  have zero : (0#16).toNat = 0 := rfl
  omega

/-- Half a word that was extended. -/
@[simp] theorem low_setWidth (lower : BitVec 16) : low (lower.setWidth 32) = lower := by
  unfold low
  simp

/-- Half a word that was extended and shifted down. -/
@[simp] theorem low_setWidth_shift (lower : BitVec 16) (count : Nat) :
    low (lower.setWidth 32 >>> count) = lower >>> count := by
  apply BitVec.eq_of_getLsbD_eq
  intro i inside
  unfold low
  rw [BitVec.getLsbD_setWidth, BitVec.getLsbD_ushiftRight, BitVec.getLsbD_ushiftRight,
    BitVec.getLsbD_setWidth]
  by_cases small : count + i < 32
  · simp [inside, small]
  · simp [BitVec.getLsbD_of_ge lower (count + i) (by omega)]

/-- The lower half of a sum. -/
theorem low_add (a b : BitVec 32) : low (a + b) = low a + low b :=
  BitVec.setWidth_add a b (by omega)

/-- A half is read as its bytes say. -/
theorem halfOf_halfBytes (half : BitVec 16) (rest : List UInt8) :
    halfOf ((halfBytes half ++ rest).getD · 0) = half := by
  apply BitVec.eq_of_getLsbD_eq
  intro i inside
  show (half.extractLsb' 8 8 ++ half.extractLsb' 0 8).getLsbD i = _
  rw [BitVec.getLsbD_append, BitVec.getLsbD_extractLsb', BitVec.getLsbD_extractLsb']
  by_cases first : i < 8
  · simp [first]
  · have second : i - 8 < 8 := by omega
    have same : 8 + (i - 8) = i := by omega
    simp [first, second, same]

/-- A word is read as its bytes say. -/
theorem wordOf_wordBytes (word : BitVec 32) (rest : List UInt8) :
    wordOf ((wordBytes word ++ rest).getD · 0) = word := by
  apply BitVec.eq_of_getLsbD_eq
  intro i inside
  show (word.extractLsb' 24 8 ++ word.extractLsb' 16 8 ++ word.extractLsb' 8 8 ++
    word.extractLsb' 0 8).getLsbD i = _
  simp only [BitVec.getLsbD_append, BitVec.getLsbD_extractLsb']
  -- The bit is in one of the four bytes.
  have bytes : i < 8 ∨ 8 ≤ i ∧ i < 16 ∨ 16 ≤ i ∧ i < 24 ∨ 24 ≤ i := by omega
  rcases bytes with first | ⟨low1, high1⟩ | ⟨low2, high2⟩ | low3
  · simp [first]
  · simp [show ¬ i < 8 by omega, show i - 8 < 8 by omega, show 8 + (i - 8) = i by omega]
  · simp [show ¬ i < 8 by omega, show ¬ i - 8 < 8 by omega, show i - 8 - 8 < 8 by omega,
      show 16 + (i - 8 - 8) = i by omega]
  · simp [show ¬ i < 8 by omega, show ¬ i - 8 < 8 by omega, show ¬ i - 8 - 8 < 8 by omega,
      show i - 8 - 8 - 8 < 8 by omega, show 24 + (i - 8 - 8 - 8) = i by omega]

/-- A half of two bytes and no more. -/
theorem halfOf_alone (half : BitVec 16) : halfOf ((halfBytes half).getD · 0) = half := by
  have read := halfOf_halfBytes half []
  rw [List.append_nil] at read
  exact read

/-- A word of four bytes and no more. -/
theorem wordOf_alone (word : BitVec 32) : wordOf ((wordBytes word).getD · 0) = word := by
  have read := wordOf_wordBytes word []
  rw [List.append_nil] at read
  exact read

/-- The bytes of two halves, the lower one first. -/
theorem wordBytes_append (upper lower : BitVec 16) :
    wordBytes (upper ++ lower) = halfBytes lower ++ halfBytes upper := by
  have first : ∀ i, i + 8 ≤ 16 →
      (upper ++ lower).extractLsb' i 8 = lower.extractLsb' i 8 := fun i fits =>
    BitVec.extractLsb'_append_eq_of_add_le fits
  have second : ∀ i, 16 ≤ i → (upper ++ lower).extractLsb' i 8 = upper.extractLsb' (i - 16) 8 :=
    fun i behind => BitVec.extractLsb'_append_eq_of_le behind
  unfold wordBytes halfBytes wordByte
  rw [first (8 * 0) (by omega), first (8 * 1) (by omega), second (8 * 2) (by omega),
    second (8 * 3) (by omega)]
  rfl

/-- The half that the first two bytes of a word are. -/
theorem halfOf_wordBytes (word : BitVec 32) : halfOf ((wordBytes word).getD · 0) = low word := by
  conv_lhs => rw [← withLow_low word]
  rw [withLow, wordBytes_append, halfOf_halfBytes]

end Halves

section Stack

variable {segments : Segments} {m : Machine} {front back bytes rest : List UInt8} {n : Nat}

/-- A stack of 16 bits has room for so many bytes more. -/
def Machine.Room (segments : Segments) (m : Machine) (n : Nat) : Prop :=
  m.wideStack segments = false → n ≤ (low m.regs.esp).toNat

/-- Moving the stack pointer twice. -/
theorem moveStack_moveStack (m : Machine) (first second : BitVec 32) :
    (m.moveStack segments first).moveStack segments second =
      m.moveStack segments (first + second) := by
  unfold Machine.moveStack Machine.wideStack
  dsimp only
  split
  · rw [BitVec.add_assoc]
  · rw [low_withLow, withLow_withLow, low_add, BitVec.add_assoc]

/-- The lower half of the stack pointer after so many bytes were pushed. -/
theorem low_down (enough : n ≤ (low m.regs.esp).toNat) :
    (low m.regs.esp + low (-BitVec.ofNat 32 n)).toNat = (low m.regs.esp).toNat - n := by
  have half := (low m.regs.esp).isLt
  unfold low at enough half ⊢
  rw [BitVec.toNat_add, BitVec.toNat_setWidth _ (-BitVec.ofNat 32 n), BitVec.toNat_neg,
    BitVec.toNat_ofNat]
  omega

/-- The lower half of the stack pointer after so many bytes were popped. -/
theorem low_up (inside : (low m.regs.esp).toNat + n < 2 ^ 16) :
    (low m.regs.esp + low (BitVec.ofNat 32 n)).toNat = (low m.regs.esp).toNat + n := by
  unfold low at inside ⊢
  rw [BitVec.toNat_add, BitVec.toNat_setWidth _ (BitVec.ofNat 32 n), BitVec.toNat_ofNat]
  omega

/-- Pushing bytes leaves room for as many less. -/
theorem Machine.Room.down {more : Nat} (room : m.Room segments (more + n)) :
    (m.moveStack segments (-BitVec.ofNat 32 n)).Room segments more := by
  intro narrow
  have enough := room narrow
  unfold Machine.moveStack Machine.wideStack at narrow ⊢
  dsimp only at narrow ⊢
  rw [if_neg (by rw [narrow]; decide), low_withLow, low_down (by omega)]
  omega

/-- The top of the stack after so many bytes were pushed. -/
theorem stackTop_down (room : m.Room segments n) :
    (m.moveStack segments (-BitVec.ofNat 32 n)).stackTop segments + BitVec.ofNat 32 n =
      m.stackTop segments := by
  unfold Machine.stackTop Machine.moveStack Machine.wideStack
  dsimp only
  by_cases wide : segments.wide m.sel.ss = true
  · rw [if_pos wide, if_pos wide, if_pos wide, BitVec.add_assoc, BitVec.add_assoc,
      BitVec.add_left_neg, BitVec.add_zero]
  · -- In 16 bits the pointer would wrap around without the room.
    rw [if_neg wide, if_neg wide, if_neg wide, low_withLow, BitVec.add_assoc]
    have enough := room (Bool.eq_false_iff.mpr wide)
    have half := (low m.regs.esp).isLt
    congr 1
    apply BitVec.eq_of_toNat_eq
    rw [BitVec.toNat_add, BitVec.toNat_setWidth, low_down enough, BitVec.toNat_ofNat,
      BitVec.toNat_setWidth]
    omega

/-- The first of the bytes that are there. -/
theorem holds_front {memory : ByteMemory} {addr : BitVec 32}
    (holds : HoldsAt memory addr (front ++ back)) : HoldsAt memory addr front := by
  intro k inside
  rw [holds k (by rw [List.length_append]; omega), List.getElem?_append_left inside]

/-- Bytes in front of others that are written already. -/
theorem written_before (memory : ByteMemory) (addr : BitVec 32)
    (short : (front ++ back).length < 2 ^ 32) :
    written (written memory (addr + BitVec.ofNat 32 front.length) back) addr front =
      written memory addr (front ++ back) := by
  rw [← written_append memory addr (Nat.le_of_lt short)]
  rw [List.length_append] at short
  funext place
  have far := place_sub_add addr place front.length
  have bound := (place - addr).isLt
  unfold written
  by_cases inside : (place - addr).toNat < front.length
  · -- This place is in front of the other bytes.
    have outside : back[(place - (addr + BitVec.ofNat 32 front.length)).toNat]? = none := by
      apply List.getElem?_eq_none
      rw [far (by omega), if_neg (by omega)]
      omega
    rw [outside]
    rfl
  · rw [List.getElem?_eq_none (Nat.not_lt.mp inside)]
    rfl

/-- Bytes that are written in front of what is there. -/
theorem holds_written_before {memory : ByteMemory} {addr : BitVec 32}
    (short : (bytes ++ rest).length ≤ 2 ^ 32)
    (holds : HoldsAt memory (addr + BitVec.ofNat 32 bytes.length) rest) :
    HoldsAt (written memory addr bytes) addr (bytes ++ rest) := by
  intro k inside
  rw [List.length_append] at short inside
  by_cases front : k < bytes.length
  · rw [List.getElem?_append_left front]
    exact written_holds memory addr (by omega) k front
  · have offset : (addr + BitVec.ofNat 32 k - addr).toNat = k := by
      rw [BitVec.add_comm, BitVec.add_sub_cancel, BitVec.toNat_ofNat]
      omega
    have there := holds (k - bytes.length) (by omega)
    rw [BitVec.add_assoc, ← BitVec.ofNat_add, Nat.add_sub_cancel' (Nat.not_lt.mp front)] at there
    rw [written_other (by omega), there, List.getElem?_append_right (Nat.not_lt.mp front)]

/-- Where the stack pointer of a stack of 16 bits is moved to. -/
theorem moveStack_low (narrow : m.wideStack segments = false) (delta : BitVec 32) :
    low (m.moveStack segments delta).regs.esp = low m.regs.esp + low delta := by
  unfold Machine.moveStack
  dsimp only
  rw [if_neg (by rw [narrow]; decide), low_withLow]

/-- Moving the stack pointer nowhere. -/
theorem moveStack_zero (segments : Segments) (m : Machine) : m.moveStack segments 0#32 = m := by
  unfold Machine.moveStack
  have half : low 0#32 = 0#16 := rfl
  dsimp only
  rw [half, BitVec.add_zero, BitVec.add_zero, withLow_low, ite_self]

/-- Pushing nothing changes nothing. -/
theorem pushBytes_nil (segments : Segments) (m : Machine) : m.pushBytes segments [] = m := by
  have still : m.moveStack segments (-BitVec.ofNat 32 ([] : List UInt8).length) = m :=
    moveStack_zero segments m
  unfold Machine.pushBytes
  rw [still]
  rfl

/-- Pushing some bytes and then others is pushing both, the others in front. -/
theorem pushBytes_pushBytes (front back : List UInt8)
    (room : m.Room segments (front ++ back).length)
    (short : (front ++ back).length < 2 ^ 32) :
    (m.pushBytes segments back).pushBytes segments front = m.pushBytes segments (front ++ back) := by
  rw [List.length_append] at room
  have twice : (m.moveStack segments (-BitVec.ofNat 32 back.length)).moveStack segments
      (-BitVec.ofNat 32 front.length) =
        m.moveStack segments (-BitVec.ofNat 32 (front ++ back).length) := by
    rw [moveStack_moveStack, List.length_append, Nat.add_comm, BitVec.ofNat_add, BitVec.neg_add,
      BitVec.sub_eq_add_neg]
  have top := stackTop_down room.down
  have both : (m.pushBytes segments back).pushBytes segments front =
      { (m.moveStack segments (-BitVec.ofNat 32 back.length)).moveStack segments
          (-BitVec.ofNat 32 front.length) with
        memory := written
          (written m.memory
            ((m.moveStack segments (-BitVec.ofNat 32 back.length)).stackTop segments) back)
          (((m.moveStack segments (-BitVec.ofNat 32 back.length)).moveStack segments
            (-BitVec.ofNat 32 front.length)).stackTop segments) front } := rfl
  -- What is pushed last ends in front, right where the first bytes begin.
  rw [both, ← top, twice, written_before _ _ short]
  rfl

/-- These bytes more are on top of the stack, wherever its segment starts. -/
structure Pushed (segments : Segments) (m n : Machine) (bytes : List UInt8) : Prop where
  top : n.stackTop segments + BitVec.ofNat 32 bytes.length = m.stackTop segments
  memory : n.memory = written m.memory (n.stackTop segments) bytes

/-- Pushing bytes puts them on top. -/
theorem pushBytes_pushed (room : m.Room segments bytes.length) :
    Pushed segments m (m.pushBytes segments bytes) bytes := by
  have top : (m.pushBytes segments bytes).stackTop segments =
      (m.moveStack segments (-BitVec.ofNat 32 bytes.length)).stackTop segments := by
    unfold Machine.stackTop Machine.pushBytes
    rfl
  refine ⟨?_, ?_⟩
  · rw [top, stackTop_down room]
  · rw [top]
    rfl

/-- A machine with the same stack has the same bytes on top. -/
theorem Pushed.congr {n k : Machine} (pushed : Pushed segments m n bytes)
    (top : k.stackTop segments = n.stackTop segments) (memory : k.memory = n.memory) :
    Pushed segments m k bytes := by
  refine ⟨?_, ?_⟩
  · rw [top, pushed.top]
  · rw [memory, top, pushed.memory]

/-- What is pushed last is in front. -/
theorem Pushed.trans {n k : Machine} (first : Pushed segments m n back)
    (second : Pushed segments n k front) (short : (front ++ back).length < 2 ^ 32) :
    Pushed segments m k (front ++ back) := by
  refine ⟨?_, ?_⟩
  · rw [List.length_append, BitVec.ofNat_add, ← BitVec.add_assoc, second.top, first.top]
  · rw [second.memory, first.memory, ← second.top, written_before _ _ short]

/-- What was pushed lies on top of what lay there. -/
theorem Pushed.holds {n : Machine} (pushed : Pushed segments m n bytes)
    (short : (bytes ++ rest).length ≤ 2 ^ 32)
    (holds : HoldsAt m.memory (m.stackTop segments) rest) :
    HoldsAt n.memory (n.stackTop segments) (bytes ++ rest) := by
  rw [pushed.memory]
  refine holds_written_before short ?_
  rw [pushed.top]
  exact holds

/-- What was pushed is on top. -/
theorem Pushed.on_top {n : Machine} (pushed : Pushed segments m n bytes)
    (short : bytes.length ≤ 2 ^ 32) : HoldsAt n.memory (n.stackTop segments) bytes := by
  rw [pushed.memory]
  exact written_holds _ _ short

/-- Nothing but the top of the stack is written to. -/
theorem Pushed.elsewhere {n : Machine} (pushed : Pushed segments m n bytes) {place : BitVec 32}
    (outside : bytes.length ≤ (place - n.stackTop segments).toNat) :
    n.memory place = m.memory place := by
  rw [pushed.memory, written_other outside]

/-- Elements that all have an image. -/
theorem mapM_some {α β : Type} {f : α → Option β} {g : α → β} {l : List α}
    (each : ∀ a ∈ l, f a = some (g a)) : l.mapM f = some (l.map g) := by
  induction l with
  | nil => rfl
  | cons a l ih =>
    rw [List.mapM_cons, each a List.mem_cons_self,
      ih fun a member => each a (List.mem_cons_of_mem _ member)]
    rfl

/-- The bytes that are there are read. -/
theorem readBytes_holds {memory : ByteMemory} {addr : BitVec 32}
    (holds : HoldsAt memory addr (bytes ++ rest)) : readBytes memory addr bytes.length = some bytes := by
  have each : ∀ k ∈ List.range bytes.length,
      memory (addr + BitVec.ofNat 32 k) = some (bytes.getD k 0) := by
    intro k member
    have inside := List.mem_range.mp member
    rw [holds k (by rw [List.length_append]; omega), List.getElem?_append_left inside,
      List.getD_eq_getElem?_getD, List.getElem?_eq_getElem inside]
    rfl
  have same : (List.range bytes.length).map (bytes.getD · 0) = bytes := by
    apply List.ext_getElem
    · simp
    · intro k first second
      simp [List.getD_eq_getElem?_getD, second]
  rw [readBytes, mapM_some each, same]

/-- What lies on top of the stack is popped. -/
theorem popBytes_holds (holds : HoldsAt m.memory (m.stackTop segments) (bytes ++ rest)) :
    m.popBytes segments bytes.length =
      some (bytes, m.moveStack segments (BitVec.ofNat 32 bytes.length)) := by
  unfold Machine.popBytes
  rw [readBytes_holds holds]
  rfl

/-- Popping bytes leaves what lies below them on top. -/
theorem popBytes_rest (inside : m.wideStack segments = false → (low m.regs.esp).toNat + n < 2 ^ 16)
    (same : bytes.length = n) (holds : HoldsAt m.memory (m.stackTop segments) (bytes ++ rest)) :
    HoldsAt (m.moveStack segments (BitVec.ofNat 32 n)).memory
      ((m.moveStack segments (BitVec.ofNat 32 n)).stackTop segments) rest := by
  have top : (m.moveStack segments (BitVec.ofNat 32 n)).stackTop segments =
      m.stackTop segments + BitVec.ofNat 32 n := by
    unfold Machine.stackTop Machine.moveStack Machine.wideStack
    dsimp only
    by_cases wide : segments.wide m.sel.ss = true
    · rw [if_pos wide, if_pos wide, if_pos wide, BitVec.add_assoc]
    · rw [if_neg wide, if_neg wide, if_neg wide, low_withLow, BitVec.add_assoc]
      have small := inside (Bool.eq_false_iff.mpr wide)
      congr 1
      apply BitVec.eq_of_toNat_eq
      rw [BitVec.toNat_setWidth, low_up small, BitVec.toNat_add, BitVec.toNat_setWidth,
        BitVec.toNat_ofNat]
      omega
  subst same
  rw [top]
  exact holds.behind bytes

end Stack

section Programs

variable {p : Process} {m n : Machine}

/-- Instructions behind which the next one is executed. -/
def Insn.straight : Insn → Bool
  | .callReg _ => false
  | .jmpFar _ _ => false
  | .retFar _ _ => false
  | .popSeg _ seg => seg ≠ .cs
  | .movToSeg seg _ => seg ≠ .cs
  | _ => true

/-- Executing one instruction after the other. -/
def executeAll (segments : Segments) : List Insn → Machine → Option Machine
  | [], m => some m
  | insn :: rest, m => (execute segments m insn).bind (executeAll segments rest)

/-- Executing some instructions and then others. -/
theorem executeAll_append (segments : Segments) (first second : List Insn) (m : Machine) :
    executeAll segments (first ++ second) m =
      (executeAll segments first m).bind (executeAll segments second) := by
  induction first generalizing m with
  | nil => rfl
  | cons insn first ih =>
    rw [List.cons_append, executeAll, executeAll]
    cases execute segments m insn with
    | none => rfl
    | some next => exact ih next

/-- Bytes that are decoded as an instruction, whatever lies behind them. -/
def Encodes (wide : Bool) (insn : Insn) (bytes : List UInt8) : Prop :=
  bytes.length ≤ longest ∧ ∀ more, decode wide (bytes ++ more) = some (insn, bytes.length)

/-- The bytes of a program. -/
def code (program : List (Insn × List UInt8)) : List UInt8 := program.flatMap Prod.snd

/-- The bytes of two programs. -/
theorem code_append (first second : List (Insn × List UInt8)) :
    code (first ++ second) = code first ++ code second := List.flatMap_append

/-- Bytes that are there are fetched first. -/
theorem fetch_holds {memory : ByteMemory} {bytes rest : List UInt8} {count : Nat}
    {addr : BitVec 32} (holds : HoldsAt memory addr (bytes ++ rest))
    (short : bytes.length ≤ count) :
    ∃ more, fetch memory count addr = bytes ++ more := by
  -- One byte after the other, as many as the instruction has.
  induction bytes generalizing count addr with
  | nil => exact ⟨_, rfl⟩
  | cons byte bytes ih =>
    cases count with
    | zero => cases short
    | succ count =>
      have here := holds 0 (Nat.succ_pos _)
      rw [BitVec.add_zero] at here
      obtain ⟨more, fetched⟩ := ih (holds.behind [byte]) (Nat.le_of_succ_le_succ short)
      refine ⟨more, ?_⟩
      rw [fetch, here]
      exact congrArg (byte :: ·) fetched

/-- Executing an instruction that is the next one. -/
theorem step_insn {insn : Insn} {bytes rest : List UInt8}
    (installed : HoldsAt p.code (m.pc p) (bytes ++ rest))
    (encodes : Encodes (p.segments.wide m.sel.cs) insn bytes) :
    step p m =
      execute p.segments { m with eip := m.eip + BitVec.ofNat 32 bytes.length } insn := by
  -- What is fetched begins with the instruction, and decoding does not look behind it.
  obtain ⟨short, decoded⟩ := encodes
  obtain ⟨more, fetched⟩ := fetch_holds installed short
  unfold step
  rw [fetched, decoded]
  rfl

/-- The instruction pointer makes no difference to an instruction that does not branch. -/
theorem execute_eip {insn : Insn} (straight : insn.straight = true) (segments : Segments)
    (m : Machine) (eip : BitVec 32) :
    execute segments { m with eip } insn = (execute segments m insn).map ({ · with eip }) := by
  cases insn with
  | callReg target => cases straight
  | jmpFar selector target => cases straight
  | retFar wide release => cases straight
  | pop wide reg =>
    show Option.map _ (Option.map _ (readBytes m.memory (m.stackTop segments) _)) = _
    simp only [execute, Machine.popBytes, Option.map_map]
    rfl
  | popSeg wide seg =>
    show Option.map _ (Option.map _ (readBytes m.memory (m.stackTop segments) _)) = _
    simp only [execute, Machine.popBytes, Option.map_map]
    rfl
  | _ => rfl

/-- An instruction that does not branch stays in its segment. -/
theorem execute_cs {insn : Insn} (straight : insn.straight = true) {segments : Segments}
    (executed : execute segments m insn = some n) : n.sel.cs = m.sel.cs ∧ n.eip = m.eip := by
  cases insn with
  | callReg target => cases straight
  | jmpFar selector target => cases straight
  | retFar wide release => cases straight
  | pop wide reg =>
    simp only [execute, Machine.popBytes, Option.map_map, Option.map_eq_some_iff] at executed
    obtain ⟨bytes, _, rfl⟩ := executed
    exact ⟨rfl, rfl⟩
  | popSeg wide seg =>
    simp only [execute, Machine.popBytes, Option.map_map, Option.map_eq_some_iff] at executed
    obtain ⟨bytes, _, rfl⟩ := executed
    refine ⟨?_, rfl⟩
    cases seg with
    | cs => cases straight
    | es => rfl
    | ss => rfl
    | ds => rfl
  | movToSeg seg source =>
    cases executed
    refine ⟨?_, rfl⟩
    cases seg with
    | cs => cases straight
    | es => rfl
    | ss => rfl
    | ds => rfl
  | _ =>
    cases executed
    exact ⟨rfl, rfl⟩

/-- The instruction pointer makes no difference to instructions that do not branch. -/
theorem executeAll_eip {insns : List Insn} (straight : ∀ insn ∈ insns, insn.straight = true)
    (segments : Segments) (m : Machine) (eip : BitVec 32) :
    executeAll segments insns { m with eip } =
      (executeAll segments insns m).map ({ · with eip }) := by
  induction insns generalizing m with
  | nil => rfl
  | cons insn insns ih =>
    have later := ih fun insn member => straight insn (List.mem_cons_of_mem _ member)
    rw [executeAll, executeAll, execute_eip (straight insn List.mem_cons_self)]
    cases execute segments m insn with
    | none => rfl
    | some next => exact later next

/-- Code that does not branch is executed from its first instruction to the last. -/
theorem runs_straight (program : List (Insn × List UInt8)) {rest : List UInt8}
    (straight : ∀ insn ∈ program.map Prod.fst, insn.straight = true)
    (encodes : ∀ pair ∈ program, Encodes (p.segments.wide m.sel.cs) pair.1 pair.2)
    (installed : HoldsAt p.code (m.pc p) (code program ++ rest))
    (ran : executeAll p.segments (program.map Prod.fst) m = some n) :
    Runs p m { n with eip := m.eip + BitVec.ofNat 32 (code program).length } := by
  -- The induction is on the program, so the machine stays quantified over.
  induction program generalizing m n with
  | nil =>
    obtain rfl : m = n := Option.some.inj ran
    have same : m.eip + BitVec.ofNat 32 (code []).length = m.eip := BitVec.add_zero _
    rw [same]
    exact .refl
  | cons pair program ih =>
    obtain ⟨insn, bytes⟩ := pair
    have whole : code ((insn, bytes) :: program) = bytes ++ code program := List.flatMap_cons
    rw [whole, List.append_assoc] at installed
    obtain ⟨k, executed, later⟩ := Option.bind_eq_some_iff.mp ran
    have plain := straight insn List.mem_cons_self
    have stepped := step_insn installed (encodes _ List.mem_cons_self)
    rw [execute_eip plain, executed] at stepped
    obtain ⟨cs, eip⟩ := execute_cs plain executed
    -- The rest is executed from where this instruction leads.
    have pc : Machine.pc p { k with eip := m.eip + BitVec.ofNat 32 bytes.length } =
        m.pc p + BitVec.ofNat 32 bytes.length := by
      unfold Machine.pc
      rw [cs, BitVec.add_assoc]
    have next := installed.behind bytes
    rw [← pc] at next
    have plain_rest := fun insn member => straight insn (List.mem_cons_of_mem _ member)
    have moved := executeAll_eip plain_rest p.segments k (m.eip + BitVec.ofNat 32 bytes.length)
    rw [later] at moved
    have onward := ih (m := { k with eip := m.eip + BitVec.ofNat 32 bytes.length }) plain_rest
      (fun pair member => cs.symm ▸ encodes pair (List.mem_cons_of_mem _ member)) next moved
    refine .head stepped ?_
    rw [whole, List.length_append, BitVec.ofNat_add, ← BitVec.add_assoc]
    exact onward

end Programs

section Lists

variable {segments : Segments} {m n : Machine} {wide : Bool}

/-- Pushing leaves all other registers as they are. -/
theorem pushBytes_get (segments : Segments) (m : Machine) (bytes : List UInt8) {reg : Reg}
    (other : reg ≠ .esp) : (m.pushBytes segments bytes).regs.get reg = m.regs.get reg := by
  cases reg with
  | esp => exact absurd rfl other
  | _ => rfl

/-- How many bytes an operand has. -/
theorem operandBytes_length (wide : Bool) (value : BitVec 32) :
    (operandBytes wide value).length = operandSize wide := by
  cases wide with
  | true => rfl
  | false => rfl

/-- Pushing registers puts the last of them on top. -/
theorem executeAll_pushes (wide : Bool) (regs : List Reg) (others : .esp ∉ regs)
    (room : m.Room segments
      (regs.reverse.flatMap fun reg => operandBytes wide (m.regs.get reg)).length)
    (short : (regs.reverse.flatMap fun reg => operandBytes wide (m.regs.get reg)).length < 2 ^ 32) :
    executeAll segments (regs.map (.push wide)) m =
      some (m.pushBytes segments
        (regs.reverse.flatMap fun reg => operandBytes wide (m.regs.get reg))) := by
  -- The first register is pushed, and the others follow from the machine that this leaves.
  induction regs generalizing m with
  | nil => exact congrArg some (pushBytes_nil segments m).symm
  | cons reg regs ih =>
    have later : .esp ∉ regs := fun member => others (List.mem_cons_of_mem _ member)
    -- The first register ends below the others, which are as they were.
    let pushed := m.pushBytes segments (operandBytes wide (m.regs.get reg))
    have same : (regs.reverse.flatMap fun reg => operandBytes wide (pushed.regs.get reg)) =
        regs.reverse.flatMap fun reg => operandBytes wide (m.regs.get reg) := by
      apply List.flatMap_congr
      intro other member
      have apart : other ≠ .esp := fun same => later (same ▸ List.mem_reverse.mp member)
      rw [pushBytes_get segments m _ apart]
    have split : ((reg :: regs).reverse.flatMap fun reg => operandBytes wide (m.regs.get reg)) =
        (regs.reverse.flatMap fun reg => operandBytes wide (m.regs.get reg)) ++
          operandBytes wide (m.regs.get reg) := by
      rw [List.reverse_cons, List.flatMap_append, List.flatMap_singleton]
    rw [split] at room short ⊢
    have room' : pushed.Room segments
        (regs.reverse.flatMap fun reg => operandBytes wide (pushed.regs.get reg)).length := by
      rw [same]
      rw [List.length_append] at room
      exact room.down
    have onward := ih later room' (by rw [same]; rw [List.length_append] at short; omega)
    rw [same] at onward
    rw [← pushBytes_pushBytes _ _ room short]
    exact onward

/-- Writing another register leaves the stack pointer. -/
theorem write_esp (m : Machine) (value : BitVec 32) {reg : Reg} (other : reg ≠ .esp) :
    (m.write wide reg value).regs.esp = m.regs.esp := by
  cases reg with
  | esp => exact absurd rfl other
  | _ => rfl

/-- A register that is not the stack pointer can be written before or after that is moved. -/
theorem moveStack_write (wide : Bool) (segments : Segments) (m : Machine) (value delta : BitVec 32) {reg : Reg}
    (other : reg ≠ .esp) :
    (m.write wide reg value).moveStack segments delta =
      (m.moveStack segments delta).write wide reg value := by
  cases reg with
  | esp => exact absurd rfl other
  | _ => rfl

/-- An operand is read as its bytes say. -/
theorem operandOf_operandBytes (wide : Bool) (before value : BitVec 32) :
    operandOf wide before (operandBytes wide value) =
      if wide then value else withLow before (low value) := by
  cases wide with
  | true => exact wordOf_alone value
  | false => exact congrArg (withLow before) (halfOf_alone (low value))

/-- A register is popped with the operand that lies on top. -/
theorem execute_pop {reg : Reg} {value : BitVec 32} {rest : List UInt8}
    (holds : HoldsAt m.memory (m.stackTop segments) (operandBytes wide value ++ rest)) :
    execute segments m (.pop wide reg) =
      some ((m.moveStack segments (BitVec.ofNat 32 (operandSize wide))).write wide reg value) := by
  have popped := popBytes_holds holds
  rw [operandBytes_length] at popped
  show Option.map _ (m.popBytes segments (operandSize wide)) = _
  rw [popped, Option.map_some]
  dsimp only
  rw [operandOf_operandBytes]
  rfl

/-- A segment register is popped with the selector that lies on top, and the rest is below it. -/
theorem execute_popSeg (seg : SegReg) {selector : BitVec 16} {rest : List UInt8} (data : seg ≠ .ss)
    (inside : m.wideStack segments = false → (low m.regs.esp).toNat + operandSize wide < 2 ^ 16)
    (holds : HoldsAt m.memory (m.stackTop segments)
      (operandBytes wide (selector.setWidth 32) ++ rest)) :
    ∃ n esp, execute segments m (.popSeg wide seg) = some n ∧
      n = { m with sel := m.sel.set selector seg, regs := { m.regs with esp } } ∧
        HoldsAt n.memory (n.stackTop segments) rest := by
  have popped := popBytes_holds holds
  have below := popBytes_rest inside (operandBytes_length wide _) holds
  rw [operandBytes_length] at popped
  have half : halfOf ((operandBytes wide (selector.setWidth 32)).getD · 0) = selector := by
    cases wide with
    | true =>
      show halfOf ((wordBytes (selector.setWidth 32)).getD · 0) = selector
      rw [halfOf_wordBytes, low_setWidth]
    | false =>
      show halfOf ((halfBytes (low (selector.setWidth 32))).getD · 0) = selector
      rw [low_setWidth, halfOf_alone]
  refine ⟨{ m.moveStack segments (BitVec.ofNat 32 (operandSize wide)) with
    sel := m.sel.set selector seg }, _, ?_, rfl, ?_⟩
  · show Option.map _ (m.popBytes segments (operandSize wide)) = _
    rw [popped, Option.map_some]
    dsimp only
    rw [half]
    rfl
  · cases seg with
    | ss => exact absurd rfl data
    | _ => exact below

/-- A far return goes where the stack says. -/
theorem execute_retFar {offset selector : BitVec 16} (release : BitVec 16) {rest : List UInt8}
    (inside : m.wideStack segments = false → (low m.regs.esp).toNat + 2 < 2 ^ 16)
    (holds : HoldsAt m.memory (m.stackTop segments)
      (halfBytes offset ++ (halfBytes selector ++ rest))) :
    execute segments m (.retFar false release) =
      some { m.moveStack segments (BitVec.ofNat 32 4 + release.setWidth 32) with
        sel := { m.sel with cs := selector }
        eip := offset.setWidth 32 } := by
  -- The offset is on top, and the selector is what lies below it.
  have size : ∀ half, (halfBytes half).length = 2 := fun _ => rfl
  have first := popBytes_holds holds
  have second := popBytes_holds (popBytes_rest inside (size offset) holds)
  rw [size] at first second
  have target : operandOf false 0 (halfBytes offset) = offset.setWidth 32 := by
    show withLow 0 (halfOf ((halfBytes offset).getD · 0)) = _
    rw [halfOf_alone, BitVec.setWidth_eq_append (show 16 ≤ 32 by decide)]
    rfl
  show Option.bind (m.popBytes segments 2) _ = _
  rw [first, Option.bind_some]
  show Option.map _ ((m.moveStack segments (BitVec.ofNat 32 2)).popBytes segments 2) = _
  rw [second, Option.map_some]
  dsimp only
  rw [moveStack_moveStack, moveStack_moveStack, halfOf_alone, target, ← BitVec.add_assoc]
  rfl

/-- The machine with these values popped into registers. -/
def Machine.popped (segments : Segments) (wide : Bool) (values : List (Reg × BitVec 32))
    (m : Machine) : Machine :=
  values.foldl (fun m pair => m.write wide pair.1 pair.2)
    (m.moveStack segments
      (BitVec.ofNat 32 (values.flatMap fun pair => operandBytes wide pair.2).length))

/-- Popping one value and then the others. -/
theorem popped_cons (segments : Segments) (wide : Bool) {reg : Reg} (value : BitVec 32)
    (values : List (Reg × BitVec 32)) (m : Machine) (other : reg ≠ .esp) :
    ((m.moveStack segments (BitVec.ofNat 32 (operandSize wide))).write wide reg value).popped
      segments wide values = m.popped segments wide ((reg, value) :: values) := by
  unfold Machine.popped
  rw [moveStack_write _ _ _ _ _ other, moveStack_moveStack, ← BitVec.ofNat_add, List.flatMap_cons,
    List.length_append, operandBytes_length]
  rfl

/-- Popping registers takes the first of them from the top, and leaves what is below them. -/
theorem executeAll_pops (wide : Bool) (values : List (Reg × BitVec 32)) {rest : List UInt8}
    (others : ∀ pair ∈ values, pair.1 ≠ .esp)
    (inside : m.wideStack segments = false →
      (low m.regs.esp).toNat + (values.flatMap fun pair => operandBytes wide pair.2).length < 2 ^ 16)
    (holds : HoldsAt m.memory (m.stackTop segments)
      ((values.flatMap fun pair => operandBytes wide pair.2) ++ rest)) :
    executeAll segments (values.map fun pair => .pop wide pair.1) m =
        some (m.popped segments wide values) ∧
      HoldsAt (m.popped segments wide values).memory
        ((m.popped segments wide values).stackTop segments) rest := by
  -- The first value is popped, and the others are found where its end was.
  induction values generalizing m with
  | nil =>
    have still : m.popped segments wide [] = m := moveStack_zero segments m
    rw [still]
    exact ⟨rfl, holds⟩
  | cons pair values ih =>
    obtain ⟨reg, value⟩ := pair
    have other : reg ≠ .esp := others _ List.mem_cons_self
    rw [List.flatMap_cons] at inside holds
    rw [List.append_assoc] at holds
    rw [List.map_cons, executeAll, execute_pop holds, Option.bind_some]
    -- The other registers are popped from what lies below.
    have size := operandBytes_length wide value
    rw [List.length_append, size] at inside
    have written_first := moveStack_write wide segments m value
      (BitVec.ofNat 32 (operandSize wide)) other
    have top : (m.write wide reg value).stackTop segments = m.stackTop segments := by
      unfold Machine.stackTop
      rw [write_esp m value other]
      rfl
    have below := popBytes_rest (m := m.write wide reg value) (n := operandSize wide)
      (fun narrow => by
        rw [write_esp m value other]
        have small := inside narrow
        omega) size (by rw [top]; exact holds)
    rw [written_first] at below
    rw [← popped_cons segments wide value values m other]
    refine ih (fun pair member => others pair (List.mem_cons_of_mem _ member)) ?_ below
    intro narrow
    have small := inside narrow
    rw [write_esp _ value other, moveStack_low (m := m) narrow, low_up (by omega)]
    omega

end Lists

end X86
