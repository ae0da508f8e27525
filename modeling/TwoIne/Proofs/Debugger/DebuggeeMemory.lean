import TwoIne.Debugger.Breakpoints
import TwoIne.Debugger.DebuggeeMemory

/-!
Both ways to write to the debuggee leave the same memory, which differs by the bytes written only,
and both ways to read give these bytes back.
-/

namespace TwoIne

open WordMemory

section Bytes

variable {memory : ByteMemory} {addr word : BitVec 32} {bytes : List UInt8} {k : Nat}

/-- The lowest eight bits are those of a full byte. -/
theorem byteMask (i : Nat) : (0xFF : BitVec 32).getLsbD i = decide (i < 8) := by
  by_cases inside : i < 32
  · have bits : ∀ i < 32, (0xFF : BitVec 32).getLsbD i = decide (i < 8) := by decide
    exact bits i inside
  · -- There are no more bits than that.
    rw [BitVec.getLsbD_of_ge _ _ (by omega)]
    exact (decide_eq_false (by omega)).symm

/-- A byte that is shifted out of its word is that byte of the word. -/
theorem shifted_byte (word : BitVec 32) (inside : k < 4) :
    (⟨(word.sshiftRight (k * 8) &&& 0xFF).setWidth 8⟩ : UInt8) = wordByte word k := by
  congr 1
  apply BitVec.eq_of_getLsbD_eq
  intro i low
  -- Only the bits of the byte are left.
  have same : k * 8 + i = 8 * k + i := by omega
  have within : 8 * k + i < 32 := by omega
  rw [BitVec.getLsbD_setWidth, BitVec.getLsbD_and, byteMask, BitVec.getLsbD_sshiftRight,
    BitVec.getLsbD_extractLsb']
  simp [low, same, within]
  omega

/-- A byte that is masked into a word replaces that byte of the word. -/
theorem masked_byte (word : BitVec 32) (byte : UInt8) {offset : Nat} (inside : k < 4)
    (within : offset < 4) :
    wordByte ((word &&& ~~~((0xFF : BitVec 32) <<< (offset * 8))) |||
      byte.toBitVec.setWidth 32 <<< (offset * 8)) k =
        if k = offset then byte else wordByte word k := by
  have bit (i : Nat) (low : i < 8) :
      ((word &&& ~~~((0xFF : BitVec 32) <<< (offset * 8))) |||
        byte.toBitVec.setWidth 32 <<< (offset * 8)).getLsbD (8 * k + i) =
          if k = offset then byte.toBitVec.getLsbD i else word.getLsbD (8 * k + i) := by
    have range : 8 * k + i < 32 := by omega
    rw [BitVec.getLsbD_or, BitVec.getLsbD_and, BitVec.getLsbD_not, BitVec.getLsbD_shiftLeft,
      BitVec.getLsbD_shiftLeft, byteMask, BitVec.getLsbD_setWidth]
    by_cases same : k = offset
    · -- The byte of the word is masked away, and the new one is put in its place.
      subst same
      have back : 8 * k + i - k * 8 = i := by omega
      have behind : ¬ 8 * k + i < k * 8 := by omega
      have small : i < 32 := by omega
      rw [back, if_pos rfl]
      simp [low, range, behind, small]
    · rw [if_neg same]
      by_cases front : 8 * k + i < offset * 8
      · simp [front, range]
      · -- The new byte has no bits that far up.
        have far : ¬ 8 * k + i - offset * 8 < 8 := by omega
        have none_there : byte.toBitVec.getLsbD (8 * k + i - offset * 8) = false :=
          BitVec.getLsbD_of_ge _ _ (by omega)
        simp [front, range, far, none_there]
  unfold wordByte
  split
  · rename_i same
    have new : (((word &&& ~~~((0xFF : BitVec 32) <<< (offset * 8))) |||
        byte.toBitVec.setWidth 32 <<< (offset * 8)).extractLsb' (8 * k) 8) = byte.toBitVec := by
      apply BitVec.eq_of_getLsbD_eq
      intro i low
      rw [BitVec.getLsbD_extractLsb', bit i low, if_pos same]
      simp [low]
    rw [new]
  · rename_i other
    congr 1
    apply BitVec.eq_of_getLsbD_eq
    intro i low
    rw [BitVec.getLsbD_extractLsb', BitVec.getLsbD_extractLsb', bit i low, if_neg other]

/-- Two bits say how far an address is behind the start of its word. -/
theorem wordOffset_val (addr : BitVec 32) : (addr &&& 3).toNat = addr.toNat % 4 := by
  have mask : (3 : BitVec 32).toNat = 2 ^ 2 - 1 := rfl
  rw [BitVec.toNat_and, mask, Nat.and_two_pow_sub_one_eq_mod]

/-- An address is the start of its word and the offset in it. -/
theorem wordAddr_add_offset (addr : BitVec 32) :
    wordAddr addr + BitVec.ofNat 32 (addr &&& 3).toNat = addr := by
  have start := wordAddr_toNat addr
  have bound := addr.isLt
  rw [wordOffset_val]
  apply BitVec.eq_of_toNat_eq
  rw [BitVec.toNat_add, BitVec.toNat_ofNat, start]
  omega

/-- An offset from the start of a word is in that word. -/
theorem wordAddr_offset {base : BitVec 32} {offset : Nat} (aligned : wordAddr base = base)
    (small : offset < 4) : wordAddr (base + BitVec.ofNat 32 offset) = base := by
  have start := wordAddr_toNat base
  have same := congrArg BitVec.toNat aligned
  have bound := base.isLt
  apply BitVec.eq_of_toNat_eq
  rw [wordAddr_toNat, BitVec.toNat_add, BitVec.toNat_ofNat]
  omega

/-- The word behind an aligned one is aligned. -/
theorem wordAddr_next {base : BitVec 32} (aligned : wordAddr base = base) :
    wordAddr (base + 4) = base + 4 := by
  have start := wordAddr_toNat base
  have same := congrArg BitVec.toNat aligned
  have bound := base.isLt
  have four : (4 : BitVec 32).toNat = 4 := rfl
  apply BitVec.eq_of_toNat_eq
  rw [wordAddr_toNat, BitVec.toNat_add, four]
  omega

/-! Byte by byte -/

/-- Writing one byte within its word. -/
theorem pokeWord_byte (byte : UInt8) (peeked : peekWord memory (wordAddr addr) = some word) :
    pokeWord memory (wordAddr addr)
      ((word &&& ~~~((0xFF : BitVec 32) <<< ((addr &&& 3).toNat * 8))) |||
        byte.toBitVec.setWidth 32 <<< ((addr &&& 3).toNat * 8)) =
      some (written memory addr [byte]) := by
  have small : (addr &&& 3).toNat < 4 := (wordOffset addr).isLt
  have place := wordAddr_add_offset addr
  rw [pokeWord_eq_written (addr &&& 3).toNat [byte] peeked
    (by rw [List.length_singleton]; omega) ?_, place]
  intro k inside
  rw [masked_byte word byte inside small]
  -- Among the bytes from the offset on only the first one is new.
  by_cases same : k = (addr &&& 3).toNat
  · rw [if_pos same, if_pos (by omega), same, Nat.sub_self]
    rfl
  · rw [if_neg same]
    split
    · rw [List.getElem?_eq_none (by rw [List.length_singleton]; omega)]
      rfl
    · rfl

/-- All bytes of a mapped range are written. -/
theorem ptraceWriteMemory_eq (short : bytes.length ≤ 2 ^ 32)
    (mapped : RangeMapped memory addr bytes.length) :
    ptraceWriteMemory memory addr bytes = (written memory addr bytes, true) := by
  -- The bytes that are left are written on top of the first one.
  induction bytes generalizing memory addr with
  | nil => rw [ptraceWriteMemory, written_nil]
  | cons byte bytes ih =>
    obtain ⟨word, peeked⟩ := mapped.first (Nat.succ_pos _)
    have poked := pokeWord_byte byte peeked
    unfold wordAddr at peeked poked
    rw [ptraceWriteMemory, peeked]
    dsimp only
    rw [poked]
    dsimp only
    rw [List.length_cons, Nat.add_comm] at mapped
    rw [List.length_cons] at short
    have behind : RangeMapped memory (addr + 1) bytes.length := mapped.behind
    rw [ih (by omega) behind.written]
    have whole : ([byte] ++ bytes).length ≤ 2 ^ 32 := by
      rw [List.length_append, List.length_singleton]
      omega
    have joined := written_append memory addr whole
    exact congrArg (fun memory => (memory, true)) joined

/-- The bytes that a mapped range holds are read. -/
theorem ptraceReadMemory_eq (mapped : RangeMapped memory addr bytes.length)
    (holds : HoldsAt memory addr bytes) :
    ptraceReadMemory memory addr bytes.length = some bytes := by
  induction bytes generalizing addr with
  | nil => rfl
  | cons byte bytes ih =>
    obtain ⟨word, peeked⟩ := mapped.first (Nat.succ_pos _)
    have small : (addr &&& 3).toNat < 4 := (wordOffset addr).isLt
    have there := peekWord_byte peeked small
    have here := holds 0 (Nat.succ_pos _)
    rw [wordAddr_add_offset] at there
    rw [BitVec.add_zero, there] at here
    have first : wordByte word (addr &&& 3).toNat = byte := Option.some.inj here
    rw [List.length_cons, Nat.add_comm] at mapped
    have behind : RangeMapped memory (addr + 1) bytes.length := mapped.behind
    have rest : HoldsAt memory (addr + 1) bytes := HoldsAt.behind [byte] holds
    unfold wordAddr at peeked
    rw [List.length_cons, ptraceReadMemory, peeked]
    dsimp only
    rw [ih behind rest, shifted_byte word small, first]
    rfl

/-! Word by word -/

/-- All bytes that remain are copied, or all behind the offset. -/
theorem copyLen_cases (remaining : Nat) (offset : Fin 4) :
    copyLen remaining offset = remaining ∧ remaining + offset.val ≤ 4 ∨
      copyLen remaining offset = 4 - offset.val ∧ 4 ≤ remaining + offset.val := by
  unfold copyLen
  split
  · exact .inl ⟨rfl, by omega⟩
  · exact .inr ⟨rfl, by omega⟩

/-- Some bytes are copied if any remain, no more than remain, and none behind the word. -/
theorem copyLen_bounds (remaining : Nat) (offset : Fin 4) :
    copyLen remaining offset ≤ remaining ∧ offset.val + copyLen remaining offset ≤ 4 ∧
      (0 < remaining → 0 < copyLen remaining offset) := by
  have inside := offset.isLt
  rcases copyLen_cases remaining offset with ⟨all, _⟩ | ⟨full, _⟩
  · omega
  · omega

/-- What is left behind a word is behind its part that was copied. -/
theorem next_word (base : BitVec 32) {offset : Fin 4} {remaining : Nat}
    (left : 0 < remaining - copyLen remaining offset) :
    base + 4 = base + BitVec.ofNat 32 offset + BitVec.ofNat 32 (copyLen remaining offset) := by
  rcases copyLen_cases remaining offset with ⟨all, _⟩ | ⟨full, _⟩
  · omega
  · have bound := offset.isLt
    have whole : offset.val + (4 - offset.val) = 4 := by omega
    rw [full, BitVec.add_assoc, ← BitVec.ofNat_add, whole]
    rfl

/-- Only the bytes that are copied into a word are changed. -/
theorem copyIntoWord_byte {offset : Nat} (inside : k < 4) :
    wordByte (copyIntoWord word offset bytes) k =
      if offset ≤ k then (bytes[k - offset]?).getD (wordByte word k) else wordByte word k :=
  wordByte_wordOf _ inside

/-- Writing words writes all bytes of a mapped range. -/
theorem writeWords_eq (len : Nat) :
    ∀ (memory : ByteMemory) (base : BitVec 32) (offset : Fin 4) (src : List UInt8),
      src.length = len → len ≤ 2 ^ 32 → wordAddr base = base →
        RangeMapped memory (base + BitVec.ofNat 32 offset) len →
          writeWords memory base offset src =
            (written memory (base + BitVec.ofNat 32 offset) src, true) := by
  -- Each word leaves fewer bytes.
  induction len using Nat.strongRecOn with
  | ind len ih =>
    intro memory base offset src length short aligned mapped
    unfold writeWords
    by_cases left : 0 < src.length
    · have same_word := wordAddr_offset aligned offset.isLt
      obtain ⟨word, peeked⟩ := mapped.first (by omega)
      rw [same_word] at peeked
      rw [if_pos left, peeked]
      dsimp only
      obtain ⟨enough, within, some_copied⟩ := copyLen_bounds src.length offset
      have progress := some_copied left
      have copied_length : (src.take (copyLen src.length offset)).length =
          copyLen src.length offset := by
        rw [List.length_take, Nat.min_eq_left enough]
      have fits : offset.val + (src.take (copyLen src.length offset)).length ≤ 4 := by
        rw [copied_length]
        exact within
      -- The part of this word is written.
      rw [pokeWord_eq_written _ _ peeked fits fun k inside => copyIntoWord_byte inside]
      dsimp only
      have rest_length : (src.drop (copyLen src.length offset)).length =
          len - copyLen src.length offset := by
        rw [List.length_drop, length]
      have whole : src.take (copyLen src.length offset) ++ src.drop (copyLen src.length offset) =
          src := List.take_append_drop _ _
      have small : (src.take (copyLen src.length offset) ++
          src.drop (copyLen src.length offset)).length ≤ 2 ^ 32 := by
        rw [whole]
        omega
      have joined := written_append memory (base + BitVec.ofNat 32 offset) small
      rw [whole, copied_length] at joined
      by_cases done : len - copyLen src.length offset = 0
      · -- It was the last word.
        have empty : src.drop (copyLen src.length offset) = [] :=
          List.eq_nil_of_length_eq_zero (rest_length.trans done)
        rw [empty, written_nil] at joined
        rw [empty, joined]
        unfold writeWords
        rfl
      · have next := next_word base (by omega : 0 < src.length - copyLen src.length offset)
        have start : base + 4 + BitVec.ofNat 32 (0 : Fin 4) = base + 4 := BitVec.add_zero _
        have behind : RangeMapped memory (base + 4 + BitVec.ofNat 32 (0 : Fin 4))
            (len - copyLen src.length offset) := by
          have split_len : len = copyLen src.length offset +
              (len - copyLen src.length offset) := by omega
          rw [split_len] at mapped
          have rest := mapped.behind
          rw [← next, ← start] at rest
          exact rest
        rw [ih _ (by omega) _ _ 0 _ rest_length (by omega) (wordAddr_next aligned) behind.written,
          start, next, joined]
    · -- Nothing is left to write.
      have empty : src = [] := List.eq_nil_of_length_eq_zero (by omega)
      rw [if_neg left, empty, written_nil]

/-- Bytes that a word holds from an offset on are copied out of it. -/
theorem copyFromWord_eq {base : BitVec 32} {offset count : Nat}
    (peeked : peekWord memory base = some word) (fits : offset + count ≤ 4)
    (enough : count ≤ bytes.length)
    (holds : HoldsAt memory (base + BitVec.ofNat 32 offset) bytes) :
    copyFromWord word offset count = bytes.take count := by
  apply List.ext_getElem?
  intro k
  unfold copyFromWord
  by_cases inside : k < count
  · have here := holds k (by omega)
    rw [BitVec.add_assoc, ← BitVec.ofNat_add, peekWord_byte peeked (by omega)] at here
    rw [List.getElem?_map, List.getElem?_range inside, List.getElem?_take_of_lt inside, ← here]
    rfl
  · -- Both lists end there.
    rw [List.getElem?_eq_none, List.getElem?_eq_none]
    · rw [List.length_take]
      omega
    · rw [List.length_map, List.length_range]
      omega

/-- Reading words reads the bytes that a mapped range holds. -/
theorem readWords_eq (len : Nat) :
    ∀ (base : BitVec 32) (offset : Fin 4) (bytes : List UInt8), bytes.length = len →
      wordAddr base = base → RangeMapped memory (base + BitVec.ofNat 32 offset) len →
        HoldsAt memory (base + BitVec.ofNat 32 offset) bytes →
          readWords memory base offset len = some bytes := by
  induction len using Nat.strongRecOn with
  | ind len ih =>
    intro base offset bytes length aligned mapped holds
    unfold readWords
    by_cases left : 0 < len
    · have same_word := wordAddr_offset aligned offset.isLt
      obtain ⟨word, peeked⟩ := mapped.first left
      rw [same_word] at peeked
      rw [if_pos left, peeked]
      dsimp only
      obtain ⟨short, fits, some_copied⟩ := copyLen_bounds len offset
      have progress := some_copied left
      have enough : copyLen len offset ≤ bytes.length := length ▸ short
      have copied_length : (bytes.take (copyLen len offset)).length = copyLen len offset := by
        rw [List.length_take, Nat.min_eq_left enough]
      have whole : bytes.take (copyLen len offset) ++ bytes.drop (copyLen len offset) = bytes :=
        List.take_append_drop _ _
      rw [copyFromWord_eq peeked fits enough holds]
      by_cases done : len - copyLen len offset = 0
      · -- It was the last word.
        have empty : bytes.drop (copyLen len offset) = [] := by
          apply List.eq_nil_of_length_eq_zero
          rw [List.length_drop]
          omega
        rw [empty] at whole
        rw [done]
        unfold readWords
        exact congrArg some whole
      · have next := next_word base (by omega : 0 < len - copyLen len offset)
        have start : base + 4 + BitVec.ofNat 32 (0 : Fin 4) = base + 4 := BitVec.add_zero _
        have split_len : len = copyLen len offset + (len - copyLen len offset) := by omega
        rw [← whole] at holds
        have rest := HoldsAt.behind _ holds
        rw [copied_length, ← next, ← start] at rest
        rw [split_len] at mapped
        have behind := mapped.behind
        rw [← next, ← start] at behind
        rw [ih _ (by omega) _ 0 (bytes.drop (copyLen len offset))
          (by rw [List.length_drop]; omega) (wordAddr_next aligned) behind rest]
        exact congrArg some whole
    · have empty : bytes = [] := List.eq_nil_of_length_eq_zero (by omega)
      rw [if_neg left, empty]

end Bytes

/-- Memory is mapped in whole words, as pages are made of such. -/
def WholeWords (memory : ByteMemory) : Prop :=
  ∀ place, (memory place).isSome → wordMapped memory (wordAddr place) = true

/-- The words of accessible bytes are mapped. -/
theorem WholeWords.range {memory : ByteMemory} (whole : WholeWords memory) {addr : BitVec 32}
    {len : Nat} (accessible : ∀ k < len, (memory (addr + BitVec.ofNat 32 k)).isSome) :
    RangeMapped memory addr len :=
  fun k inside => whole _ (accessible k inside)

/-- Writing a single byte is what the breakpoints take it for. -/
theorem ptraceWriteMemory_byte {memory : ByteMemory} (whole : WholeWords memory)
    (addr : BitVec 32) (byte : UInt8) :
    ptraceWriteMemory memory addr [byte] =
      match ptraceWriteByte memory addr byte with
      | some after => (after, true)
      | none => (memory, false) := by
  unfold ptraceWriteByte
  by_cases mapped : (memory addr).isSome
  · rw [if_pos mapped, ptraceWriteMemory_eq (by simp)]
    · -- The one byte is all that is replaced.
      congr 1
      funext place
      unfold written
      by_cases same : place = addr
      · rw [same, Function.update_self, BitVec.sub_self]
        rfl
      · rw [Function.update_of_ne same, List.getElem?_eq_none]
        · rfl
        · rw [List.length_singleton]
          have apart : (place - addr).toNat ≠ 0 := by
            intro zero
            exact same (by bv_omega)
          omega
    · intro k inside
      obtain rfl : k = 0 := by simpa using inside
      rw [BitVec.add_zero]
      exact whole _ mapped
  · rw [if_neg mapped]
    -- A word with an unmapped byte cannot be read.
    have unread : peekWord memory (addr &&& ~~~3) = none := by
      unfold peekWord
      rw [if_neg]
      intro there
      have bits := of_decide_eq_true there (addr &&& 3).toNat (wordOffset addr).isLt
      have place := wordAddr_add_offset addr
      unfold wordAddr at place
      rw [place] at bits
      exact mapped bits
    rw [ptraceWriteMemory, unread]

/--
Both ways to write accessible memory leave the same memory. It holds the bytes that were written,
and others are as they were; both ways to read give the bytes back.
-/
theorem debuggee_writes_agree {memory : ByteMemory} (whole : WholeWords memory) (addr : BitVec 32)
    {bytes : List UInt8} (short : bytes.length < 2 ^ 32)
    (accessible : ∀ k < bytes.length, (memory (addr + BitVec.ofNat 32 k)).isSome) :
    ∃ after, ptraceWriteMemory memory addr bytes = (after, true) ∧
      ptraceWriteMem memory addr bytes = (after, true) ∧
      (∀ k < bytes.length, after (addr + BitVec.ofNat 32 k) = bytes[k]?) ∧
      (∀ place, bytes.length ≤ (place - addr).toNat → after place = memory place) ∧
      ptraceReadMemory after addr bytes.length = some bytes ∧
      ptraceReadMem after addr bytes.length = some bytes := by
  have mapped := whole.range accessible
  have start : wordAddr addr + BitVec.ofNat 32 (wordOffset addr) = addr := wordAddr_add_offset addr
  have aligned := wordAddr_wordAddr addr
  have holds := written_holds memory addr (Nat.le_of_lt short)
  refine ⟨written memory addr bytes, ptraceWriteMemory_eq (Nat.le_of_lt short) mapped, ?_, holds,
    fun place outside => written_other outside, ptraceReadMemory_eq mapped.written holds, ?_⟩
  · -- The words begin with that of the address.
    have words := writeWords_eq bytes.length memory (wordAddr addr) (wordOffset addr) bytes rfl
      (Nat.le_of_lt short) aligned (by rw [start]; exact mapped)
    rw [start] at words
    exact words
  · exact readWords_eq bytes.length (wordAddr addr) (wordOffset addr) bytes rfl aligned
      (by rw [start]; exact mapped.written) (by rw [start]; exact holds)

/-- Memory that is mapped everywhere is mapped in whole words. -/
theorem zeros_whole : WholeWords fun _ => some 0 := fun _ _ => decide_eq_true fun _ _ => rfl

/-- Six bytes that begin with the last one of a word, and end with the first one of another. -/
theorem six_bytes_agree :
    ∃ after, ptraceWriteMemory (fun _ => some 0) 0x1003 [1, 2, 3, 4, 5, 6] = (after, true) ∧
      ptraceWriteMem (fun _ => some 0) 0x1003 [1, 2, 3, 4, 5, 6] = (after, true) ∧
      (∀ k < 6, after (0x1003 + BitVec.ofNat 32 k) = [1, 2, 3, 4, 5, 6][k]?) ∧
      (∀ place : BitVec 32, 6 ≤ (place - 0x1003).toNat → after place = some 0) ∧
      ptraceReadMemory after 0x1003 6 = some [1, 2, 3, 4, 5, 6] ∧
      ptraceReadMem after 0x1003 6 = some [1, 2, 3, 4, 5, 6] :=
  debuggee_writes_agree zeros_whole 0x1003 (by decide) fun _ _ => rfl

end TwoIne
