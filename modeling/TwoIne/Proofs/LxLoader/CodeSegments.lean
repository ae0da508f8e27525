import TwoIne.LxLoader.CodeSegments

/-!
The scan for far jumps stays inside its block, and changes exactly the leftmost jumps that do not
overlap.
-/

namespace TwoIne

open ByteBlocks

/-- A far jump to the code segment 0x5B starts here: seven bytes, four of them any. -/
def JumpsAt (mem : List UInt8) (i : Nat) : Prop :=
  mem[i]? = some 0xEA ∧ mem[i + 5]? = some 0x5B ∧ mem[i + 6]? = some 0x00

/--
The leftmost jumps that do not overlap, from a place on: each jump is one of them unless an earlier
one of them reaches into it.
-/
def LeftmostJumps (mem : List UInt8) (start : Nat) (taken : Nat → Prop) : Prop :=
  ∀ i, taken i ↔ start ≤ i ∧ JumpsAt mem i ∧ ∀ j < i, taken j → j + 7 ≤ i

/-- Only the code segments of some jumps are changed, to the one of the host. -/
structure JumpsChanged (originalCs : Nat) (taken : Nat → Prop) (mem out : List UInt8) : Prop where
  length : out.length = mem.length
  low : ∀ i, taken i → out[i + 5]? = some (UInt8.ofNat originalCs)
  high : ∀ i, taken i → out[i + 6]? = some (UInt8.ofNat (originalCs / 256))
  others : ∀ k, (∀ i, taken i → k ≠ i + 5 ∧ k ≠ i + 6) → out[k]? = mem[k]?

section Jumps

variable {mem out : List UInt8} {start originalCs : Nat} {taken others : Nat → Prop}

/-- Which jumps are the leftmost ones is determined by the block. -/
theorem LeftmostJumps.unique (left : LeftmostJumps mem start taken)
    (right : LeftmostJumps mem start others) (i : Nat) : taken i ↔ others i := by
  -- Whether a jump is taken depends on those in front of it only.
  induction i using Nat.strongRecOn with
  | ind i ih =>
    rw [left, right]
    constructor
    · intro jump
      exact ⟨jump.1, jump.2.1, fun j before there => jump.2.2 j before ((ih j before).mpr there)⟩
    · intro jump
      exact ⟨jump.1, jump.2.1, fun j before there => jump.2.2 j before ((ih j before).mp there)⟩

/-- The code segment of a jump is inside of the block, and nothing else is changed with it. -/
theorem storeBytes_segment {i : Nat} (inside : i + 2 ≤ mem.length) (originalCs : Nat) :
    storeBytes mem i (littleBytes 2 originalCs) =
      some ((mem.set i (UInt8.ofNat originalCs)).set (i + 1) (UInt8.ofNat (originalCs / 256))) := by
  -- Both bytes are written one after the other.
  rw [littleBytes, littleBytes, littleBytes, storeBytes, if_pos (by omega), storeBytes,
    if_pos (by rw [List.length_set]; omega)]
  rfl

/-- Where no jump starts the scan goes on with the next byte. -/
theorem LeftmostJumps.skip (jumps : LeftmostJumps mem (start + 1) taken)
    (none_here : ¬ JumpsAt mem start) : LeftmostJumps mem start taken := by
  intro i
  rw [jumps]
  constructor
  · exact fun later => ⟨by omega, later.2⟩
  · intro here
    refine ⟨?_, here.2⟩
    -- The place itself is none of them.
    have other : i ≠ start := by
      intro same
      exact none_here (same ▸ here.2.1)
    omega

/-- A jump that is taken, with those behind it in what is left of the block. -/
theorem LeftmostJumps.take (jumps : LeftmostJumps out (start + 7) taken) (here : JumpsAt mem start)
    (same : ∀ k, start + 7 ≤ k → out[k]? = mem[k]?) :
    LeftmostJumps mem start fun i => i = start ∨ taken i := by
  have later {i : Nat} (behind : start + 7 ≤ i) : JumpsAt out i ↔ JumpsAt mem i := by
    -- What is behind the jump was not changed.
    unfold JumpsAt
    rw [same i behind, same (i + 5) (by omega), same (i + 6) (by omega)]
  intro i
  constructor
  · intro taken_here
    rcases taken_here with first | rest
    · -- Nothing is in front of the first one.
      subst first
      refine ⟨Nat.le_refl _, here, fun j before there => ?_⟩
      rcases there with same_place | behind
      · omega
      · have far := ((jumps j).mp behind).1
        omega
    · obtain ⟨far, jump, apart⟩ := (jumps i).mp rest
      refine ⟨by omega, (later far).mp jump, fun j before there => ?_⟩
      rcases there with same_place | behind
      · omega
      · exact apart j before behind
  · intro jump
    obtain ⟨_, found, apart⟩ := jump
    by_cases first : i = start
    · exact .inl first
    · have far := apart start (by omega) (.inl rfl)
      exact .inr ((jumps i).mpr ⟨far, (later far).mpr found, fun j before there =>
        apart j before (.inr there)⟩)

/-- Where fewer bytes are left than a jump takes, none is left. -/
theorem LeftmostJumps.nil (short : mem.length < start + 7) :
    LeftmostJumps mem start fun _ => False := by
  intro i
  refine ⟨False.elim, fun jump => ?_⟩
  -- The last byte of a jump would have to be in the block.
  have inside := (List.getElem?_eq_some_iff.mp jump.2.1.2.2).1
  omega

/-- What is changed for the jumps behind the first one is changed on top of the first one. -/
theorem JumpsChanged.cons {originalCs : Nat} {rest : List UInt8}
    (behind : ∀ i, taken i → start + 7 ≤ i) (inside : start + 7 ≤ mem.length)
    (changed : JumpsChanged originalCs taken
      ((mem.set (start + 5) (UInt8.ofNat originalCs)).set (start + 6)
        (UInt8.ofNat (originalCs / 256))) rest) :
    JumpsChanged originalCs (fun i => i = start ∨ taken i) mem rest := by
  -- The jumps behind do not reach into the first one.
  have apart (k : Nat) (front : k < start + 7) : ∀ i, taken i → k ≠ i + 5 ∧ k ≠ i + 6 := by
    intro i there
    have far := behind i there
    omega
  constructor
  · rw [changed.length, List.length_set, List.length_set]
  · intro i jump
    rcases jump with first | later
    · subst first
      rw [changed.others (i + 5) (apart _ (by omega)), List.getElem?_set_ne (by omega),
        List.getElem?_set_self (by omega)]
    · exact changed.low i later
  · intro i jump
    rcases jump with first | later
    · subst first
      rw [changed.others (i + 6) (apart _ (by omega)),
        List.getElem?_set_self (by rw [List.length_set]; omega)]
    · exact changed.high i later
  · intro k other
    have elsewhere := other start (.inl rfl)
    rw [changed.others k fun i there => other i (.inr there),
      List.getElem?_set_ne (Ne.symm elsewhere.2), List.getElem?_set_ne (Ne.symm elsewhere.1)]

/-- What a scan leaves of a block, from a place on. -/
def ScanLeaves (originalCs : Nat) (mem : List UInt8) (start : Nat) (scan : Option (List UInt8)) :
    Prop :=
  ∃ out taken, scan = some out ∧ LeftmostJumps mem start taken ∧
    JumpsChanged originalCs taken mem out

/-- A scan that goes on with the next byte, as no jump starts here. -/
theorem ScanLeaves.skip {scan : Option (List UInt8)}
    (rest : ScanLeaves originalCs mem (start + 1) scan) (none_here : ¬ JumpsAt mem start) :
    ScanLeaves originalCs mem start scan := by
  obtain ⟨out, taken, done, jumps, changed⟩ := rest
  exact ⟨out, taken, done, jumps.skip none_here, changed⟩

/-- A scan that goes on behind the jump that starts here. -/
theorem ScanLeaves.take {scan : Option (List UInt8)} (here : JumpsAt mem start)
    (rest : ScanLeaves originalCs
      ((mem.set (start + 5) (UInt8.ofNat originalCs)).set (start + 6)
        (UInt8.ofNat (originalCs / 256))) (start + 7) scan) :
    ScanLeaves originalCs mem start scan := by
  obtain ⟨out, taken, done, jumps, changed⟩ := rest
  have inside := (List.getElem?_eq_some_iff.mp here.2.2).1
  refine ⟨out, _, done, jumps.take here fun k far => ?_,
    changed.cons (fun i there => ((jumps i).mp there).1) (by omega)⟩
  -- The code segment of the jump is in front of all that is scanned later.
  rw [List.getElem?_set_ne (by omega), List.getElem?_set_ne (by omega)]

/-- The scan from a place on, with as many bytes to be left as the block has behind it. -/
theorem fixupLinearCodeSegmentReferences_leaves (size : Nat) :
    ∀ (mem : List UInt8) (addr : Nat), addr + size = mem.length →
      ScanLeaves originalCs mem addr
        (fixupLinearCodeSegmentReferences originalCs mem addr size) := by
  -- Each turn of the loop leaves fewer bytes, also where it goes on behind a jump.
  induction size using Nat.strongRecOn with
  | ind size ih =>
    intro mem addr whole
    unfold fixupLinearCodeSegmentReferences
    by_cases enough : 7 ≤ size
    · have opcode : mem[addr]? = some mem[addr] := List.getElem?_eq_getElem (by omega)
      have lower : mem[addr + 1 + 4]? = some mem[addr + 5] := List.getElem?_eq_getElem (by omega)
      have upper : mem[addr + 1 + 5]? = some mem[addr + 6] := List.getElem?_eq_getElem (by omega)
      have next := ih (size - 1) (by omega) mem (addr + 1) (by omega)
      rw [if_pos enough, opcode]
      dsimp only
      by_cases jump : mem[addr] = 0xEA
      · rw [if_pos jump, lower]
        dsimp only
        by_cases low : mem[addr + 5] = 0x5B
        · rw [if_pos low, upper]
          dsimp only
          by_cases high : mem[addr + 6] = 0x00
          · rw [if_pos high, storeBytes_segment (by omega)]
            -- The jump is changed, and the scan goes on behind it.
            refine ScanLeaves.take ⟨?_, ?_, ?_⟩ ?_
            · rw [opcode, jump]
            · exact lower.trans (congrArg some low)
            · exact upper.trans (congrArg some high)
            · apply ih (size - 1 - 6) (by omega)
              rw [List.length_set, List.length_set]
              omega
          · rw [if_neg high]
            refine next.skip fun here => high ?_
            exact Option.some.inj (upper.symm.trans here.2.2)
        · rw [if_neg low]
          refine next.skip fun here => low ?_
          exact Option.some.inj (lower.symm.trans here.2.1)
      · rw [if_neg jump]
        refine next.skip fun here => jump ?_
        exact Option.some.inj (opcode.symm.trans here.1)
    · rw [if_neg enough]
      -- Too few bytes are left for a jump.
      exact ⟨mem, _, rfl, LeftmostJumps.nil (by omega),
        ⟨rfl, fun _ => False.elim, fun _ => False.elim, fun _ _ => rfl⟩⟩

end Jumps

/--
The scan of a whole block makes no access outside of it. It changes the code segments of the
leftmost jumps that do not overlap, and no other byte.
-/
theorem far_jumps_changed (originalCs : Nat) (mem : List UInt8) :
    ∃ out taken, fixupLinearCodeSegmentReferences originalCs mem 0 mem.length = some out ∧
      LeftmostJumps mem 0 taken ∧ JumpsChanged originalCs taken mem out :=
  fixupLinearCodeSegmentReferences_leaves mem.length mem 0 (Nat.zero_add _)

/-- The opcode of a jump inside of another one is not one of a jump of its own. -/
example : fixupLinearCodeSegmentReferences 0x23
    [0xEA, 0xEA, 0, 0, 0, 0x5B, 0x00, 0x5B, 0x00] 0 9 =
      some [0xEA, 0xEA, 0, 0, 0, 0x23, 0x00, 0x5B, 0x00] := by
  simp [fixupLinearCodeSegmentReferences, storeBytes, littleBytes]

end TwoIne
