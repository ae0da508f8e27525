import TwoIne.Proofs.Debugger.LineReaders

/-!
Line number programs as the two passes take them.

Each pass takes an operation in one turn of its loop. The second one runs a machine of its own,
which differs from the one of DWARF 2 in one operation.
-/

namespace TwoIne

open Regions Leb128 DwarfLines

/-- The numbers of an operation that are read digit by digit. -/
def LineOp.numbers : LineOp → List Leb
  | .advancePc operand | .advanceLine operand | .setFile operand | .setColumn operand => [operand]
  | .standard _ operands => operands
  | .endSequence length | .setAddress length _ | .setSegment length _ _ | .defineFile length _
  | .extended length _ _ => [length]
  | _ => []

/-- Whether all numbers of an operation fit in a word. -/
def LineOp.Shorts (op : LineOp) : Prop := ∀ n ∈ LineOp.numbers op, Short n

instance (op : LineOp) : Decidable (LineOp.Shorts op) :=
  inferInstanceAs (Decidable (∀ n ∈ LineOp.numbers op, Short n))

/-- Whether the first pass counts a row for an operation. -/
def LineOp.counted : LineOp → Bool
  | .setAddress .. | .setSegment .. | .defineFile .. | .extended .. => false
  | _ => true

/-- An operation that puts out a row is counted. -/
theorem counted_of_putsRow {op : LineOp} (puts : op.putsRow = true) : LineOp.counted op = true := by
  cases op <;> simp_all [LineOp.putsRow, LineOp.counted]

/-- What the second pass does to the registers. -/
def LineOp.runParsed (header : LineHeader) (op : LineOp) (r : Registers) : Registers :=
  match op with
  | .constAddPc =>
    { r with
      address := r.address +
        BitVec.ofNat 32 ((header.opcodeBase.toNat - 1) * header.minInstLength.toNat)
      line := r.line + BitVec.ofNat 32 header.lineRange.toNat }
  | op => op.run header r

/-- The header fields of a program, with the places of the operand counts and of the files. -/
def programHeader (header : LineHeader) (lengths : Nat) (fileMap : List Nat) : ProgramHeader :=
  ⟨header.minInstLength, header.lineBase, header.lineRange, header.opcodeBase, lengths, fileMap⟩

/-- The file index that is stored for a file number. -/
def mappedFile (fileMap : List Nat) (file : BitVec 32) : Int :=
  if 0 < file.toInt ∧ file.toInt < 256 then (fileMap[file.toNat]?.getD 0 : Nat) else file.toInt

/-- A row as it is stored. -/
def entryOf (fileMap : List Nat) (row : Row) : DwarfLineEntry :=
  ⟨row.registers.segment, row.registers.address, row.registers.line,
    mappedFile fileMap row.registers.file, row.endSequence⟩

/-- A table of a given size with some rows stored. -/
def filled (total : Nat) (rows : List DwarfLineEntry) : LineStore :=
  ⟨rows ++ List.replicate (total - rows.length) ({} : DwarfLineEntry), rows.length⟩

variable {sec : Region} {p progEnd lengths total steps : Nat} {rest : List UInt8}
  {header : LineHeader} {fileMap : List Nat} {rows : List DwarfLineEntry} {r : Registers}
  {op : LineOp}

/-! Storing a row -/

/-- Every file number that the map is asked for has a place in it. -/
theorem storedFile_eq (size : fileMap.length = 256) (file : BitVec 32) :
    storedFile fileMap file = .ok (mappedFile fileMap file) := by
  unfold storedFile mappedFile
  split
  · rename_i within
    have number : (file.toNat : Int) = file.toInt := by
      rw [BitVec.toInt_eq_toNat_cond] at within ⊢
      have bound := file.isLt
      split at within
      · rw [if_pos (by assumption)]
      · omega
    have found : fileMap[file.toNat]? = some fileMap[file.toNat] :=
      List.getElem?_eq_getElem (by omega)
    rw [found]
    rfl
  · rfl

/-- A row is stored behind the others. -/
theorem storeRow_filled (size : fileMap.length = 256) (room : rows.length < total)
    (endSequence : Bool) :
    storeRow (programHeader header lengths fileMap) r endSequence (filled total rows) =
      .ok (filled total (rows ++ [entryOf fileMap ⟨r, endSequence⟩])) := by
  have place : total - rows.length = total - (rows.length + 1) + 1 := by omega
  have fits : (filled total rows).entryIdx < (filled total rows).lines.length := by
    simp only [filled, List.length_append, List.length_replicate]
    omega
  have file : storedFile (programHeader header lengths fileMap).fileMap r.file =
      .ok (mappedFile fileMap r.file) := storedFile_eq size r.file
  rw [storeRow, file]
  simp only [bind, Except.bind, if_pos fits, pure, Except.pure]
  simp only [filled, place, List.replicate_succ, List.length_append, List.length_cons,
    List.length_nil, Nat.zero_add]
  rw [List.set_append_right _ _ (Nat.le_refl _), Nat.sub_self]
  simp [entryOf]

/-! Standard operations -/

/-- Moving over operands that the section holds. -/
theorem skipOperands_holds {operands : List Leb}
    (holds : Holds sec p (operands.flatMap Leb.bytes ++ rest)) :
    skipOperands sec operands.length p =
      if ∀ n ∈ operands, Short n then .ok (p + (operands.flatMap Leb.bytes).length)
      else .error .shift := by
  -- The first operand that is too long stops the pass.
  induction operands generalizing p with
  | nil => simp [skipOperands]
  | cons n operands ih =>
    rw [List.flatMap_cons, List.append_assoc] at holds
    rw [List.length_cons, skipOperands]
    by_cases short : Short n
    · have next := holds.behind
      rw [Leb.length_bytes] at next
      rw [readUleb128_holds holds short]
      simp only [bind, Except.bind]
      rw [ih next]
      simp only [List.forall_mem_cons, short, true_and, List.flatMap_cons, List.length_append,
        Leb.length_bytes, Nat.add_assoc]
    · have long : ¬ ∀ m ∈ n :: operands, Short m := fun all => short (all n List.mem_cons_self)
      rw [readUleb128_long holds short, if_neg long]
      rfl

/-- Moving over the operands of an opcode without a meaning. -/
theorem skipUnknown_holds {opcode : UInt8} {operands : List Leb}
    (valid : (LineOp.standard opcode operands).Valid header)
    (counts : Holds sec lengths header.standardOpcodeLengths)
    (holds : Holds sec p (operands.flatMap Leb.bytes ++ rest)) :
    skipUnknown sec lengths opcode p =
      if ∀ n ∈ operands, Short n then .ok (p + (operands.flatMap Leb.bytes).length)
      else .error .shift := by
  obtain ⟨_, _, found, few⟩ := valid
  have count : operands.length.toUInt8.toNat = operands.length := Nat.mod_eq_of_lt few
  rw [skipUnknown, readByte_at counts found]
  simp only [bind, Except.bind, count]
  exact skipOperands_holds holds

/-- The opcodes of the standard operations that have a meaning. -/
theorem standard_opcode {opcode : UInt8} (far : 10 ≤ opcode) : 10 ≤ opcode.toNat := by
  simpa [UInt8.le_iff_toNat_le] using far

/-- Moving over the operands of a standard operation. -/
theorem skipStandard_holds (plain : op.extendedParts = none) (other : ∀ code, op ≠ .special code)
    (valid : op.Valid header) (counts : Holds sec lengths header.standardOpcodeLengths)
    (holds : Holds sec p (op.operands ++ rest)) :
    skipStandard sec lengths op.opcode p =
      if LineOp.Shorts op then .ok (p + op.operands.length) else .error .shift := by
  cases op with
  | copy | negateStmt | setBasicBlock | constAddPc =>
    simp [skipStandard, LineOp.opcode, LineOp.Shorts, LineOp.numbers, LineOp.operands]
  | advancePc n | setFile n | setColumn n =>
    simp only [LineOp.operands] at holds
    by_cases short : Short n
    · simp [skipStandard, LineOp.opcode, LineOp.Shorts, LineOp.numbers, LineOp.operands, short,
        readUleb128_holds holds short, bind, Except.bind, pure, Except.pure]
    · simp [skipStandard, LineOp.opcode, LineOp.Shorts, LineOp.numbers, short, readUleb128_long holds short, bind,
        Except.bind]
  | advanceLine n =>
    simp only [LineOp.operands] at holds
    by_cases short : Short n
    · obtain ⟨word, read, _⟩ := readSleb128_holds holds short
      simp [skipStandard, LineOp.opcode, LineOp.Shorts, LineOp.numbers, LineOp.operands, short, read, bind,
        Except.bind, pure, Except.pure]
    · simp [skipStandard, LineOp.opcode, LineOp.Shorts, LineOp.numbers, short, readSleb128_long holds short, bind,
        Except.bind]
  | fixedAdvancePc value =>
    simp only [LineOp.operands] at holds
    have moved : advance p 2 = p + 2 := holds.advance (by simp [le16])
    simp [skipStandard, LineOp.opcode, LineOp.Shorts, LineOp.numbers, LineOp.operands, moved, le16]
  | standard code operands =>
    have far := standard_opcode valid.1
    have step : skipStandard sec lengths code p = skipUnknown sec lengths code p := by
      unfold skipStandard
      split <;> first | omega | rfl
    simp only [LineOp.opcode, LineOp.operands, step] at holds ⊢
    exact skipUnknown_holds valid counts holds
  | special code => exact absurd rfl (other code)
  | endSequence | setAddress | setSegment | defineFile | extended =>
    simp [LineOp.extendedParts] at plain

/-! Extended operations -/

/-- The length of an extended operation counts its own byte and the payload. -/
theorem extended_length (valid : op.Valid header) {length : Leb} {code : UInt8}
    {payload : List UInt8} (parts : op.extendedParts = some (length, code, payload)) :
    length.value = payload.length + 1 ∧ LineOp.numbers op = [length] := by
  cases op with
  | endSequence | setAddress | setSegment =>
    simp only [LineOp.extendedParts, Option.some.injEq, Prod.mk.injEq] at parts
    obtain ⟨rfl, rfl, rfl⟩ := parts
    exact ⟨valid, rfl⟩
  | defineFile | extended =>
    simp only [LineOp.extendedParts, Option.some.injEq, Prod.mk.injEq] at parts
    obtain ⟨rfl, rfl, rfl⟩ := parts
    exact ⟨valid.1, rfl⟩
  | _ => simp [LineOp.extendedParts] at parts

/-- Only the end of a sequence has the first extended opcode. -/
theorem extended_code (valid : op.Valid header) {length : Leb} {code : UInt8}
    {payload : List UInt8} (parts : op.extendedParts = some (length, code, payload)) :
    (code = 1 ↔ LineOp.counted op = true) ∧ (code = 1 → payload = []) := by
  cases op with
  | endSequence | setAddress | defineFile =>
    simp only [LineOp.extendedParts, Option.some.injEq, Prod.mk.injEq] at parts
    obtain ⟨rfl, rfl, rfl⟩ := parts
    simp [LineOp.counted]
  | setSegment length old target =>
    simp only [LineOp.extendedParts, Option.some.injEq, Prod.mk.injEq] at parts
    obtain ⟨rfl, rfl, rfl⟩ := parts
    cases old <;> simp [LineOp.counted]
  | extended length opcode payload =>
    simp only [LineOp.extendedParts, Option.some.injEq, Prod.mk.injEq] at parts
    obtain ⟨rfl, rfl, rfl⟩ := parts
    have other : opcode ≠ 1 := fun same => valid.2 (by simp [same])
    simp [LineOp.counted, other]
  | _ => simp [LineOp.extendedParts] at parts

/-- What is behind the length of an extended operation. -/
theorem extended_holds {length : Leb} {code : UInt8} {payload : List UInt8}
    (holds : Holds sec p (0 :: (length.bytes ++ code :: payload) ++ rest)) :
    readByte sec p = .ok 0 ∧ advance p 1 = p + 1 ∧
      Holds sec (p + 1) (length.bytes ++ (code :: (payload ++ rest))) ∧
      readByte sec (p + 1 + length.size) = .ok code ∧
      advance (p + 1 + length.size) 1 = p + 1 + length.size + 1 ∧
      Holds sec (p + 1 + length.size + 1) (payload ++ rest) := by
  have starts : Holds sec p (0 :: (length.bytes ++ (code :: (payload ++ rest)))) := by
    simpa using holds
  have behind := starts.tail.behind
  rw [Leb.length_bytes] at behind
  exact ⟨readByte_holds starts, starts.advance (by simp), starts.tail, readByte_holds behind,
    behind.advance (by simp), behind.tail⟩

/-- The length that is left behind the byte of an extended operation. -/
theorem payload_length {length : Leb} {payload : List UInt8}
    (value : length.value = payload.length + 1) (inner : 0 < p)
    (holds : Holds sec p (payload ++ rest)) :
    length.value % 2 ^ 32 = payload.length + 1 ∧
      (length.value % 2 ^ 32 + (addresses - 1)) % addresses = payload.length ∧
      advance p (length.value % 2 ^ 32 + (addresses - 1)) = p + payload.length ∧
      advance p payload.length = p + payload.length := by
  have bound := holds.bound.2
  have fits := sec.fits
  simp only [Region.finish, List.length_append, addresses] at bound fits
  have within : payload.length ≤ (payload ++ rest).length := by simp
  have moved := holds.advance within
  rw [value]
  refine ⟨by omega, by simp only [addresses]; omega, ?_, moved⟩
  rw [← moved]
  simp only [advance, addresses]
  omega

/-! The first pass -/

/-- No opcode of an operation with its own byte is zero. -/
theorem opcode_ne_zero (base : header.opcodeBase ≠ 0) (valid : op.Valid header)
    (plain : op.extendedParts = none) : op.opcode ≠ 0 := by
  cases op with
  | standard code operands =>
    have far := standard_opcode valid.1
    rintro zero
    simp only [LineOp.opcode] at zero
    rw [zero] at far
    simp at far
  | special code =>
    rintro zero
    simp only [LineOp.opcode] at zero
    subst zero
    have low : header.opcodeBase ≤ 0 := valid
    exact base (UInt8.le_antisymm low (UInt8.zero_le))
  | endSequence | setAddress | setSegment | defineFile | extended =>
    simp [LineOp.extendedParts] at plain
  | _ => simp [LineOp.opcode]

/-- The opcode of an operation lies below the base unless it is a special one. -/
theorem opcode_lt_base (valid : op.Valid header) (plain : op.extendedParts = none)
    (other : ∀ code, op ≠ .special code) : op.opcode < header.opcodeBase := by
  cases op with
  | standard code operands => exact valid.2.1
  | special code => exact absurd rfl (other code)
  | endSequence | setAddress | setSegment | defineFile | extended =>
    simp [LineOp.extendedParts] at plain
  | _ => exact valid

/-- A turn of the first pass takes one operation. -/
theorem countRows_step (base : header.opcodeBase ≠ 0) (valid : op.Valid header)
    (counts : Holds sec lengths header.standardOpcodeLengths)
    (holds : Holds sec p (op.bytes ++ rest)) (within : p + op.bytes.length ≤ progEnd)
    (lineCount : Nat) :
    countRows sec header.opcodeBase lengths progEnd (steps + 1) lineCount p =
      if LineOp.Shorts op then
        countRows sec header.opcodeBase lengths progEnd steps
          (lineCount + if LineOp.counted op then 1 else 0) (p + op.bytes.length)
      else .error .shift := by
  cases parts : op.extendedParts with
  | some part =>
    -- An extended operation is skipped by its length.
    obtain ⟨length, code, payload⟩ := part
    obtain ⟨value, numbers⟩ := extended_length valid parts
    obtain ⟨counted, empty⟩ := extended_code valid parts
    simp only [LineOp.bytes, parts] at holds within ⊢
    obtain ⟨zero, moved, number, sub, behind, rest_holds⟩ := extended_holds holds
    obtain ⟨_, _, skipped, _⟩ := payload_length value (Nat.succ_pos _) rest_holds
    simp only [List.length_cons, List.length_append, Leb.length_bytes] at within ⊢
    have below : p < progEnd := by omega
    have short_iff : LineOp.Shorts op ↔ Short length := by simp [LineOp.Shorts, numbers]
    simp only [short_iff]
    rw [countRows, if_pos below, zero]
    simp only [bind, Except.bind, if_pos, moved]
    by_cases short : Short length
    · rw [readUleb128_holds number short, if_pos short]
      have inside : ¬ progEnd ≤ p + 1 + length.size := by omega
      simp only [if_neg inside, pure, Except.pure, sub, behind]
      by_cases ends : code = 1
      · have nothing := empty ends
        subst nothing
        rw [if_pos ends, if_pos (counted.mp ends), List.length_nil]
        have place : p + 1 + length.size + 1 = p + (length.size + (0 + 1) + 1) := by omega
        rw [place]
      · rw [if_neg ends, if_neg (fun again => ends (counted.mpr again)), skipped]
        have place : p + 1 + length.size + 1 + payload.length =
            p + (length.size + (payload.length + 1) + 1) := by omega
        rw [place]
        rfl
    · rw [readUleb128_long number short, if_neg short]
  | none =>
    have nonzero := opcode_ne_zero base valid parts
    simp only [LineOp.bytes, parts, List.cons_append, List.length_cons] at holds within ⊢
    have below : p < progEnd := by omega
    have moved : advance p 1 = p + 1 := holds.advance (by simp)
    rw [countRows, if_pos below, readByte_holds holds]
    simp only [bind, Except.bind, if_neg nonzero, moved]
    by_cases special : ∃ code, op = .special code
    · -- A special operation has no operands.
      obtain ⟨code, rfl⟩ := special
      have high : ¬ code < header.opcodeBase := UInt8.not_lt.mpr valid
      simp [LineOp.opcode, high, LineOp.Shorts, LineOp.numbers, LineOp.operands, LineOp.counted]
    · -- A standard one is skipped by its operands.
      simp only [not_exists] at special
      have counted : LineOp.counted op = true := by
        cases op <;> first | rfl | simp [LineOp.extendedParts] at parts
      rw [if_pos (opcode_lt_base valid parts special),
        skipStandard_holds parts special valid counts holds.tail]
      by_cases short : LineOp.Shorts op
      · have place : p + 1 + op.operands.length = p + (op.operands.length + 1) := by omega
        simp only [if_pos short, counted, if_true, place]
      · simp only [if_neg short]

/-- The first pass counts the operations of a program. -/
theorem countRows_holds {program : List LineOp} (base : header.opcodeBase ≠ 0)
    (valid : ∀ op ∈ program, op.Valid header)
    (counts : Holds sec lengths header.standardOpcodeLengths)
    (holds : Holds sec p (program.flatMap LineOp.bytes ++ rest))
    (finish : p + (program.flatMap LineOp.bytes).length = progEnd)
    (enough : program.length < steps) (lineCount : Nat) :
    countRows sec header.opcodeBase lengths progEnd steps lineCount p =
      if ∀ op ∈ program, LineOp.Shorts op then
        .ok (lineCount + program.countP LineOp.counted)
      else .error .shift := by
  -- The operations are taken one after the other.
  induction program generalizing p steps lineCount with
  | nil =>
    obtain ⟨steps, rfl⟩ := Nat.exists_eq_succ_of_ne_zero (Nat.ne_of_gt (Nat.zero_lt_of_lt enough))
    simp only [List.flatMap_nil, List.length_nil, Nat.add_zero] at finish
    simp [countRows, finish]
  | cons op program ih =>
    obtain ⟨steps, rfl⟩ := Nat.exists_eq_succ_of_ne_zero (Nat.ne_of_gt (Nat.zero_lt_of_lt enough))
    simp only [List.flatMap_cons, List.append_assoc, List.length_append] at holds finish
    rw [countRows_step base (valid op List.mem_cons_self) counts holds (by omega)]
    by_cases short : LineOp.Shorts op
    · rw [if_pos short, ih (fun op member => valid op (List.mem_cons_of_mem _ member)) holds.behind
        (by omega) (by simpa using enough)]
      have all_iff : (∀ other ∈ op :: program, LineOp.Shorts other) ↔
          ∀ other ∈ program, LineOp.Shorts other := by
        rw [List.forall_mem_cons]
        exact and_iff_right short
      have count : lineCount + (if LineOp.counted op then 1 else 0) +
          program.countP LineOp.counted = lineCount + (op :: program).countP LineOp.counted := by
        rw [List.countP_cons]
        omega
      simp only [all_iff, count]
    · rw [if_neg short, if_neg fun all => short (all op List.mem_cons_self)]

/-! The second pass -/

/-- A row that was stored behind others, if an operation puts one out. -/
def storedRow (fileMap : List Nat) (op : LineOp) (r : Registers) : List DwarfLineEntry :=
  (op.row r).toList.map (entryOf fileMap)

/-- The operand of an extended operation is read in the sizes there are. -/
theorem readTarget_holds {target : Target} (holds : Holds sec p (target.bytes ++ rest))
    (before : Nat) :
    ∃ value, readTarget sec target.bytes.length p before = .ok value ∧
      BitVec.ofNat 32 value = target.address ∧ BitVec.ofNat 16 value = target.segment := by
  cases target with
  | short value =>
    have read : readU16Le sec p = .ok value.toNat := readU16Le_holds holds
    refine ⟨value.toNat, by simpa [readTarget, Target.bytes, le16] using read, ?_, ?_⟩
    · simp [Target.address]
    · simp [Target.segment]
  | long value =>
    have read : readU32Le sec p = .ok value.toNat := readU32Le_holds holds
    refine ⟨value.toNat, by simpa [readTarget, Target.bytes, le32] using read, ?_, ?_⟩
    · simp [Target.address]
    · simp [Target.segment]

/-- An extended operation stores its row and changes the registers. -/
theorem parseExtended_holds {length : Leb} {code : UInt8} {payload : List UInt8}
    (size : fileMap.length = 256) (room : rows.length < total) (valid : op.Valid header)
    (parts : op.extendedParts = some (length, code, payload))
    (holds : Holds sec p (payload ++ rest)) :
    parseExtended sec (programHeader header lengths fileMap) code payload.length p r
        (filled total rows) =
      .ok (op.next (LineOp.runParsed header op r), filled total
        (rows ++ storedRow fileMap op (LineOp.runParsed header op r))) := by
  cases op with
  | endSequence n =>
    simp only [LineOp.extendedParts, Option.some.injEq, Prod.mk.injEq] at parts
    obtain ⟨rfl, rfl, rfl⟩ := parts
    rw [parseExtended, if_pos rfl, storeRow_filled size room]
    rfl
  | setAddress n target =>
    simp only [LineOp.extendedParts, Option.some.injEq, Prod.mk.injEq] at parts
    obtain ⟨rfl, rfl, rfl⟩ := parts
    obtain ⟨value, read, address, _⟩ := readTarget_holds holds r.address.toNat
    rw [parseExtended, if_neg (by decide), if_pos rfl, read]
    simp [bind, Except.bind, pure, Except.pure, address, LineOp.next, LineOp.runParsed, LineOp.run,
      storedRow, LineOp.row]
  | setSegment n old target =>
    simp only [LineOp.extendedParts, Option.some.injEq, Prod.mk.injEq] at parts
    obtain ⟨rfl, rfl, rfl⟩ := parts
    obtain ⟨value, read, _, segment⟩ := readTarget_holds holds r.segment.toNat
    have not_end : ¬ (if old then (4 : UInt8) else 0x80) = 1 := by cases old <;> decide
    have not_address : ¬ (if old then (4 : UInt8) else 0x80) = 2 := by cases old <;> decide
    have is_segment : (if old then (4 : UInt8) else 0x80) = 4 ∨
        (if old then (4 : UInt8) else 0x80) = 0x80 := by cases old <;> decide
    rw [parseExtended, if_neg not_end, if_neg not_address, if_pos is_segment, read]
    simp [bind, Except.bind, pure, Except.pure, segment, LineOp.next, LineOp.runParsed, LineOp.run,
      storedRow, LineOp.row]
  | defineFile n file =>
    simp only [LineOp.extendedParts, Option.some.injEq, Prod.mk.injEq] at parts
    obtain ⟨rfl, rfl, rfl⟩ := parts
    rw [parseExtended, if_neg (by decide), if_neg (by decide), if_neg (by decide)]
    simp [LineOp.next, LineOp.runParsed, LineOp.run, storedRow, LineOp.row]
  | extended n opcode bytes =>
    simp only [LineOp.extendedParts, Option.some.injEq, Prod.mk.injEq] at parts
    obtain ⟨rfl, rfl, rfl⟩ := parts
    have unknown := valid.2
    simp only [List.mem_cons, List.not_mem_nil, or_false, not_or] at unknown
    rw [parseExtended, if_neg unknown.1, if_neg unknown.2.1,
      if_neg fun either => either.elim unknown.2.2.2.1 unknown.2.2.2.2]
    simp [LineOp.next, LineOp.runParsed, LineOp.run, storedRow, LineOp.row]
  | _ => simp [LineOp.extendedParts] at parts

/-- A standard operation stores its row and changes the registers. -/
theorem parseStandard_holds (size : fileMap.length = 256) (room : rows.length < total)
    (valid : op.Valid header) (short : LineOp.Shorts op) (plain : op.extendedParts = none)
    (other : ∀ code, op ≠ .special code)
    (counts : Holds sec lengths header.standardOpcodeLengths)
    (holds : Holds sec p (op.operands ++ rest)) :
    parseStandard sec (programHeader header lengths fileMap) op.opcode p r (filled total rows) =
      .ok (p + op.operands.length, op.next (LineOp.runParsed header op r), filled total
        (rows ++ storedRow fileMap op (LineOp.runParsed header op r))) := by
  cases op with
  | copy =>
    have stored : storeRow (programHeader header lengths fileMap) r false (filled total rows) = _ :=
      storeRow_filled size room false
    simp [parseStandard, LineOp.opcode, stored, bind, Except.bind, pure, Except.pure, LineOp.next,
      LineOp.runParsed, LineOp.run, storedRow, LineOp.row, LineOp.operands]
  | negateStmt | setBasicBlock | constAddPc =>
    simp [parseStandard, LineOp.opcode, LineOp.next, LineOp.runParsed, LineOp.run, storedRow,
      LineOp.row, LineOp.operands, programHeader]
  | advancePc n =>
    have read := readUleb128_holds holds (short n (by simp [LineOp.numbers]))
    have moved : BitVec.ofNat 32 (n.value % 2 ^ 32 * header.minInstLength.toNat) =
        BitVec.ofNat 32 (n.value * header.minInstLength.toNat) := by
      apply BitVec.eq_of_toNat_eq
      simp [Nat.mod_mul_mod]
    simp only [Nat.reducePow] at read moved
    simp [parseStandard, LineOp.opcode, read, bind, Except.bind, pure, Except.pure, LineOp.next,
      LineOp.runParsed, LineOp.run, Registers.advance, storedRow, LineOp.row, LineOp.operands,
      programHeader, moved]
  | setFile n =>
    have read := readUleb128_holds holds (short n (by simp [LineOp.numbers]))
    have number : BitVec.ofNat 32 (n.value % 2 ^ 32) = BitVec.ofNat 32 n.value := by
      apply BitVec.eq_of_toNat_eq
      simp
    simp only [Nat.reducePow] at read number
    simp [parseStandard, LineOp.opcode, read, bind, Except.bind, pure, Except.pure, LineOp.next,
      LineOp.runParsed, LineOp.run, storedRow, LineOp.row, LineOp.operands, number]
  | setColumn n =>
    have read := readUleb128_holds holds (short n (by simp [LineOp.numbers]))
    simp [parseStandard, LineOp.opcode, read, bind, Except.bind, pure, Except.pure, LineOp.next,
      LineOp.runParsed, LineOp.run, storedRow, LineOp.row, LineOp.operands]
  | advanceLine n =>
    obtain ⟨word, read, bits⟩ := readSleb128_holds holds (short n (by simp [LineOp.numbers]))
    simp [parseStandard, LineOp.opcode, read, bind, Except.bind, pure, Except.pure, LineOp.next,
      LineOp.runParsed, LineOp.run, storedRow, LineOp.row, LineOp.operands, bits]
  | fixedAdvancePc value =>
    have read : readU16Le sec p = .ok value.toNat := readU16Le_holds holds
    simp only [LineOp.operands] at holds
    have moved : advance p 2 = p + 2 := holds.advance (by simp [le16])
    simp [parseStandard, LineOp.opcode, read, bind, Except.bind, pure, Except.pure, LineOp.next,
      LineOp.runParsed, LineOp.run, storedRow, LineOp.row, LineOp.operands, moved, le16]
  | standard code operands =>
    have far := standard_opcode valid.1
    have step : parseStandard sec (programHeader header lengths fileMap) code p r
        (filled total rows) = (skipUnknown sec lengths code p).bind
          fun p => .ok (p, r, filled total rows) := by
      unfold parseStandard
      split <;> first | omega | rfl
    have skipped := skipUnknown_holds valid counts holds
    have all : ∀ n ∈ operands, Short n := short
    rw [if_pos all] at skipped
    simp [LineOp.opcode, step, skipped, Except.bind, LineOp.next, LineOp.runParsed, LineOp.run,
      storedRow, LineOp.row, LineOp.operands]
  | special code => exact absurd rfl (other code)
  | endSequence | setAddress | setSegment | defineFile | extended =>
    simp [LineOp.extendedParts] at plain

/-- A special operation advances the registers and stores a row. -/
theorem parseSpecial_holds {code : UInt8} (size : fileMap.length = 256)
    (room : rows.length < total) (range : header.lineRange ≠ 0) :
    parseSpecial (programHeader header lengths fileMap) code r (filled total rows) =
      .ok (LineOp.runParsed header (.special code) r, filled total
        (rows ++ storedRow fileMap (.special code) (LineOp.runParsed header (.special code) r))) := by
  have stored : storeRow (programHeader header lengths fileMap)
      (LineOp.runParsed header (.special code) r) false (filled total rows) = _ :=
    storeRow_filled size room false
  have nonzero : ¬ (programHeader header lengths fileMap).lineRange = 0 := range
  -- The advance of the code is the one of the reference.
  have run : parseSpecial (programHeader header lengths fileMap) code r (filled total rows) =
      (storeRow (programHeader header lengths fileMap)
        (LineOp.runParsed header (.special code) r) false (filled total rows)).bind
          fun t => .ok (LineOp.runParsed header (.special code) r, t) := by
    simp only [parseSpecial, if_neg nonzero]
    rfl
  rw [run, stored]
  rfl

/-- A turn of the second pass takes one operation. -/
theorem parseProgram_step (size : fileMap.length = 256) (room : rows.length < total)
    (base : header.opcodeBase ≠ 0) (range : header.lineRange ≠ 0) (valid : op.Valid header)
    (short : LineOp.Shorts op) (counts : Holds sec lengths header.standardOpcodeLengths)
    (holds : Holds sec p (op.bytes ++ rest)) (within : p + op.bytes.length ≤ progEnd) :
    parseProgram sec (programHeader header lengths fileMap) progEnd total (steps + 1) p r
        (filled total rows) =
      parseProgram sec (programHeader header lengths fileMap) progEnd total steps
        (p + op.bytes.length) (op.next (LineOp.runParsed header op r))
        (filled total (rows ++ storedRow fileMap op (LineOp.runParsed header op r))) := by
  have entry : (filled total rows).entryIdx < total := room
  cases parts : op.extendedParts with
  | some part =>
    obtain ⟨length, code, payload⟩ := part
    obtain ⟨value, numbers⟩ := extended_length valid parts
    simp only [LineOp.bytes, parts] at holds within ⊢
    obtain ⟨zero, moved, number, sub, behind, rest_holds⟩ := extended_holds holds
    obtain ⟨_, left, _, skipped⟩ := payload_length value (Nat.succ_pos _) rest_holds
    simp only [List.length_cons, List.length_append, Leb.length_bytes] at within ⊢
    have below : p < progEnd := by omega
    have is_short : Short length := short length (by simp [numbers])
    have extended : parseExtended sec (programHeader header lengths fileMap) code payload.length
        _ r (filled total rows) = _ := parseExtended_holds size room valid parts rest_holds
    rw [parseProgram, if_pos ⟨below, entry⟩, zero]
    simp only [bind, Except.bind, if_pos, moved, readUleb128_holds number is_short, sub, behind,
      left, extended, skipped]
    have place : p + 1 + length.size + 1 + payload.length =
        p + (length.size + (payload.length + 1) + 1) := by omega
    rw [place]
  | none =>
    have nonzero := opcode_ne_zero base valid parts
    simp only [LineOp.bytes, parts, List.cons_append, List.length_cons] at holds within ⊢
    have below : p < progEnd := by omega
    have moved : advance p 1 = p + 1 := holds.advance (by simp)
    rw [parseProgram, if_pos ⟨below, entry⟩, readByte_holds holds]
    simp only [bind, Except.bind, if_neg nonzero, moved]
    by_cases special : ∃ code, op = .special code
    · obtain ⟨code, rfl⟩ := special
      have high : ¬ code < (programHeader header lengths fileMap).opcodeBase :=
        UInt8.not_lt.mpr valid
      simp only [LineOp.opcode, if_neg high, parseSpecial_holds size room range, LineOp.operands,
        List.length_nil, Nat.zero_add]
      rfl
    · simp only [not_exists] at special
      have low : op.opcode < (programHeader header lengths fileMap).opcodeBase :=
        opcode_lt_base valid parts special
      have place : p + 1 + op.operands.length = p + (op.operands.length + 1) := by omega
      simp only [if_pos low, parseStandard_holds size room valid short parts special counts
        holds.tail, place]

/-- No rows are stored beyond those that an operation puts out. -/
theorem length_storedRow (op : LineOp) (r : Registers) :
    (storedRow fileMap op r).length = (op.row r).toList.length := by
  simp [storedRow]

/-- The second pass stores the rows of its machine. -/
theorem parseProgram_holds {program : List LineOp} (size : fileMap.length = 256)
    (base : header.opcodeBase ≠ 0) (range : header.lineRange ≠ 0)
    (valid : ∀ op ∈ program, op.Valid header) (short : ∀ op ∈ program, LineOp.Shorts op)
    (counts : Holds sec lengths header.standardOpcodeLengths)
    (holds : Holds sec p (program.flatMap LineOp.bytes ++ rest))
    (finish : p + (program.flatMap LineOp.bytes).length = progEnd)
    (enough : program.length < steps)
    (room : rows.length + (rowsWith (LineOp.runParsed header) r program).length ≤ total) :
    parseProgram sec (programHeader header lengths fileMap) progEnd total steps p r
        (filled total rows) =
      .ok (filled total
        (rows ++ (rowsWith (LineOp.runParsed header) r program).map (entryOf fileMap))) := by
  -- The operations are taken one after the other, as long as there is room for a row.
  induction program generalizing p steps rows r with
  | nil =>
    obtain ⟨steps, rfl⟩ := Nat.exists_eq_succ_of_ne_zero (Nat.ne_of_gt (Nat.zero_lt_of_lt enough))
    simp only [List.flatMap_nil, List.length_nil, Nat.add_zero] at finish
    simp [parseProgram, finish, rowsWith]
  | cons op program ih =>
    obtain ⟨steps, rfl⟩ := Nat.exists_eq_succ_of_ne_zero (Nat.ne_of_gt (Nat.zero_lt_of_lt enough))
    simp only [List.flatMap_cons, List.append_assoc, List.length_append, rowsWith]
      at holds finish room
    by_cases full : rows.length = total
    · -- A full table has room for no row, and there are none left.
      have none : (op.row (LineOp.runParsed header op r)).toList ++
          rowsWith (LineOp.runParsed header) (op.next (LineOp.runParsed header op r)) program =
            [] := by
        rw [← List.length_eq_zero_iff, List.length_append]
        omega
      have stops : ¬ (p < progEnd ∧ (filled total rows).entryIdx < total) := by
        simp [filled, full]
      rw [parseProgram, if_neg stops, rowsWith, none, List.map_nil, List.append_nil]
    · have below : rows.length < total := by omega
      rw [parseProgram_step size below base range (valid op List.mem_cons_self)
        (short op List.mem_cons_self) counts holds (by omega)]
      rw [ih (fun op member => valid op (List.mem_cons_of_mem _ member))
        (fun op member => short op (List.mem_cons_of_mem _ member)) holds.behind (by omega)
        (by simpa using enough)
        (by rw [List.length_append, length_storedRow]; omega)]
      simp [rowsWith, storedRow]

end TwoIne
