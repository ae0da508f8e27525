import TwoIne.LxLoader.Iterated

/-!
Unpacking records gives what they stand for and zeros behind it, unless the product of a count and
a length is too large for a signed integer.
-/

namespace TwoIne

open Buffers

/-- A source is made of these records, and so much room is enough for them. -/
structure FitRecords (room used : Nat) (rest : List UInt8) (records : List IterRecord) :
    Prop where
  encoded : rest = encodeRecords records
  fits : used + (expandRecords records).length ≤ room

/-- Behind records that fit, the product of the next count and the next length is too large. -/
def ProductOverflows (room used : Nat) (rest : List UInt8) : Prop :=
  ∃ front count0 count1 len0 len1 tail,
    rest = encodeRecords front ++ count0 :: count1 :: len0 :: len1 :: tail ∧
    used + (expandRecords front).length ≤ room ∧
    0x80000000 ≤ littleEndian [count0, count1] * littleEndian [len0, len1]

/-- An integer of 16 bits is stored in two bytes. -/
theorem word_littleBytes {n : Nat} (small : n < 0x10000) {low high : UInt8} :
    littleBytes 2 n = [low, high] ↔ n = littleEndian [low, high] := by
  constructor
  · intro stored
    rw [← stored, littleEndian_littleBytes, Nat.mod_eq_of_lt (by omega)]
  · intro read
    rw [read]
    exact littleBytes_littleEndian [low, high]

/-- A record stands for its bytes as often as it says. -/
theorem IterRecord.expand_length (record : IterRecord) :
    record.expand.length = record.count * record.data.length := by
  rw [IterRecord.expand, List.length_flatten, List.map_replicate, List.sum_replicate_nat]

section Records

variable {room used : Nat} {count0 count1 len0 len1 : UInt8} {tail : List UInt8}

/-- A record is stored where its count, its length and its bytes are. -/
theorem IterRecord.encode_append {record : IterRecord} {more : List UInt8} :
    record.encode ++ more = count0 :: count1 :: len0 :: len1 :: tail ↔
      record.count = littleEndian [count0, count1] ∧
        record.data.length = littleEndian [len0, len1] ∧ record.data ++ more = tail := by
  rw [← word_littleBytes record.count_lt, ← word_littleBytes record.length_lt]
  simp [IterRecord.encode, littleBytes, and_assoc]

/-- Records that start with a count and a length are one that has them, and the others. -/
theorem FitRecords.cons {records : List IterRecord}
    (fit : FitRecords room used (count0 :: count1 :: len0 :: len1 :: tail) records) :
    ∃ record more, records = record :: more ∧ record.count = littleEndian [count0, count1] ∧
      record.data.length = littleEndian [len0, len1] ∧
      tail = record.data ++ encodeRecords more ∧
      FitRecords room (used + littleEndian [count0, count1] * littleEndian [len0, len1])
        (encodeRecords more) more := by
  obtain ⟨encoded, fits⟩ := fit
  cases records with
  | nil => cases encoded
  | cons record more =>
    obtain ⟨count, length, split⟩ := IterRecord.encode_append.mp encoded.symm
    refine ⟨record, more, rfl, count, length, split.symm, rfl, ?_⟩
    have expanded : (expandRecords (record :: more)).length =
        record.expand.length + (expandRecords more).length := List.length_append
    rw [expanded, record.expand_length, count, length] at fits
    omega

/-- A record in front of others that fit. -/
theorem FitRecords.front {records : List IterRecord} {record : IterRecord} {rest : List UInt8}
    (fit : FitRecords room (used + record.count * record.data.length) rest records) :
    FitRecords room used (record.encode ++ rest) (record :: records) where
  encoded := by
    rw [fit.encoded]
    rfl
  fits := by
    have expanded : (expandRecords (record :: records)).length =
        record.expand.length + (expandRecords records).length := List.length_append
    have fits := fit.fits
    rw [expanded, record.expand_length]
    omega

/-- A product that is too large is that of the first record, or comes behind it. -/
theorem ProductOverflows.cons
    (overflows : ProductOverflows room used (count0 :: count1 :: len0 :: len1 :: tail)) :
    0x80000000 ≤ littleEndian [count0, count1] * littleEndian [len0, len1] ∨
      ∃ data rest, tail = data ++ rest ∧ data.length = littleEndian [len0, len1] ∧
        ProductOverflows room (used + littleEndian [count0, count1] * littleEndian [len0, len1])
          rest := by
  obtain ⟨front, more0, more1, next0, next1, behind, split, fits, large⟩ := overflows
  cases front with
  | nil =>
    cases split
    exact .inl large
  | cons record front =>
    have encoded : encodeRecords (record :: front) = record.encode ++ encodeRecords front := rfl
    rw [encoded, List.append_assoc] at split
    obtain ⟨count, length, split⟩ := IterRecord.encode_append.mp split.symm
    refine .inr ⟨record.data, _, split.symm, length, front, more0, more1, next0, next1, behind,
      rfl, ?_, large⟩
    have expanded : (expandRecords (record :: front)).length =
        record.expand.length + (expandRecords front).length := List.length_append
    rw [expanded, record.expand_length, count, length] at fits
    omega

/-- A product that is too large stays so behind a record that fits. -/
theorem ProductOverflows.front {record : IterRecord} {rest : List UInt8}
    (overflows : ProductOverflows room (used + record.count * record.data.length) rest) :
    ProductOverflows room used (record.encode ++ rest) := by
  obtain ⟨front, more0, more1, next0, next1, behind, split, fits, large⟩ := overflows
  refine ⟨record :: front, more0, more1, next0, next1, behind, ?_, ?_, large⟩
  · rw [split, ← List.append_assoc]
    rfl
  · have expanded : (expandRecords (record :: front)).length =
        record.expand.length + (expandRecords front).length := List.length_append
    rw [expanded, record.expand_length]
    omega

end Records

section Unpacking

variable {source : List UInt8} {room : Nat}

/-- How far the unpacking has come: what was made, and what is left of the source. -/
structure IterState.At (s : IterState) (source : List UInt8) (room : Nat) (out rest : List UInt8) :
    Prop where
  rest_eq : source.drop s.src = rest
  srclen_eq : s.srclen = rest.length
  dst_eq : s.dst = out.length
  room_eq : s.dst + s.dstlen = room
  length_eq : s.buffer.length = room
  written : WrittenTo s.buffer s.dst
  known : out <+: contents s.buffer

/-- A byte of what is left of the source. -/
theorem iterByte_rest {i : Nat} {rest : List UInt8} (rest_eq : source.drop i = rest) (index : Nat) :
    iterByte source (i + index) = rest[index]? := by
  rw [iterByte, if_pos (by omega), ← rest_eq, List.getElem?_drop]
  rfl

/-- The bytes of a record are copied as often as there is room for them. -/
theorem copyIterations_at {src : Nat} {data : List UInt8} (small : room < 0x100000000)
    (given : ∀ index < data.length, iterByte source (src + index) = data[index]?) (count : Nat) :
    ∀ (s : IterState) (out rest : List UInt8), s.At source room out rest →
      count * data.length ≤ s.dstlen →
      ∃ after, copyIterations source src data.length count s = some after ∧
        after.At source room (out ++ (List.replicate count data).flatten) rest := by
  induction count with
  | zero =>
    intro s out rest place _
    exact ⟨s, rfl, by simpa using place⟩
  | succ count ih =>
    intro s out rest place enough
    have room_eq := place.room_eq
    rw [Nat.succ_mul] at enough
    -- There is room for the bytes once more.
    obtain ⟨buffer, stored, length, written⟩ := memcpy_next place.written (iterByte source) src
      data.length (by rw [place.length_eq]; omega)
      (fun index below => ⟨data[index], by rw [given index below, List.getElem?_eq_getElem below]⟩)
    have left : uint32Sub s.dstlen data.length = s.dstlen - data.length := by
      rw [uint32Sub]
      omega
    have next : IterState.At
        { s with
          dst := s.dst + data.length
          dstlen := uint32Sub s.dstlen data.length
          buffer := buffer } source room (out ++ data) rest := by
      refine ⟨place.rest_eq, place.srclen_eq, ?_, ?_, length.trans place.length_eq, written, ?_⟩
      · rw [List.length_append, ← place.dst_eq]
      · simp only [left]
        omega
      · exact memcpy_known place.known given (place.dst_eq ▸ stored)
    obtain ⟨after, copied, after_at⟩ := ih _ _ _ next (by simp only [left]; omega)
    refine ⟨after, ?_, ?_⟩
    · rw [copyIterations, stored]
      exact copied
    · rw [List.replicate_succ, List.flatten_cons, ← List.append_assoc]
      exact after_at

/-- What unpacking from a place on comes to. -/
inductive IterComes (room : Nat) (out rest : List UInt8) : IterResult → Prop
  | overflow (overflows : ProductOverflows room out.length rest) : IterComes room out rest .overflow
  | refused (dst : Buffer) (length : dst.length = room)
      (small : ¬ ProductOverflows room out.length rest)
      (unfit : ∀ records, ¬ FitRecords room out.length rest records) :
      IterComes room out rest (.returned 0 dst)
  | done (dst : Buffer) (records : List IterRecord) (length : dst.length = room)
      (small : ¬ ProductOverflows room out.length rest)
      (fit : FitRecords room out.length rest records) (written : WrittenTo dst room)
      (filled : contents dst = out ++ expandRecords records ++
        List.replicate (room - (out ++ expandRecords records).length) 0) :
      IterComes room out rest (.returned 1 dst)

/-- Filling up the destination puts zeros behind what was made. -/
theorem padIterated_comes {s : IterState} {out : List UInt8} (place : s.At source room out []) :
    IterComes room out [] (padIterated s) := by
  have room_eq := place.room_eq
  have dst_eq := place.dst_eq
  have left : s.dstlen = s.buffer.length - out.length := by
    rw [place.length_eq]
    omega
  have written := place.written
  rw [dst_eq] at written
  obtain ⟨after, filled, length, all_written, whole⟩ := memset_rest place.known written 0
  have fit : FitRecords room out.length [] [] := ⟨rfl, by simp [expandRecords]; omega⟩
  have small : ¬ ProductOverflows room out.length [] := by
    rintro ⟨front, _, _, _, _, _, split, _⟩
    have lengths := congrArg List.length split
    simp only [List.length_nil, List.length_append, List.length_cons] at lengths
    omega
  by_cases more : 0 < s.dstlen
  · rw [padIterated, if_pos more, dst_eq, left, filled]
    refine .done after [] (length.trans place.length_eq) small fit (place.length_eq ▸ all_written)
      ?_
    rw [whole, place.length_eq]
    simp [expandRecords]
  · -- The destination is full, and it is what was made.
    rw [padIterated, if_neg more]
    have full : room = s.dst := by omega
    refine .done s.buffer [] place.length_eq small fit (full ▸ place.written) ?_
    have same := place.known.eq_of_length (by rw [contents_length, place.length_eq]; omega)
    rw [← same]
    simp [expandRecords, ← dst_eq, full]

/-- What comes of the records behind one that fits is what comes of all of them. -/
theorem IterComes.front {out rest : List UInt8} {result : IterResult} {record : IterRecord}
    (comes : IterComes room (out ++ record.expand) rest result)
    (product : record.count * record.data.length < 0x80000000) :
    IterComes room out (record.encode ++ rest) result := by
  have used : (out ++ record.expand).length =
      out.length + record.count * record.data.length := by
    rw [List.length_append, record.expand_length]
  -- The bytes of the first record are its own count and its own length.
  have parts : ∃ count0 count1 len0 len1 tail,
      record.encode ++ rest = count0 :: count1 :: len0 :: len1 :: tail := by
    simp [IterRecord.encode, littleBytes]
  obtain ⟨count0, count1, len0, len1, tail, split⟩ := parts
  obtain ⟨count, length, behind⟩ := IterRecord.encode_append.mp split
  have overflow_iff : ProductOverflows room out.length (record.encode ++ rest) →
      ProductOverflows room (out ++ record.expand).length rest := by
    intro overflows
    rw [split] at overflows
    rcases overflows.cons with large | ⟨data, others, tail_eq, data_length, later⟩
    · rw [← count, ← length] at large
      omega
    · obtain ⟨rfl, rfl⟩ := List.append_inj (behind.trans tail_eq) (length.trans data_length.symm)
      rw [used, count, length]
      exact later
  cases comes with
  | overflow overflows => exact .overflow (used ▸ overflows).front
  | refused dst dst_length small unfit =>
    refine .refused dst dst_length (mt overflow_iff small) ?_
    intro records fit
    rw [split] at fit
    obtain ⟨first, more, _, _, first_length, tail_eq, later⟩ := fit.cons
    obtain ⟨_, rest_eq⟩ := List.append_inj (behind.trans tail_eq) (length.trans first_length.symm)
    refine unfit more ?_
    rw [used, count, length, rest_eq]
    exact later
  | done dst records dst_length small fit written filled =>
    rw [used] at fit
    refine .done dst (record :: records) dst_length (mt overflow_iff small) fit.front written ?_
    rw [filled, List.append_assoc out]
    rfl

/-- Bytes that are not less than four. -/
theorem four_bytes {rest : List UInt8} (enough : ¬ rest.length < 4) :
    ∃ byte0 byte1 byte2 byte3 tail, rest = byte0 :: byte1 :: byte2 :: byte3 :: tail := by
  match rest with
  | [] | [_] | [_, _] | [_, _, _] => exact absurd (by simp) enough
  | _ :: _ :: _ :: _ :: _ => exact ⟨_, _, _, _, _, rfl⟩

/-- Less than four bytes are no record. -/
theorem short_refused {s : IterState} {out rest : List UInt8} (place : s.At source room out rest)
    (some_left : rest.length ≠ 0) (few : rest.length < 4) :
    IterComes room out rest (.returned 0 s.buffer) := by
  refine .refused s.buffer place.length_eq ?_ ?_
  · rintro ⟨front, _, _, _, _, _, split, _⟩
    have lengths := congrArg List.length split
    simp only [List.length_append, List.length_cons] at lengths
    omega
  · intro records fit
    cases records with
    | nil => exact some_left (congrArg List.length fit.encoded)
    | cons record records =>
      have lengths := congrArg List.length fit.encoded
      simp only [encodeRecords, List.flatMap_cons, IterRecord.encode, List.length_append,
        littleBytes_length] at lengths
      omega

/-- The numbers at the front of a record are read. -/
theorem iterWord_rest {i : Nat} {low high : UInt8} {rest : List UInt8}
    (rest_eq : source.drop i = low :: high :: rest) :
    iterWord source i = some (littleEndian [low, high]) := by
  have first := iterByte_rest rest_eq 0
  have second := iterByte_rest rest_eq 1
  rw [Int.natCast_zero, Int.add_zero] at first
  rw [Int.natCast_one] at second
  rw [iterWord, first, second]
  rfl

/-- What a round of the loop does with a count and a length. -/
theorem iterRecords_step {s : IterState} {out : List UInt8} {count0 count1 len0 len1 : UInt8}
    {tail : List UInt8} (place : s.At source room out (count0 :: count1 :: len0 :: len1 :: tail))
    (short : tail.length + 4 < 0x100000000) (fuel : Nat) :
    iterRecords source (fuel + 1) s =
      if 0x80000000 ≤ littleEndian [count0, count1] * littleEndian [len0, len1] then .overflow
      else if s.dstlen < littleEndian [count0, count1] * littleEndian [len0, len1] then
        .returned 0 s.buffer
      else if tail.length < littleEndian [len0, len1] then .returned 0 s.buffer
      else
        match copyIterations source (s.src + 4) (littleEndian [len0, len1])
          (littleEndian [count0, count1]) s with
        | some after =>
          iterRecords source fuel { after with
            src := s.src + 4 + littleEndian [len0, len1]
            srclen := uint32Sub tail.length (littleEndian [len0, len1]) }
        | none => .outside := by
  have srclen_eq : s.srclen = tail.length + 4 := place.srclen_eq
  have left : uint32Sub s.srclen 4 = tail.length := by
    rw [srclen_eq, uint32Sub]
    omega
  have behind : source.drop (s.src + 2) = len0 :: len1 :: tail := by
    rw [← List.drop_drop, place.rest_eq]
    rfl
  rw [iterRecords, if_neg (by omega), if_neg (by omega), iterWord_rest place.rest_eq,
    iterWord_rest behind]
  exact left ▸ rfl

/-- The loop comes to what the source that is left says, within as many rounds as it has bytes. -/
theorem iterRecords_comes (small : room < 0x100000000) (left : Nat) :
    ∀ (s : IterState) (out rest : List UInt8), s.At source room out rest → rest.length = left →
      rest.length < 0x100000000 →
      ∃ result, (∀ fuel, left < fuel → iterRecords source fuel s = result) ∧
        IterComes room out rest result := by
  -- Every record takes bytes of the source, so that the induction is on how many are left.
  induction left using Nat.strongRecOn with
  | ind left ih =>
    intro s out rest place length short
    have room_eq := place.room_eq
    have dst_eq := place.dst_eq
    have srclen_eq := place.srclen_eq
    by_cases empty : rest.length = 0
    · obtain rfl := List.length_eq_zero_iff.mp empty
      refine ⟨padIterated s, ?_, padIterated_comes place⟩
      intro fuel enough
      obtain ⟨fuel, rfl⟩ := Nat.exists_eq_succ_of_ne_zero (by omega : fuel ≠ 0)
      have none_left : s.srclen = 0 := srclen_eq
      rw [iterRecords, if_pos none_left]
    by_cases few : rest.length < 4
    · refine ⟨.returned 0 s.buffer, ?_, short_refused place empty few⟩
      intro fuel enough
      obtain ⟨fuel, rfl⟩ := Nat.exists_eq_succ_of_ne_zero (by omega : fuel ≠ 0)
      rw [iterRecords, if_neg (srclen_eq ▸ empty), if_pos (srclen_eq ▸ few)]
    obtain ⟨count0, count1, len0, len1, tail, rfl⟩ := four_bytes few
    have tail_length : left = tail.length + 4 := length.symm
    have step := iterRecords_step place (by omega)
    have again : ∀ fuel, left < fuel → ∃ less, fuel = less + 1 ∧ tail.length < less :=
      fun fuel enough => ⟨fuel - 1, by omega, by omega⟩
    by_cases large : 0x80000000 ≤ littleEndian [count0, count1] * littleEndian [len0, len1]
    · refine ⟨.overflow, ?_, .overflow ⟨[], count0, count1, len0, len1, tail, rfl, ?_, large⟩⟩
      · intro fuel enough
        obtain ⟨less, rfl, _⟩ := again fuel enough
        rw [step, if_pos large]
      · simp only [expandRecords, List.flatMap_nil, List.length_nil]
        omega
    by_cases full : s.dstlen < littleEndian [count0, count1] * littleEndian [len0, len1]
    · -- There is not enough room for the record, and nothing that starts with it fits.
      refine ⟨.returned 0 s.buffer, ?_, .refused s.buffer place.length_eq ?_ ?_⟩
      · intro fuel enough
        obtain ⟨less, rfl, _⟩ := again fuel enough
        rw [step, if_neg large, if_pos full]
      · intro overflows
        rcases overflows.cons with here | ⟨_, _, _, _, _, _, _, _, _, _, _, fits, _⟩
        · exact large here
        · omega
      · intro records fit
        obtain ⟨_, _, _, _, _, _, later⟩ := fit.cons
        have fits := later.fits
        omega
    by_cases cut : tail.length < littleEndian [len0, len1]
    · -- The bytes of the record are missing.
      refine ⟨.returned 0 s.buffer, ?_, .refused s.buffer place.length_eq ?_ ?_⟩
      · intro fuel enough
        obtain ⟨less, rfl, _⟩ := again fuel enough
        rw [step, if_neg large, if_neg full, if_pos cut]
      · intro overflows
        rcases overflows.cons with here | ⟨data, others, rfl, data_length, _⟩
        · exact large here
        · rw [List.length_append] at cut
          omega
      · intro records fit
        obtain ⟨record, more, _, _, data_length, rfl, _⟩ := fit.cons
        rw [List.length_append] at cut
        omega
    -- The record is copied, and the loop goes on behind it.
    have count_lt : littleEndian [count0, count1] < 0x10000 := word_lt count0 count1
    have len_lt : littleEndian [len0, len1] < 0x10000 := word_lt len0 len1
    have data_length : (tail.take (littleEndian [len0, len1])).length =
        littleEndian [len0, len1] := by
      rw [List.length_take]
      omega
    let record : IterRecord :=
      ⟨littleEndian [count0, count1], tail.take (littleEndian [len0, len1]), count_lt,
        by rw [data_length]; exact len_lt⟩
    have split : count0 :: count1 :: len0 :: len1 :: tail =
        record.encode ++ tail.drop (littleEndian [len0, len1]) :=
      (IterRecord.encode_append.mpr ⟨rfl, data_length, List.take_append_drop _ _⟩).symm
    have data_eq : source.drop (s.src + 4) = tail := by
      rw [← List.drop_drop, place.rest_eq]
      rfl
    have given : ∀ index < record.data.length,
        iterByte source ((s.src + 4 : Nat) + index) = record.data[index]? := by
      intro index below
      rw [iterByte_rest data_eq]
      exact (List.getElem?_take_of_lt (data_length ▸ below)).symm
    obtain ⟨after, copied, after_at⟩ := copyIterations_at small given record.count s out _ place
      (by simp only [record, data_length]; omega)
    have rest_length : (tail.drop (littleEndian [len0, len1])).length =
        tail.length - littleEndian [len0, len1] := List.length_drop
    have next : IterState.At
        { after with
          src := s.src + 4 + littleEndian [len0, len1]
          srclen := uint32Sub tail.length (littleEndian [len0, len1]) }
        source room (out ++ record.expand) (tail.drop (littleEndian [len0, len1])) := by
      refine ⟨?_, ?_, after_at.dst_eq, after_at.room_eq, after_at.length_eq, after_at.written,
        after_at.known⟩
      · rw [← List.drop_drop, data_eq]
      · change uint32Sub tail.length (littleEndian [len0, len1]) = _
        rw [rest_length, uint32Sub]
        omega
    obtain ⟨result, ends, comes⟩ := ih _ (by omega) _ _ _ next rest_length (by omega)
    refine ⟨result, ?_, ?_⟩
    · intro fuel enough
      obtain ⟨less, rfl, more⟩ := again fuel enough
      have copied : copyIterations source (s.src + 4) (littleEndian [len0, len1])
          (littleEndian [count0, count1]) s = some after := data_length ▸ copied
      rw [step, if_neg large, if_neg full, if_neg cut, copied]
      exact ends less (by omega)
    · rw [split]
      refine comes.front ?_
      simp only [record, data_length]
      omega

end Unpacking

/-- Unpacking starts with all of the source, and nothing made. -/
theorem decompressIterated_comes (source : List UInt8) (dst : Buffer)
    (srclen_lt : source.length < 0x100000000) (dstlen_lt : dst.length < 0x100000000) :
    ∃ result, (∀ fuel, source.length < fuel →
        decompressIterated source fuel dst.length dst = result) ∧
      IterComes dst.length [] source result := by
  have place : IterState.At
      { src := 0, srclen := source.length, dst := 0, dstlen := dst.length, buffer := dst }
      source dst.length [] source :=
    ⟨rfl, rfl, rfl, Nat.zero_add _, rfl, fun i below => absurd below (Nat.not_lt_zero i),
      List.nil_prefix⟩
  exact iterRecords_comes dstlen_lt _ _ _ _ place rfl srclen_lt

end TwoIne
