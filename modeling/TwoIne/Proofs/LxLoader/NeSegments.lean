import TwoIne.Proofs.LxLoader.NeFixups

/-! The segments of a linked NE module are loaded and fixed up to what they should contain. -/

namespace TwoIne

open Buffers ByteBlocks Chains Outcomes Patches

section Iterated

variable {room used : Nat} {source behind rest : List UInt8}

/-- Records that fit have no product that is too large for a signed integer. -/
theorem FitRecords.small {records : List IterRecord} (small : room < 0x80000000) :
    ∀ {used : Nat} {rest : List UInt8}, FitRecords room used rest records →
      ¬ ProductOverflows room used rest := by
  induction records with
  | nil =>
    rintro used rest ⟨rfl, _⟩ ⟨front, count0, count1, len0, len1, tail, split, _⟩
    have lengths := congrArg List.length split
    simp only [List.length_append, List.length_cons] at lengths
    cases lengths
  | cons record records ih =>
    intro used rest fit overflows
    have encoded : rest = record.encode ++ encodeRecords records := fit.encoded
    obtain ⟨count0, count1, len0, len1, tail, split⟩ :
        ∃ count0 count1 len0 len1 tail, rest = count0 :: count1 :: len0 :: len1 :: tail :=
      ⟨_, _, _, _, _, encoded⟩
    subst split
    obtain ⟨_, more, same, _, data_length, stored, later⟩ := fit.cons
    cases same
    have fits := later.fits
    rcases overflows.cons with large | ⟨data, others, split, length, overflows⟩
    · omega
    · rw [stored] at split
      obtain ⟨_, rfl⟩ := List.append_inj split (data_length.trans length.symm)
      exact ih later overflows

/-- What is stored in records is stored in no other ones. -/
theorem encodeRecords_injective {records : List IterRecord} :
    ∀ {others : List IterRecord}, encodeRecords records = encodeRecords others →
      records = others := by
  induction records with
  | nil =>
    intro others same
    cases others with
    | nil => rfl
    | cons other others => cases same
  | cons record records ih =>
    intro others same
    cases others with
    | nil => cases same
    | cons other others =>
      have split : record.encode ++ encodeRecords records =
        other.encode ++ encodeRecords others := same
      obtain ⟨count, length, tails⟩ := IterRecord.encode_append.mp split
      obtain ⟨count', length', tails'⟩ := IterRecord.encode_append.mp
        (rfl : other.encode ++ encodeRecords others = _)
      obtain ⟨data, behind⟩ := List.append_inj (tails.trans tails'.symm)
        (length.trans length'.symm)
      rw [ih behind]
      congr 1
      cases record
      cases other
      cases data
      cases count.trans count'.symm
      rfl

/-- Bytes that are made by something that makes the same of each index are the same. -/
theorem storeEach_congr {get other : Buffer → Nat → Option UInt8} {i : Int} {buffer : Buffer}
    {count : Nat} (same : ∀ filled, ∀ index < count, get filled index = other filled index) :
    storeEach get i buffer count = storeEach other i buffer count := by
  induction count with
  | zero => rfl
  | succ count ih =>
    rw [storeEach, storeEach, ih fun filled index below => same filled index (by omega)]
    congr 1
    funext filled
    rw [same filled count (Nat.lt_succ_self _)]

/-- A byte in front of others is read as if they were not there. -/
theorem iterByte_front {i : Int} (inside : i < source.length) :
    iterByte (source ++ behind) i = iterByte source i := by
  unfold iterByte
  by_cases positive : 0 ≤ i
  · rw [if_pos positive, if_pos positive, List.getElem?_append_left (by omega)]
  · rw [if_neg positive, if_neg positive]

/-- An integer in front of other bytes is read as if they were not there. -/
theorem iterWord_front {i : Nat} (inside : i + 2 ≤ source.length) :
    iterWord (source ++ behind) i = iterWord source i := by
  rw [iterWord, iterWord, iterByte_front (by omega), iterByte_front (by omega)]

/-- A record in front of other bytes is copied as if they were not there. -/
theorem copyIterations_front {src len : Nat} (inside : src + len ≤ source.length)
    (iterations : Nat) (s : IterState) :
    copyIterations (source ++ behind) src len iterations s =
      copyIterations source src len iterations s := by
  induction iterations generalizing s with
  | zero => rfl
  | succ iterations ih =>
    have same : memcpy s.buffer s.dst (iterByte (source ++ behind)) src len =
        memcpy s.buffer s.dst (iterByte source) src len :=
      storeEach_congr fun _ index below => iterByte_front (by omega)
    rw [copyIterations, copyIterations, same]
    congr 1
    funext buffer
    exact ih _

/-- Unpacking reads nothing behind its source. -/
theorem iterRecords_front (fuel : Nat) :
    ∀ s : IterState, s.src + s.srclen ≤ source.length → s.srclen < 0x100000000 →
      iterRecords (source ++ behind) fuel s = iterRecords source fuel s := by
  induction fuel with
  | zero => exact fun _ _ _ => rfl
  | succ fuel ih =>
    intro s inside short
    rw [iterRecords, iterRecords]
    by_cases empty : s.srclen = 0
    · rw [if_pos empty, if_pos empty]
    by_cases few : s.srclen < 4
    · rw [if_neg empty, if_neg empty, if_pos few, if_pos few]
    rw [if_neg empty, if_neg empty, if_neg few, if_neg few, iterWord_front (by omega),
      iterWord_front (by omega)]
    cases iterWord source s.src with
    | none => rfl
    | some iterations =>
      cases iterWord source (s.src + 2) with
      | none => rfl
      | some len =>
        have left : uint32Sub s.srclen 4 = s.srclen - 4 := by
          rw [uint32Sub]
          omega
        dsimp only
        by_cases cut : uint32Sub s.srclen 4 < len
        · simp only [if_pos cut]
        · -- The bytes of the record are part of the source.
          have rest : uint32Sub (uint32Sub s.srclen 4) len = s.srclen - 4 - len := by
            rw [left, uint32Sub]
            omega
          simp only [if_neg cut, rest]
          rw [copyIterations_front (by omega)]
          cases copyIterations source (s.src + 4) len iterations s with
          | none => rfl
          | some after =>
            dsimp only
            rw [ih _ (by simp only; omega) (by simp only; omega)]

end Iterated

/-- What a segment is in memory before it is fixed up, and the bytes of the file that say so. -/
inductive NeStored (seg : NeSegmentTableEntry) : List UInt8 → List UInt8 → Prop
  /-- The bytes stand in the file, and the rest is zeros. -/
  | plain (data : List UInt8) (kind : seg.segment_flags &&& 0x8 = 0) (placed : seg.offset ≠ 0)
      (length : data.length = if seg.size ≠ 0 then seg.size else 0x10000)
      (fits : data.length ≤ neSegmentSpace) :
      NeStored seg data (data ++ List.replicate (neSegmentSpace - data.length) 0)
  /-- Records of repeated bytes stand in the file, and the rest is zeros. -/
  | iterated (records : List IterRecord) (kind : seg.segment_flags &&& 0x8 ≠ 0)
      (length : (encodeRecords records).length = if seg.size ≠ 0 then seg.size else 0x10000)
      (stored : (encodeRecords records).length ≤ neSegmentSpace)
      (fits : (expandRecords records).length ≤ neSegmentSpace) :
      NeStored seg (encodeRecords records)
        (expandRecords records ++
          List.replicate (neSegmentSpace - (expandRecords records).length) 0)

/-- A segment is filled with what the file says. -/
theorem loadNeSegment_stored {origexe : List UInt8} {ne : NeHeader} {seg : NeSegmentTableEntry}
    {data memory behind : List UInt8} (at_file : neSegmentBytes origexe ne seg = data ++ behind)
    (stored : NeStored seg data memory) : loadNeSegment origexe ne seg = .ok memory := by
  unfold loadNeSegment
  rw [at_file]
  cases stored with
  | plain _ kind placed length fits =>
    have fits' : ¬ neSegmentSpace < data.length := by omega
    have enough : ¬ (data ++ behind).length < data.length := by
      rw [List.length_append]
      omega
    dsimp only
    rw [← length, if_neg fits', if_neg (not_not.mpr kind), if_pos placed, if_neg enough,
      List.take_left]
  | iterated records kind length small fits =>
    have small' : ¬ neSegmentSpace < (encodeRecords records).length := by omega
    dsimp only
    rw [← length, if_neg small', if_pos kind, iterRecords_front _ _ (by simp) (by
      simp only [neSegmentSpace] at small
      simp only
      omega)]
    obtain ⟨result, ran, comes⟩ := decompressIterated_comes (encodeRecords records)
      (List.replicate neSegmentSpace ⟨0, true⟩)
      (by simp only [neSegmentSpace] at small; omega)
      (by rw [List.length_replicate]; simp only [neSegmentSpace]; omega)
    have run := ran _ (Nat.lt_succ_self _)
    rw [List.length_replicate] at run comes
    have fit : FitRecords neSegmentSpace 0 (encodeRecords records) records :=
      ⟨rfl, by rw [Nat.zero_add]; exact fits⟩
    have run : iterRecords (encodeRecords records) ((encodeRecords records).length + 1)
      { src := 0
        srclen := (encodeRecords records).length
        dst := 0
        dstlen := neSegmentSpace
        buffer := List.replicate neSegmentSpace ⟨0, true⟩ } = result := run
    rw [run]
    cases comes with
    | overflow overflows => exact absurd overflows (fit.small (by decide))
    | refused _ _ _ unfit => exact absurd fit (unfit records)
    | done dst others _ _ fit written filled =>
      -- The records that were found are those that were stored.
      cases encodeRecords_injective fit.encoded
      exact congrArg Except.ok filled

/-- What is stored of a segment has as many bytes as its entry says. -/
theorem NeStored.length_eq {seg : NeSegmentTableEntry} {data memory : List UInt8}
    (stored : NeStored seg data memory) :
    data.length = if seg.size ≠ 0 then seg.size else 0x10000 := by
  cases stored with
  | plain _ _ _ length _ => exact length
  | iterated _ _ length _ _ => exact length

/--
How a segment is fixed up from what it is in memory to what it should contain, by the records that
stand behind its data; the selectors that this takes are entered in between.
-/
inductive NeFixedUp (env : NeFixupEnv) (seg : NeSegmentTableEntry) (memory : List UInt8)
    (s : LdtState) : List UInt8 → List UInt8 → LdtState → Prop
  /-- The segment has no records. -/
  | never (behind : List UInt8) (kind : seg.segment_flags &&& 0x100 = 0) :
      NeFixedUp env seg memory s behind memory s
  /-- All sources of the records are apart, and everything else is as it should be. -/
  | records (relocations : List NeRelocation) (values : List (Option (BitVec 32)))
      (rest content : List UInt8) (s' : LdtState) (kind : seg.segment_flags &&& 0x100 ≠ 0)
      (sized : seg.size ≠ 0) (count : relocations.length < 0x10000)
      (resolved : neTargets env s (relocations.map NeRelocation.fixup) = .ok (s', values))
      (linked : List.Forall₂
        (fun relocation value => relocation.Linked seg.size memory content value) relocations values)
      (apart : (relocations.flatMap NeRelocation.readSites).Pairwise Apart)
      (others : AgreeOff (OpenAt (relocations.flatMap NeRelocation.sites)) memory content) :
      NeFixedUp env seg memory s
        (littleBytes 2 relocations.length ++
          ((relocations.map NeRelocation.fixup).flatMap NeFixup.encode ++ rest))
        content s'

/-- A segment that is linked is fixed up to what it should contain. -/
theorem fixupNeSegment_linked {env : NeFixupEnv} {origexe : List UInt8} {ne : NeHeader}
    {seg : NeSegmentTableEntry} {data memory behind content : List UInt8} {s s' : LdtState}
    {fuel : Nat} (at_file : neSegmentBytes origexe ne seg = data ++ behind)
    (length : data.length = if seg.size ≠ 0 then seg.size else 0x10000)
    (fixed : NeFixedUp env seg memory s behind content s') (enough : seg.size < fuel) :
    fixupNeSegment env origexe ne seg fuel s memory = .ok (s', content) := by
  unfold fixupNeSegment
  cases fixed with
  | never _ kind => rw [if_pos kind]
  | records relocations values rest _ _ kind sized count resolved linked apart others =>
    rw [if_neg kind, at_file, if_pos sized]
    rw [if_pos sized] at length
    -- The number of records is stored in two bytes.
    have number : littleEndian (littleBytes 2 relocations.length) = relocations.length := by
      rw [littleEndian_littleBytes]
      exact Nat.mod_eq_of_lt count
    simp only [littleBytes] at number
    simp only [← length, List.drop_left, littleBytes, List.cons_append, List.nil_append, number]
    rw [length]
    exact fixupNeRecords_restores enough resolved linked apart others

/-- The segments of a module are linked: each is stored in the file with its records behind it. -/
def NeLinked (env : NeFixupEnv) (origexe : List UInt8) (ne : NeHeader) :
    List NeSegmentTableEntry → LdtState → List (List UInt8) → LdtState → Prop
  | [], s, contents, s' => contents = [] ∧ s' = s
  | seg :: segments, s, contents, s' =>
    ∃ content rest t data memory behind, contents = content :: rest ∧
      neSegmentBytes origexe ne seg = data ++ behind ∧ NeStored seg data memory ∧
      NeFixedUp env seg memory s behind content t ∧ NeLinked env origexe ne segments t rest s'

/-- Blocks that end in the same zeros differ at most in front of them. -/
theorem agreeOff_front {front other zeros : List UInt8} {opened : Nat → Prop}
    (length : front.length = other.length)
    (same : ∀ k < front.length, ¬ opened k → front[k]? = other[k]?) :
    AgreeOff opened (front ++ zeros) (other ++ zeros) := by
  refine ⟨by rw [List.length_append, List.length_append, length], fun k closed => ?_⟩
  by_cases inside : k < front.length
  · rw [List.getElem?_append_left inside, List.getElem?_append_left (length ▸ inside)]
    exact same k inside closed
  · rw [List.getElem?_append_right (by omega), List.getElem?_append_right (by omega), length]

/-- The only segment of a module, with two words in it and a record for both. -/
def pairSegment : NeSegmentTableEntry := ⟨1, 4, 0x100, 0⟩

/-- The record of the two words: the offset 0x1234 in the first segment. -/
def pairRelocation : NeRelocation := ⟨⟨5, 0, 0, 1, 0x1234⟩, [0, 2]⟩

/-- What the record refers to. -/
def pairEnv : NeFixupEnv :=
  ⟨[], fun _ => true, [{ alias16 := 5 }], ⟨false, []⟩, [], [], fun _ => 0⟩

/-- The file that the segment is in. -/
def pairFile : List UInt8 :=
  List.replicate 16 0 ++ [2, 0, 0xFF, 0xFF] ++ [1, 0, 5, 0, 0, 0, 1, 0, 0x34, 0x12]

/-- The header of the file. -/
def pairHeader : NeHeader := ⟨1, 0, 0, 0, 4⟩

/-- The words of the example are read where they are, in front of the zeros. -/
theorem pair_word (k : Nat) (inside : k + 2 ≤ 4) (bytes zeros : List UInt8)
    (length : bytes.length = 4) :
    loadBytes (bytes ++ zeros) k 2 = some ((bytes.drop k).take 2) := by
  unfold loadBytes
  rw [if_pos (by rw [List.length_append]; omega), List.drop_append_of_le_length (by omega),
    List.take_append_of_le_length (by rw [List.length_drop]; omega)]

end TwoIne
