import TwoIne.LxLoader.ExePack

/-!
Unpacking a page ends, stays inside of both buffers and fills the whole page, and it does with
integers of 32 bits what it says.
-/

namespace TwoIne

open Buffers Regions

/-- Integers that the decoder cannot tell from those that are what they say. -/
structure IntOps.Sound (ints : IntOps) : Prop where
  sint_small : ∀ x : Int, -0x80000000 ≤ x → x < 0x80000000 → ints.sint x = x
  sint_sint : ∀ x n : Int, ints.sint (ints.sint x + n) = ints.sint (x + n)
  uint_small : ∀ x : Int, 0 ≤ x → x < 0x100000000 → ints.uint x = x
  uint_sint : ∀ x : Int, 0 ≤ x → x < 0x100000000 → ints.uint (ints.sint x) = x
  sourceAt_sint : ∀ (src : Region) (x n : Int),
    sourceAt src (ints.sint x + n) = sourceAt src (x + n)

/-- Wrapping around twice is wrapping around once, and a pointer wraps around anyway. -/
theorem machineInts_sound : machineInts.Sound where
  sint_small x low high := by
    simp only [machineInts]
    omega
  sint_sint x n := by
    simp only [machineInts]
    omega
  uint_small x low high := by
    simp only [machineInts]
    omega
  uint_sint x low high := by
    simp only [machineInts]
    omega
  sourceAt_sint src x n := by
    have same : (src.base + (machineInts.sint x + n)) % addresses =
        (src.base + (x + n)) % addresses := by
      simp only [machineInts, addresses]
      omega
    rw [sourceAt, same, ← sourceAt]

/-- Integers that are what they say. -/
theorem exactInts_sound : exactInts.Sound where
  sint_small _ _ _ := rfl
  sint_sint _ _ := rfl
  uint_small _ _ _ := rfl
  uint_sint _ _ _ := rfl
  sourceAt_sint _ _ _ := rfl

/-- How far the decoder has come, in numbers that do not wrap around. -/
structure PackPlace where
  source : Nat
  target : Nat
  dst : Buffer

/-- A place as the decoder stores it. -/
def PackPlace.held (place : PackPlace) (ints : IntOps) : PackState :=
  { sOf := ints.sint place.source, dOf := place.target, dst := place.dst }

/-- The invariant: the place is within both buffers, and the page is written up to it. -/
structure PackPlace.Good (place : PackPlace) (src : Region) (dstlen : Nat) : Prop where
  source_le : place.source ≤ src.bytes.length
  target_le : place.target ≤ dstlen
  length_eq : place.dst.length = dstlen
  written : WrittenTo place.dst place.target

/-- The byte of the source with an index. -/
def byteOf (src : Region) (n : Nat) : Nat := (src.bytes.getD n 0).toNat

/-- The two bytes of the source from an index on. -/
def wordOf (src : Region) (n : Nat) : Nat := byteOf src n + byteOf src (n + 1) * 256

/-- What unpacking from a place on does: it is refused, or leads to a place further on. -/
def Leads (src : Region) (dstlen start : Nat) (unpack : IntOps → Except PackEnd PackState) :
    Prop :=
  (∀ ints : IntOps, ints.Sound → unpack ints = .error .refused) ∨
    ∃ after : PackPlace, after.Good src dstlen ∧ start < after.source ∧
      ∀ ints : IntOps, ints.Sound → unpack ints = .ok (after.held ints)

/-- What unpacking does depends only on what it answers with sound integers. -/
theorem Leads.congr {src : Region} {dstlen start : Nat}
    {unpack other : IntOps → Except PackEnd PackState} (leads : Leads src dstlen start other)
    (same : ∀ ints : IntOps, ints.Sound → unpack ints = other ints) :
    Leads src dstlen start unpack := by
  rcases leads with refused | ⟨after, good, later, reached⟩
  · exact .inl fun ints sound => (same ints sound).trans (refused ints sound)
  · exact .inr ⟨after, good, later, fun ints sound =>
      (same ints sound).trans (reached ints sound)⟩

section Reading

variable {ints : IntOps} {src : Region}

/-- The bytes of the source are those of 8 bits. -/
theorem byteOf_lt (src : Region) (n : Nat) : byteOf src n < 256 := UInt8.toNat_lt _

/-- A byte of the source is read where its index says. -/
theorem sourceAt_index {n : Nat} (below : n < src.bytes.length) :
    sourceAt src n = some (src.bytes.getD n 0) := by
  -- The source ends in front of the last page of the address space.
  have fits := src.fits
  have pointer : ((src.base + (n : Int)) % addresses).toNat = src.base + n := by
    simp only [addresses] at fits ⊢
    omega
  simp only [sourceAt, pointer, Nat.le_add_right, if_true, Nat.add_sub_cancel_left]
  simp [List.getD_eq_getElem?_getD, List.getElem?_eq_getElem below]

/-- An offset into the source that was moved. -/
theorem sint_held (sound : ints.Sound) (n k : Nat) :
    ints.sint (ints.sint n + k) = ints.sint (n + k : Nat) := by
  rw [sound.sint_sint, Int.natCast_add]

/-- The byte of the source at the offset that stands for an index. -/
theorem sourceAt_held (sound : ints.Sound) {n : Nat} (below : n < src.bytes.length) :
    sourceAt src (ints.sint n) = some (src.bytes.getD n 0) := by
  have same := sound.sourceAt_sint src n 0
  rw [Int.add_zero, Int.add_zero] at same
  rw [same, sourceAt_index below]

/-- The byte of the source at the offset that stands for an index, as an integer. -/
theorem srcByte_held (sound : ints.Sound) {n : Nat} (below : n < src.bytes.length) :
    srcByte src (ints.sint n) = .ok (byteOf src n) := by
  rw [srcByte, sourceAt_held sound below]
  rfl

/-- Two bytes of the source from an offset on. -/
theorem srcWord_held (sound : ints.Sound) {n : Nat} (below : n + 1 < src.bytes.length) :
    srcWord ints src (ints.sint n) = .ok (wordOf src n) := by
  have next : srcByte src (ints.sint (ints.sint n + 1)) = .ok (byteOf src (n + 1)) := by
    rw [← srcByte_held sound below, ← sint_held sound n 1]
    rfl
  rw [srcWord, srcByte_held sound (by omega), next]
  rfl

end Reading

section Tokens

variable {src : Region} {dstlen : Nat} {place : PackPlace} {ints : IntOps}

/-- Whether so many bytes of the source are left is answered as it is asked. -/
theorem PackPlace.Good.avail (good : place.Good src dstlen) (sound : ints.Sound) {n : Nat}
    (small : n < 0x1000) :
    srcavail ints src.bytes.length (place.held ints).sOf n ↔
      place.source + n ≤ src.bytes.length := by
  -- The sum is below the end of the address space.
  have fits := src.fits
  have source_le := good.source_le
  simp only [addresses] at fits
  rw [srcavail, PackPlace.held, sint_held sound place.source n,
    sound.uint_sint _ (by omega) (by omega)]
  omega

/-- Whether so many bytes of the page are left is answered as it is asked. -/
theorem PackPlace.Good.room (good : place.Good src dstlen) (page : dstlen ≤ 0x1000)
    (sound : ints.Sound) {n : Nat} (small : n < 0x1000) :
    dstavail ints dstlen (place.held ints).dOf n ↔ place.target + n ≤ dstlen := by
  -- The sum is far below the end of the address space.
  have target_le := good.target_le
  change ints.uint (ints.sint ((place.target : Int) + n)) ≤ dstlen ↔ _
  rw [sound.sint_small _ (by omega) (by omega), sound.uint_small _ (by omega) (by omega)]
  omega

/-- An offset into the source is moved on. -/
theorem held_sOf (sound : ints.Sound) (place : PackPlace) (n : Nat) :
    ints.sint ((place.held ints).sOf + n) = ints.sint (place.source + n : Nat) :=
  sint_held sound place.source n

/-- An offset into the page is moved on. -/
theorem held_dOf (sound : ints.Sound) (place : PackPlace) (n : Nat)
    (small : place.target + n < 0x80000000) :
    ints.sint ((place.held ints).dOf + n) = (place.target + n : Nat) := by
  change ints.sint ((place.target : Int) + n) = _
  rw [sound.sint_small _ (by omega) (by omega), Int.natCast_add]

/-- A byte of the source behind the place. -/
theorem srcByte_behind (sound : ints.Sound) (place : PackPlace) (n : Nat)
    (below : place.source + n < src.bytes.length) :
    srcByte src (ints.sint ((place.held ints).sOf + n)) = .ok (byteOf src (place.source + n)) := by
  rw [held_sOf sound, srcByte_held sound below]

/-- Copying from an offset is copying from the index it stands for. -/
theorem memcpy_held (sound : ints.Sound) (dst : Buffer) (target : Int) (n count : Nat) :
    memcpy dst target (sourceAt src) (ints.sint n) count =
      memcpy dst target (sourceAt src) n count := by
  simp only [memcpy, sound.sourceAt_sint]

/-- Moving bytes within the page to behind those that were written. -/
theorem linearmove_next {dst : Buffer} {n : Nat} (written : WrittenTo dst n) (source : Int)
    (positive : 0 ≤ source) (behind : source ≤ n) (len : Nat) (room : n + len ≤ dst.length) :
    ∃ after, linearmove dst n source len = some after ∧ after.length = dst.length ∧
      WrittenTo after (n + len) :=
  -- What is read is in front of what is written, or that byte itself.
  storeEach_next written room fun _ same index below =>
    fetch_inside (by omega) (by rw [same]; omega)

/-- A run of one byte is unpacked. -/
theorem run_leads (good : place.Good src dstlen) (page : dstlen ≤ 0x1000) :
    Leads src dstlen place.source fun ints =>
      unpackRun ints dstlen src src.bytes.length (place.held ints) := by
  have target_le := good.target_le
  have count_lt := byteOf_lt src (place.source + 1)
  by_cases two : place.source + 2 ≤ src.bytes.length
  swap
  · -- The count is missing.
    left
    intro ints sound
    simp only [unpackRun, if_neg (mt (good.avail sound (by omega)).mp two)]
  have counted : ∀ ints : IntOps, ints.Sound →
      srcByte src (ints.sint ((place.held ints).sOf + 1)) =
        .ok (byteOf src (place.source + 1)) :=
    fun ints sound => srcByte_behind sound place 1 (by omega)
  by_cases empty : byteOf src (place.source + 1) = 0
  · -- An empty run only moves on.
    right
    refine ⟨{ place with source := place.source + 2 }, ?_, by simp, ?_⟩
    · exact ⟨two, target_le, good.length_eq, good.written⟩
    · intro ints sound
      have moved := held_sOf sound place 2
      simp only [unpackRun, if_pos ((good.avail sound (by omega)).mpr two), counted ints sound,
        bind, Except.bind, empty, if_true]
      rw [show (2 : Int) = (2 : Nat) from rfl, moved]
      rfl
  by_cases fits : place.source + 3 ≤ src.bytes.length ∧
      place.target + byteOf src (place.source + 1) ≤ dstlen
  · right
    obtain ⟨three, room⟩ := fits
    obtain ⟨dst, filled, length, written⟩ := memset_next good.written
      (src.bytes.getD (place.source + 2) 0) (byteOf src (place.source + 1))
      (by rw [good.length_eq]; exact room)
    refine ⟨⟨place.source + 3, place.target + byteOf src (place.source + 1), dst⟩, ?_, by simp, ?_⟩
    · exact ⟨three, room, length.trans good.length_eq, written⟩
    · intro ints sound
      have value : sourceAt src (ints.sint ((place.held ints).sOf + 2)) =
          some (src.bytes.getD (place.source + 2) 0) := by
        rw [show (2 : Int) = (2 : Nat) from rfl, held_sOf sound, sourceAt_held sound (by omega)]
      have back : ints.sint (ints.sint ((place.held ints).sOf + 3) - 2) =
          ints.sint ((place.held ints).sOf + 1) := by
        rw [Int.sub_eq_add_neg, sound.sint_sint, Int.add_assoc]
        rfl
      have moved : ints.sint ((place.held ints).sOf + 3) = ints.sint (place.source + 3 : Nat) :=
        held_sOf sound place 3
      have advanced := held_dOf sound place (byteOf src (place.source + 1)) (by omega)
      have stored : memset (place.held ints).dst (place.held ints).dOf
          (src.bytes.getD (place.source + 2) 0) (byteOf src (place.source + 1)) = some dst := filled
      simp only [unpackRun, if_pos ((good.avail sound (by omega)).mpr two), counted ints sound,
        bind, Except.bind, empty, if_false]
      rw [if_pos ⟨(good.avail sound (by omega)).mpr three,
        (good.room page sound (by omega)).mpr room⟩, value, inside]
      simp only [stored, inside, back, counted ints sound]
      rw [moved, advanced]
      rfl
  · -- The token or the run is too long.
    left
    intro ints sound
    simp only [unpackRun, if_pos ((good.avail sound (by omega)).mpr two), counted ints sound,
      bind, Except.bind, empty, if_false]
    rw [if_neg (mt (and_congr (good.avail sound (by omega)) (good.room page sound (by omega))).mp
      fits)]

/-- Bytes that are copied from the source are unpacked. -/
theorem literal_leads (good : place.Good src dstlen) (page : dstlen ≤ 0x1000) {b1 : Nat}
    (byte : b1 < 256) :
    Leads src dstlen place.source fun ints =>
      unpackLiteral ints dstlen src src.bytes.length (place.held ints) b1 := by
  have target_le := good.target_le
  have count_lt : b1 >>> 2 < 64 := by
    rw [Nat.shiftRight_eq_div_pow]
    omega
  by_cases fits : place.source + ((b1 >>> 2) + 1) ≤ src.bytes.length ∧
      place.target + (b1 >>> 2) ≤ dstlen
  · right
    obtain ⟨available, room⟩ := fits
    obtain ⟨dst, filled, length, written⟩ := memcpy_next good.written
      (sourceAt src) (place.source + 1 : Nat) (b1 >>> 2)
      (by rw [good.length_eq]; exact room)
      (fun index below => ⟨src.bytes.getD (place.source + 1 + index) 0, by
        rw [← Int.natCast_add, sourceAt_index (by omega)]⟩)
    refine ⟨⟨place.source + ((b1 >>> 2) + 1), place.target + (b1 >>> 2), dst⟩, ?_,
      by simp only; omega, ?_⟩
    · exact ⟨available, room, length.trans good.length_eq, written⟩
    · intro ints sound
      have stored : memcpy (place.held ints).dst (place.held ints).dOf (sourceAt src)
          (ints.sint ((place.held ints).sOf + 1)) (b1 >>> 2) = some dst := by
        rw [← filled, ← memcpy_held sound, ← held_sOf sound place 1]
        rfl
      have moved : ints.sint ((place.held ints).sOf + (((b1 >>> 2 : Nat) : Int) + 1)) =
          ints.sint (place.source + ((b1 >>> 2) + 1) : Nat) :=
        held_sOf sound place ((b1 >>> 2) + 1)
      have advanced := held_dOf sound place (b1 >>> 2) (by omega)
      simp only [unpackLiteral, if_pos (⟨(good.avail sound (by omega)).mpr available,
        (good.room page sound (by omega)).mpr room⟩ : _ ∧ _), stored, inside, bind, Except.bind]
      rw [moved, advanced]
      rfl
  · -- There are not so many bytes in the source, or not so many left in the page.
    left
    intro ints sound
    simp only [unpackLiteral]
    rw [if_neg (mt (and_congr (good.avail sound (by omega)) (good.room page sound (by omega))).mp
      fits)]

/-- A distance back into the page is checked as it is asked. -/
theorem back_iff (sound : ints.Sound) {n : Nat} (small : n < 0x10000) {bOf : Nat}
    (word : bOf < 0x10000) : 0 ≤ ints.sint ((n : Int) - bOf) ↔ bOf ≤ n := by
  rw [sound.sint_small _ (by omega) (by omega)]
  omega

/-- Bytes that are copied from the source, and bytes that are already in the page, are unpacked. -/
theorem mixed_leads (good : place.Good src dstlen) (page : dstlen ≤ 0x1000) (start : Nat)
    (b1 b2 bOf : Nat) (later : start < place.source) (few : b1 < 16) (some_more : b2 < 64) (word : bOf < 0x10000) :
    Leads src dstlen start fun ints =>
      unpackMixed ints dstlen src src.bytes.length (place.held ints) b1 b2 bOf := by
  have target_le := good.target_le
  have checks : ∀ ints : IntOps, ints.Sound →
      ((srcavail ints src.bytes.length (place.held ints).sOf b1 ∧
        dstavail ints dstlen (place.held ints).dOf (b1 + b2) ∧
        0 ≤ ints.sint (ints.sint ((place.held ints).dOf + b1) - bOf)) ↔
      (place.source + b1 ≤ src.bytes.length ∧ place.target + (b1 + b2) ≤ dstlen ∧
        bOf ≤ place.target + b1)) := by
    intro ints sound
    rw [held_dOf sound place b1 (by omega)]
    exact and_congr (good.avail sound (by omega))
      (and_congr (good.room page sound (by omega)) (back_iff sound (by omega) word))
  by_cases fits : place.source + b1 ≤ src.bytes.length ∧ place.target + (b1 + b2) ≤ dstlen ∧
      bOf ≤ place.target + b1
  · right
    obtain ⟨available, room, back⟩ := fits
    -- The bytes of the source come first, and the others may repeat them.
    obtain ⟨copied, filled, copied_length, copied_written⟩ := memcpy_next good.written
      (sourceAt src) place.source b1
      (by rw [good.length_eq]; omega)
      (fun index below => ⟨src.bytes.getD (place.source + index) 0, by
        rw [← Int.natCast_add, sourceAt_index (by omega)]⟩)
    obtain ⟨dst, moved_bytes, length, written⟩ := linearmove_next copied_written
      (((place.target + b1 : Nat) : Int) - bOf) (by omega) (by omega) b2
      (by rw [copied_length, good.length_eq]; omega)
    refine ⟨⟨place.source + b1, place.target + b1 + b2, dst⟩, ?_, by simp only; omega, ?_⟩
    · exact ⟨available, by simp only; omega,
        length.trans (copied_length.trans good.length_eq), written⟩
    · intro ints sound
      have stored : memcpy (place.held ints).dst (place.held ints).dOf (sourceAt src)
          (place.held ints).sOf b1 = some copied := by
        rw [← filled, ← memcpy_held sound]
        rfl
      have distance : ints.sint (((place.target + b1 : Nat) : Int) - bOf) =
          ((place.target + b1 : Nat) : Int) - bOf :=
        sound.sint_small _ (by omega) (by omega)
      have advanced : ints.sint (((place.target + b1 : Nat) : Int) + b2) =
          (place.target + b1 + b2 : Nat) := by
        rw [sound.sint_small _ (by omega) (by omega), Int.natCast_add _ b2]
      simp only [unpackMixed]
      rw [if_pos ((checks ints sound).mpr ⟨available, room, back⟩), stored,
        held_dOf sound place b1 (by omega), held_sOf sound place b1, distance]
      simp only [inside, bind, Except.bind, moved_bytes, advanced]
      rfl
  · -- Bytes are missing, or the page has not so many yet.
    left
    intro ints sound
    simp only [unpackMixed, if_neg (mt (checks ints sound).mp fits)]

/-- Two bytes are less than two to the sixteen. -/
theorem wordOf_lt (src : Region) (n : Nat) : wordOf src n < 0x10000 := by
  have low := byteOf_lt src n
  have high := byteOf_lt src (n + 1)
  simp only [wordOf]
  omega

/-- The place behind the first bytes of a token. -/
theorem PackPlace.Good.behind (good : place.Good src dstlen) {n : Nat}
    (available : place.source + n ≤ src.bytes.length) :
    ({ place with source := place.source + n } : PackPlace).Good src dstlen :=
  ⟨available, good.target_le, good.length_eq, good.written⟩

/-- A short token is unpacked. -/
theorem short_leads (good : place.Good src dstlen) (page : dstlen ≤ 0x1000) (b1 : Nat) :
    Leads src dstlen place.source fun ints =>
      unpackShort ints dstlen src src.bytes.length (place.held ints) b1 := by
  by_cases two : place.source + 2 ≤ src.bytes.length
  · -- What is left of it starts behind its first two bytes.
    have few : (b1 >>> 2) &&& 3 ≤ 3 := Nat.and_le_right
    have more : (b1 >>> 4) &&& 7 ≤ 7 := Nat.and_le_right
    have distance : wordOf src place.source >>> 7 < 0x10000 :=
      Nat.lt_of_le_of_lt (Nat.shiftRight_le _ _) (wordOf_lt src _)
    have rest := mixed_leads (good.behind two) page place.source
      ((b1 >>> 2) &&& 3) (((b1 >>> 4) &&& 7) + 3) (wordOf src place.source >>> 7) (by simp)
      (by omega) (by omega) distance
    apply rest.congr
    intro ints sound
    have word : srcWord ints src (place.held ints).sOf = .ok (wordOf src place.source) :=
      srcWord_held sound (by omega)
    have moved : ints.sint ((place.held ints).sOf + 2) = ints.sint (place.source + 2 : Nat) :=
      held_sOf sound place 2
    simp only [unpackShort, if_pos ((good.avail sound (by omega)).mpr two), word, bind,
      Except.bind, moved]
    rfl
  · left
    intro ints sound
    simp only [unpackShort, if_neg (mt (good.avail sound (by omega)).mp two)]

/-- A long token is unpacked. -/
theorem long_leads (good : place.Good src dstlen) (page : dstlen ≤ 0x1000) :
    Leads src dstlen place.source fun ints =>
      unpackLong ints dstlen src src.bytes.length (place.held ints) := by
  by_cases three : place.source + 3 ≤ src.bytes.length
  · -- What is left of it starts behind its first three bytes.
    have few : (byteOf src place.source >>> 2) &&& 0x0F ≤ 0x0F := Nat.and_le_right
    have more : (wordOf src place.source >>> 6) &&& 0x3F ≤ 0x3F := Nat.and_le_right
    have distance : wordOf src (place.source + 1) >>> 4 < 0x10000 :=
      Nat.lt_of_le_of_lt (Nat.shiftRight_le _ _) (wordOf_lt src _)
    have rest := mixed_leads (good.behind three) page place.source
      ((byteOf src place.source >>> 2) &&& 0x0F) ((wordOf src place.source >>> 6) &&& 0x3F)
      (wordOf src (place.source + 1) >>> 4) (by simp) (by omega) (by omega) distance
    apply rest.congr
    intro ints sound
    have word : srcWord ints src (place.held ints).sOf = .ok (wordOf src place.source) :=
      srcWord_held sound (by omega)
    have byte : srcByte src (place.held ints).sOf = .ok (byteOf src place.source) :=
      srcByte_held sound (by omega)
    have next : srcWord ints src (ints.sint ((place.held ints).sOf + 1)) =
        .ok (wordOf src (place.source + 1)) := by
      rw [← srcWord_held sound (by omega), ← held_sOf sound place 1]
      rfl
    have moved : ints.sint ((place.held ints).sOf + 3) = ints.sint (place.source + 3 : Nat) :=
      held_sOf sound place 3
    simp only [unpackLong, if_pos ((good.avail sound (by omega)).mpr three), word, byte, next,
      bind, Except.bind, moved]
    rfl
  · left
    intro ints sound
    simp only [unpackLong, if_neg (mt (good.avail sound (by omega)).mp three)]

/-- Bytes that are already in the page are unpacked. -/
theorem repeat_leads (good : place.Good src dstlen) (page : dstlen ≤ 0x1000) (b1 : Nat) :
    Leads src dstlen place.source fun ints =>
      unpackRepeat ints dstlen src src.bytes.length (place.held ints) b1 := by
  have target_le := good.target_le
  have few : (b1 >>> 2) &&& 3 ≤ 3 := Nat.and_le_right
  have word_lt : wordOf src place.source >>> 4 < 0x10000 :=
    Nat.lt_of_le_of_lt (Nat.shiftRight_le _ _) (wordOf_lt src _)
  by_cases two : place.source + 2 ≤ src.bytes.length
  swap
  · left
    intro ints sound
    simp only [unpackRepeat, if_neg (mt (good.avail sound (by omega)).mp two)]
  have word : ∀ ints : IntOps, ints.Sound →
      srcWord ints src (place.held ints).sOf = .ok (wordOf src place.source) :=
    fun ints sound => srcWord_held sound (by omega)
  have checks : ∀ ints : IntOps, ints.Sound →
      ((dstavail ints dstlen (place.held ints).dOf (((b1 >>> 2) &&& 3) + 3) ∧
        (0 : Int) ≤ ints.sint ((place.held ints).dOf - (wordOf src place.source >>> 4 : Nat))) ↔
      (place.target + (((b1 >>> 2) &&& 3) + 3) ≤ dstlen ∧
        wordOf src place.source >>> 4 ≤ place.target)) :=
    fun ints sound =>
      and_congr (good.room page sound (by omega)) (back_iff sound (by omega) word_lt)
  by_cases fits : place.target + (((b1 >>> 2) &&& 3) + 3) ≤ dstlen ∧
      wordOf src place.source >>> 4 ≤ place.target
  · right
    obtain ⟨room, back⟩ := fits
    obtain ⟨dst, moved_bytes, length, written⟩ := linearmove_next good.written
      ((place.target : Int) - (wordOf src place.source >>> 4 : Nat)) (by omega)
      (by omega) (((b1 >>> 2) &&& 3) + 3) (by rw [good.length_eq]; exact room)
    refine ⟨⟨place.source + 2, place.target + (((b1 >>> 2) &&& 3) + 3), dst⟩, ?_, by simp, ?_⟩
    · exact ⟨two, room, length.trans good.length_eq, written⟩
    · intro ints sound
      have distance : ints.sint ((place.held ints).dOf - (wordOf src place.source >>> 4 : Nat)) =
          (place.target : Int) - (wordOf src place.source >>> 4 : Nat) :=
        sound.sint_small _ (by simp only [PackPlace.held]; omega)
          (by simp only [PackPlace.held]; omega)
      have moved : ints.sint ((place.held ints).sOf + 2) = ints.sint (place.source + 2 : Nat) :=
        held_sOf sound place 2
      have stored : linearmove (place.held ints).dst (place.held ints).dOf
          ((place.target : Int) - (wordOf src place.source >>> 4 : Nat))
          (((b1 >>> 2) &&& 3) + 3) = some dst := moved_bytes
      simp only [unpackRepeat, if_pos ((good.avail sound (by omega)).mpr two), word ints sound,
        bind, Except.bind]
      rw [if_pos ((checks ints sound).mpr ⟨room, back⟩), distance, stored, moved,
        held_dOf sound place _ (by omega)]
      rfl
  · left
    intro ints sound
    simp only [unpackRepeat, if_pos ((good.avail sound (by omega)).mpr two), word ints sound,
      bind, Except.bind]
    rw [if_neg (mt (checks ints sound).mp fits)]

/-- A token of any kind is unpacked. -/
theorem kind_leads (good : place.Good src dstlen) (page : dstlen ≤ 0x1000) {b1 : Nat}
    (byte : b1 < 256) :
    Leads src dstlen place.source fun ints =>
      unpackKind ints dstlen src src.bytes.length (place.held ints) b1 := by
  unfold unpackKind
  split
  · by_cases zero : b1 = 0
    · simp only [if_pos zero]
      exact run_leads good page
    · simp only [if_neg zero]
      exact literal_leads good page byte
  · exact short_leads good page b1
  · exact repeat_leads good page b1
  · exact long_leads good page

/-- A token is unpacked, where the source has one. -/
theorem token_leads (good : place.Good src dstlen) (page : dstlen ≤ 0x1000)
    (present : place.source + 1 ≤ src.bytes.length) :
    Leads src dstlen place.source fun ints =>
      unpackToken ints dstlen src src.bytes.length (place.held ints) := by
  -- The first byte is the same with all integers, and so is the kind of the token.
  apply (kind_leads good page (byteOf_lt src place.source)).congr
  intro ints sound
  have byte : srcByte src (place.held ints).sOf = .ok (byteOf src place.source) :=
    srcByte_held sound (by omega)
  simp only [unpackToken, if_pos ((good.avail sound (by omega)).mpr present), byte, bind,
    Except.bind]

/-- Where the source has no byte left there is no token. -/
theorem token_exhausted (good : place.Good src dstlen) (sound : ints.Sound)
    (absent : ¬ place.source + 1 ≤ src.bytes.length) :
    unpackToken ints dstlen src src.bytes.length (place.held ints) = .error .exhausted := by
  simp only [unpackToken, if_neg (mt (good.avail sound (by omega)).mp absent)]

/-- Filling up the page writes all that is left of it. -/
theorem pad_fills (good : place.Good src dstlen) (page : dstlen ≤ 0x1000) :
    ∃ dst : Buffer, dst.length = dstlen ∧ WrittenTo dst dstlen ∧
      ∀ ints : IntOps, ints.Sound → padPage ints dstlen (place.held ints) = .returned 1 dst := by
  have target_le := good.target_le
  have remaining : ∀ ints : IntOps, ints.Sound →
      ints.uint (dstlen - (place.held ints).dOf) = (dstlen - place.target : Nat) := by
    intro ints sound
    change ints.uint ((dstlen : Int) - place.target) = _
    rw [sound.uint_small _ (by omega) (by omega)]
    omega
  by_cases full : dstlen = place.target
  · -- Nothing is left, and the page is as it was.
    refine ⟨place.dst, good.length_eq, full ▸ good.written, ?_⟩
    intro ints sound
    rw [padPage, remaining ints sound, if_neg (by omega)]
    rfl
  · obtain ⟨dst, filled, length, written⟩ := memset_next good.written 0
      (dstlen - place.target) (by rw [good.length_eq]; omega)
    have whole : place.target + (dstlen - place.target) = dstlen := by omega
    refine ⟨dst, length.trans good.length_eq, whole ▸ written, ?_⟩
    intro ints sound
    have stored : memset (place.held ints).dst (place.held ints).dOf 0
        (dstlen - place.target) = some dst := filled
    rw [padPage, remaining ints sound, if_pos (by omega), Int.toNat_natCast, stored]

/-- The loop ends from every good place, with the same result whatever integers are used. -/
theorem tokens_end (page : dstlen ≤ 0x1000) (left : Nat) :
    ∀ place : PackPlace, place.Good src dstlen → src.bytes.length - place.source = left →
      ∃ (ret : Nat) (dst : Buffer), (ret = 0 ∨ ret = 1) ∧ dst.length = dstlen ∧
        (ret = 1 → WrittenTo dst dstlen) ∧
        ∀ ints : IntOps, ints.Sound → ∀ fuel, left < fuel →
          unpackTokens ints dstlen src src.bytes.length fuel (place.held ints) =
            .returned ret dst := by
  -- Every token takes bytes of the source, so that the induction is on how many are left.
  induction left using Nat.strongRecOn with
  | ind left ih =>
    intro place good remaining
    by_cases present : place.source + 1 ≤ src.bytes.length
    · rcases token_leads good page present with refused | ⟨after, after_good, later, reached⟩
      · -- A token that is refused leaves the page unfinished.
        refine ⟨0, place.dst, .inl rfl, good.length_eq, by simp, ?_⟩
        intro ints sound fuel enough
        cases fuel with
        | zero => omega
        | succ fuel =>
          simp only [unpackTokens, refused ints sound]
          rfl
      · by_cases more : after.target < dstlen
        · -- The rest is unpacked from the place that the token leads to.
          have after_le := after_good.source_le
          obtain ⟨ret, dst, answer, length, written, rest⟩ :=
            ih (src.bytes.length - after.source) (by omega) after after_good rfl
          refine ⟨ret, dst, answer, length, written, ?_⟩
          intro ints sound fuel enough
          cases fuel with
          | zero => omega
          | succ fuel =>
            have going : ints.uint (after.held ints).dOf < dstlen := by
              change ints.uint (after.target : Int) < dstlen
              rw [sound.uint_small _ (by omega) (by omega)]
              omega
            simp only [unpackTokens, reached ints sound, if_pos going]
            exact rest ints sound fuel (by omega)
        · -- The page is full.
          obtain ⟨dst, length, written, padded⟩ := pad_fills after_good page
          refine ⟨1, dst, .inr rfl, length, fun _ => written, ?_⟩
          intro ints sound fuel enough
          have target_le := after_good.target_le
          cases fuel with
          | zero => omega
          | succ fuel =>
            have done : ¬ ints.uint (after.held ints).dOf < dstlen := by
              change ¬ ints.uint (after.target : Int) < dstlen
              rw [sound.uint_small _ (by omega) (by omega)]
              omega
            simp only [unpackTokens, reached ints sound, if_neg done, padded ints sound]
    · -- The source is used up.
      obtain ⟨dst, length, written, padded⟩ := pad_fills good page
      refine ⟨1, dst, .inr rfl, length, fun _ => written, ?_⟩
      intro ints sound fuel enough
      cases fuel with
      | zero => omega
      | succ fuel =>
        simp only [unpackTokens, token_exhausted good sound present, padded ints sound]

end Tokens

/-- Nothing is unpacked at first, and nothing has to be written. -/
theorem start_good (src : Region) (dst : Buffer) :
    ({ source := 0, target := 0, dst := dst } : PackPlace).Good src dst.length :=
  ⟨Nat.zero_le _, Nat.zero_le _, rfl, fun i below => absurd below (Nat.not_lt_zero i)⟩

/-- The decoder starts at the front of both buffers. -/
theorem start_held (dst : Buffer) {ints : IntOps} (sound : ints.Sound) :
    ({ source := 0, target := 0, dst := dst } : PackPlace).held ints =
      { sOf := 0, dOf := 0, dst := dst } := by
  have zero : ints.sint ((0 : Nat) : Int) = 0 := sound.sint_small _ (by omega) (by omega)
  simp only [PackPlace.held]
  rw [zero]
  rfl

/--
A page is unpacked with as many rounds of the loop as the source has bytes, without an access
outside of a buffer.  If it succeeds, the whole page was written.  With integers that do not wrap
around, and comparisons that are what they say, the result is the same.
-/
theorem exepack2_unpacks (src : Region) (dst : Buffer) (page : dst.length ≤ 0x1000) :
    ∃ (ret : Nat) (after : Buffer), (ret = 0 ∨ ret = 1) ∧ after.length = dst.length ∧
      (ret = 1 → ∀ cell ∈ after, cell.written = true) ∧
      ∀ fuel, src.bytes.length < fuel →
        decompressExePack2 machineInts dst.length src src.bytes.length fuel dst =
            .returned ret after ∧
          decompressExePack2 exactInts dst.length src src.bytes.length fuel dst =
            .returned ret after := by
  obtain ⟨ret, after, answer, length, written, ends⟩ :=
    tokens_end page src.bytes.length _ (start_good src dst) (Nat.sub_zero _)
  refine ⟨ret, after, answer, length, ?_, ?_⟩
  · intro success cell member
    obtain ⟨i, below, rfl⟩ := List.getElem_of_mem member
    obtain ⟨value, stored⟩ := written success i (by omega)
    rw [List.getElem?_eq_getElem below] at stored
    rw [Option.some.inj stored]
  · intro fuel enough
    constructor
    · rw [decompressExePack2, ← start_held dst machineInts_sound]
      exact ends machineInts machineInts_sound fuel enough
    · rw [decompressExePack2, ← start_held dst exactInts_sound]
      exact ends exactInts exactInts_sound fuel enough

/-- Two letters and their repetition, at an address where files are read to. -/
def packedLetters : Region :=
  ⟨0x8000000, [0x08, 0x41, 0x42, 0x22, 0x00], by decide⟩

/-- The letters are repeated once and a half, and the page is filled up. -/
theorem exepack2_unpacks_letters :
    ∃ (ret : Nat) (after : Buffer), (ret = 0 ∨ ret = 1) ∧ after.length = 8 ∧
      (ret = 1 → ∀ cell ∈ after, cell.written = true) ∧
      ∀ fuel, 5 < fuel →
        decompressExePack2 machineInts 8 packedLetters 5 fuel (List.replicate 8 ⟨0xFF, false⟩) =
            .returned ret after ∧
          decompressExePack2 exactInts 8 packedLetters 5 fuel (List.replicate 8 ⟨0xFF, false⟩) =
            .returned ret after :=
  exepack2_unpacks packedLetters (List.replicate 8 ⟨0xFF, false⟩) (by decide)

end TwoIne
