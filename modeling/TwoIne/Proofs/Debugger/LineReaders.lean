import TwoIne.Debugger.DebugLine
import TwoIne.Lib.DwarfLines

/-! Reading what a section holds: bytes, numbers and strings. -/

namespace TwoIne

open Regions Leb128 DwarfLines

variable {sec : Region} {p : Nat} {bytes rest : List UInt8}

/-- A byte that the section holds is read. -/
theorem readByte_holds {byte : UInt8} (holds : Holds sec p (byte :: rest)) :
    readByte sec p = .ok byte := by
  obtain ⟨back, starts⟩ := holds.from
  rw [readByte, starts]
  rfl

/-- A byte further on is read there. -/
theorem readByte_at {byte : UInt8} {n : Nat} (holds : Holds sec p bytes)
    (found : bytes[n]? = some byte) : readByte sec (advance p n) = .ok byte := by
  -- The pointer stays within what the section holds.
  obtain ⟨within, is_byte⟩ := List.getElem?_eq_some_iff.mp found
  have upto := Nat.le_of_lt within
  rw [holds.advance upto]
  have split : Holds sec p (bytes.take n ++ byte :: bytes.drop (n + 1)) := by
    rw [← is_byte, List.getElem_cons_drop, List.take_append_drop]
    exact holds
  have behind := split.behind
  rw [List.length_take, Nat.min_eq_left upto] at behind
  exact readByte_holds behind

/-- Two bytes put together. -/
theorem or_bytes {low high : Nat} (below : low < 256) : low ||| high <<< 8 = low + high * 256 := by
  rw [Nat.shiftLeft_eq]
  exact or_shifted 8 high below

/-- A number of two bytes is read back. -/
theorem readU16Le_holds {value : BitVec 16} (holds : Holds sec p (le16 value ++ rest)) :
    readU16Le sec p = .ok value.toNat := by
  have first : readByte sec p = .ok value.toNat.toUInt8 := readByte_holds holds
  have second : readByte sec (advance p 1) = .ok (value.toNat / 256).toUInt8 :=
    readByte_at holds rfl
  rw [readU16Le, first, second]
  -- The two bytes are the number again.
  have size := value.isLt
  have low : value.toNat.toUInt8.toNat < 256 := UInt8.toNat_lt _
  simp only [bind, Except.bind, pure, Except.pure, or_bytes low]
  simp only [Nat.toUInt8, UInt8.toNat_ofNat']
  congr 1
  omega

/-- A number of four bytes is read back. -/
theorem readU32Le_holds {value : BitVec 32} (holds : Holds sec p (le32 value ++ rest)) :
    readU32Le sec p = .ok value.toNat := by
  have first : readByte sec p = .ok value.toNat.toUInt8 := readByte_holds holds
  have second : readByte sec (advance p 1) = .ok (value.toNat / 256).toUInt8 :=
    readByte_at holds rfl
  have third : readByte sec (advance p 2) = .ok (value.toNat / 65536).toUInt8 :=
    readByte_at holds rfl
  have fourth : readByte sec (advance p 3) = .ok (value.toNat / 16777216).toUInt8 :=
    readByte_at holds rfl
  rw [readU32Le, first, second, third, fourth]
  -- The four bytes are the number again.
  have size := value.isLt
  have put : ∀ b0 b1 b2 b3 : Nat, b0 < 256 → b1 < 256 → b2 < 256 →
      b0 ||| b1 <<< 8 ||| b2 <<< 16 ||| b3 <<< 24 =
        b0 + b1 * 256 + b2 * 65536 + b3 * 16777216 := by
    intro b0 b1 b2 b3 small0 small1 small2
    have two := or_shifted 8 b1 small0
    have low2 : b0 + b1 * 256 < 2 ^ 16 := by omega
    have low3 : b0 + b1 * 256 + b2 * 65536 < 2 ^ 24 := by omega
    have three := or_shifted 16 b2 low2
    have four := or_shifted 24 b3 low3
    simp only [Nat.shiftLeft_eq]
    rw [two]
    simp only [Nat.reducePow] at *
    rw [three, four]
  simp only [bind, Except.bind, pure, Except.pure]
  rw [put _ _ _ _ (UInt8.toNat_lt _) (UInt8.toNat_lt _) (UInt8.toNat_lt _)]
  simp only [Nat.toUInt8, UInt8.toNat_ofNat']
  congr 1
  omega

/-! Numbers of several digits -/

/-- The digits of a number are put together, if all of them fit in a word. -/
theorem lebDigits_short (front : List (Fin 128)) (last : Fin 128) (rest : List UInt8)
    (shift result count : Nat) (fits : shift + 7 * front.length < 32)
    (below : result < 2 ^ shift) :
    lebDigits shift result count ((⟨front, last⟩ : Leb).bytes ++ rest) =
      .ok ((result + (⟨front, last⟩ : Leb).value * 2 ^ shift) % 2 ^ 32,
        shift + 7 * (front.length + 1), last.val.toUInt8, count + front.length + 1) := by
  -- Each digit is put on top of those read before.
  induction front generalizing shift result count with
  | nil =>
    have room : ¬ 32 ≤ shift := by
      simp only [List.length_nil] at fits
      omega
    have put := accumulate last.val (Nat.le_of_not_le room) below
    simp only [Leb.bytes, List.map_nil, List.nil_append, List.singleton_append, lebDigits,
      if_neg room, last_byte last, ne_eq, not_true_eq_false, if_false, digit_toNat]
    simp only [Nat.reducePow] at put
    simp [put, Leb.value, digitsValue]
  | cons digit front ih =>
    simp only [List.length_cons] at fits
    have room : ¬ 32 ≤ shift := by omega
    have put := accumulate digit.val (Nat.le_of_not_le room) below
    -- Another digit follows, so this one fits as a whole.
    have scaled : 2 ^ (shift + 7) ≤ 2 ^ 32 := Nat.pow_le_pow_right (by decide) (by omega)
    have small : result + digit.val * 2 ^ shift < 2 ^ (shift + 7) := by
      have top := Nat.mul_le_mul_right (2 ^ shift) (Nat.succ_le_of_lt digit.isLt)
      have split : 2 ^ (shift + 7) = 128 * 2 ^ shift := by
        rw [Nat.pow_add, Nat.mul_comm]
      rw [Nat.succ_mul] at top
      omega
    rw [Nat.mod_eq_of_lt (Nat.lt_of_lt_of_le small scaled)] at put
    have next := ih (shift + 7) _ (count + 1) (by omega) small
    have high : (0x80 : UInt8) ≠ 0 := by decide
    simp only [Nat.reducePow] at put
    have step : lebDigits shift result count ((⟨digit :: front, last⟩ : Leb).bytes ++ rest) =
        lebDigits (shift + 7) (result + digit.val * 2 ^ shift) (count + 1)
          ((⟨front, last⟩ : Leb).bytes ++ rest) := by
      simp only [Leb.bytes, List.map_cons, List.cons_append, lebDigits, if_neg room,
        front_byte digit, digit_toNat, if_pos high, put, ne_eq]
    -- The rest of the number stands one digit further on.
    have total : result + digit.val * 2 ^ shift + (⟨front, last⟩ : Leb).value * 2 ^ (shift + 7) =
        result + (⟨digit :: front, last⟩ : Leb).value * 2 ^ shift := by
      have value : (⟨digit :: front, last⟩ : Leb).value =
          digit.val + 128 * (⟨front, last⟩ : Leb).value := rfl
      rw [value, Nat.pow_add, Nat.add_mul, Nat.mul_comm _ (2 ^ 7), Nat.mul_left_comm,
        Nat.mul_assoc, Nat.add_assoc]
    have shifts : shift + 7 + 7 * (front.length + 1) = shift + 7 * (front.length + 1 + 1) := by
      omega
    have counts : count + 1 + front.length + 1 = count + (front.length + 1) + 1 := by omega
    rw [step, next, total, shifts, counts]
    rfl

/-- A number with too many digits is shifted too far. -/
theorem lebDigits_long (front : List (Fin 128)) (last : Fin 128) (rest : List UInt8)
    (shift result count : Nat) (long : 32 ≤ shift + 7 * front.length) :
    lebDigits shift result count ((⟨front, last⟩ : Leb).bytes ++ rest) = .error .shift := by
  -- The digits that fit are read first.
  induction front generalizing shift result count with
  | nil =>
    have far : 32 ≤ shift := by simpa using long
    simp [Leb.bytes, lebDigits, far]
  | cons digit front ih =>
    have high : (0x80 : UInt8) ≠ 0 := by decide
    simp only [Leb.bytes, List.map_cons, List.cons_append, lebDigits, front_byte digit,
      if_pos high, ne_eq]
    split
    · rfl
    · simp only [List.length_cons] at long
      exact ih _ _ _ (by omega)

/-- Whether the digits of a number fit in a word. -/
def Short (n : Leb) : Prop := n.size ≤ 5

instance (n : Leb) : Decidable (Short n) := inferInstanceAs (Decidable (n.size ≤ 5))

/-- A number without a sign is read back, up to the size of a word. -/
theorem readUleb128_holds {n : Leb} (holds : Holds sec p (n.bytes ++ rest)) (short : Short n) :
    readUleb128 sec p = .ok (n.value % 2 ^ 32, p + n.size) := by
  obtain ⟨back, starts⟩ := holds.from
  have size := short
  simp only [Short, Leb.size] at size
  have digits := lebDigits_short n.front n.last (rest ++ back) 0 0 0 (by omega) Nat.one_pos
  have moved : advance p (n.front.length + 1) = p + n.size := by
    rw [holds.advance (by simp [Leb.size])]
    rfl
  rw [readUleb128, starts, List.append_assoc, digits]
  simp [bind, Except.bind, pure, Except.pure, moved]

/-- A number with too many digits is not read. -/
theorem readUleb128_long {n : Leb} (holds : Holds sec p (n.bytes ++ rest)) (long : ¬ Short n) :
    readUleb128 sec p = .error .shift := by
  obtain ⟨back, starts⟩ := holds.from
  simp only [Short, Leb.size] at long
  have digits := lebDigits_long n.front n.last (rest ++ back) 0 0 0 (by omega)
  rw [readUleb128, starts, List.append_assoc, digits]
  rfl

/-- A number with a sign is read back, as the bits of a word. -/
theorem readSleb128_holds {n : Leb} (holds : Holds sec p (n.bytes ++ rest)) (short : Short n) :
    ∃ word, readSleb128 sec p = .ok (word, p + n.size) ∧
      BitVec.ofNat 32 word = BitVec.ofInt 32 n.signed := by
  obtain ⟨back, starts⟩ := holds.from
  have size := short
  simp only [Short, Leb.size] at size
  have digits := lebDigits_short n.front n.last (rest ++ back) 0 0 0 (by omega) Nat.one_pos
  have moved : advance p (n.front.length + 1) = p + n.size := by
    rw [holds.advance (by simp [Leb.size])]
    rfl
  have read : readSleb128 sec p = .ok
      (if 7 * n.size < 32 ∧ n.last.val.toUInt8 &&& 0x40 ≠ 0 then
        n.value % 2 ^ 32 ||| (0x100000000 - 1 <<< (7 * n.size)) else n.value % 2 ^ 32,
        p + n.size) := by
    rw [readSleb128, starts, List.append_assoc, digits]
    simp [bind, Except.bind, pure, Except.pure, moved, Leb.size]
  refine ⟨_, read, ?_⟩
  have below := n.value_lt
  have sign : n.last.val.toUInt8 &&& 0x40 ≠ 0 ↔ ¬ n.last.val < 64 := not_congr (last_sign n.last)
  apply BitVec.eq_of_toNat_eq
  simp only [BitVec.toNat_ofNat, BitVec.toNat_ofInt, Leb.signed]
  by_cases positive : n.last.val < 64
  · -- Without a sign the bits are those of the value.
    rw [if_neg (by simp [sign, positive]), if_pos positive]
    omega
  rw [if_neg positive]
  by_cases narrow : 7 * n.size < 32
  · -- The sign fills the bits above the number.
    rw [if_pos ⟨narrow, sign.mpr positive⟩]
    have power : 128 ^ n.size = 2 ^ (7 * n.size) := by rw [Nat.pow_mul]
    have fits : 2 ^ (7 * n.size) ≤ 2 ^ 32 := Nat.pow_le_pow_right (by decide) (Nat.le_of_lt narrow)
    have ones : (0x100000000 - 1 <<< (7 * n.size) : Nat) =
        (2 ^ (32 - 7 * n.size) - 1) * 2 ^ (7 * n.size) := by
      rw [Nat.shiftLeft_eq, Nat.sub_mul, ← Nat.pow_add, Nat.sub_add_cancel (Nat.le_of_lt narrow)]
    have cast : ((128 ^ n.size : Nat) : Int) = 128 ^ n.size := by simp
    rw [power] at below cast
    rw [Nat.mod_eq_of_lt (Nat.lt_of_lt_of_le below fits), ones, or_shifted _ _ below, ← ones,
      Nat.shiftLeft_eq, ← cast]
    omega
  · -- The number has as many bits as a word already.
    rw [if_neg (by simp [narrow])]
    have five : n.size = 5 := by
      simp only [Leb.size] at narrow ⊢
      omega
    rw [five]
    omega

/-- A number with a sign and too many digits is not read. -/
theorem readSleb128_long {n : Leb} (holds : Holds sec p (n.bytes ++ rest)) (long : ¬ Short n) :
    readSleb128 sec p = .error .shift := by
  obtain ⟨back, starts⟩ := holds.from
  simp only [Short, Leb.size] at long
  have digits := lebDigits_long n.front n.last (rest ++ back) 0 0 0 (by omega)
  rw [readSleb128, starts, List.append_assoc, digits]
  rfl

/-- The digits that are put together fit in a word. -/
theorem lebDigits_word {shift result count : Nat} {bytes : List UInt8}
    {read : Nat × Nat × UInt8 × Nat} (below : result < 2 ^ 32)
    (digits : lebDigits shift result count bytes = .ok read) : read.1 < 2 ^ 32 := by
  -- Each digit is cut to a word before it is put on top of the others.
  induction bytes generalizing shift result count with
  | nil => cases digits
  | cons byte rest ih =>
    have cut : ((byte &&& 0x7f).toNat <<< shift) % 0x100000000 < 2 ^ 32 :=
      Nat.mod_lt _ (by decide)
    have together := Nat.or_lt_two_pow below cut
    rw [lebDigits] at digits
    split at digits
    · cases digits
    · dsimp only at digits
      split at digits
      · exact ih together digits
      · cases digits
        exact together

/-- A number with a sign is read as the bits of a word. -/
theorem readSleb128_word {read : Nat × Nat} (reads : readSleb128 sec p = .ok read) :
    read.1 < 2 ^ 32 := by
  unfold readSleb128 at reads
  cases digits : lebDigits 0 0 0 (sec.from p) with
  | error fault =>
    rw [digits] at reads
    cases reads
  | ok found =>
    have below := lebDigits_word (by decide) digits
    rw [digits] at reads
    cases reads
    -- The bits that the sign adds are those of a word as well.
    dsimp only
    split
    · refine Nat.or_lt_two_pow below (Nat.sub_lt (by decide) ?_)
      rw [Nat.shiftLeft_eq, Nat.one_mul]
      exact Nat.two_pow_pos _
    · exact below

/--
Every number of 32 bits is read back from each of its encodings of five bytes at most, and the
pointer ends behind the encoding.

A number with a sign is read as its bits; whatever follows the encoding does not matter.
-/
theorem leb128_reads_back {n : Leb} (holds : Holds sec p (n.bytes ++ rest)) (short : n.size ≤ 5) :
    (∀ value : BitVec 32, n.value = value.toNat →
      readUleb128 sec p = .ok (value.toNat, p + n.bytes.length)) ∧
    (∀ value : BitVec 32, n.signed = value.toInt →
      readSleb128 sec p = .ok (value.toNat, p + n.bytes.length)) := by
  rw [n.length_bytes]
  constructor
  · intro value is_value
    rw [readUleb128_holds holds short, is_value, Nat.mod_eq_of_lt value.isLt]
  · intro value is_value
    obtain ⟨word, reads, same⟩ := readSleb128_holds holds short
    -- Words with the same bits are the same number.
    have below : word < 2 ^ 32 := readSleb128_word reads
    have bits := congrArg BitVec.toNat same
    rw [is_value, BitVec.ofInt_toInt, BitVec.toNat_ofNat, Nat.mod_eq_of_lt below] at bits
    rw [reads, bits]

/-- The lowest number of 32 bits with its sign, in five bytes, and the one without, padded. -/
theorem lowest_reads_back :
    (readSleb128 ⟨0x1000, [0x80, 0x80, 0x80, 0x80, 0x78, 0xff], by decide⟩ 0x1000 =
      .ok (0x80000000, 0x1005)) ∧
    (readUleb128 ⟨0x1000, [0x85, 0x80, 0x80, 0x80, 0x00], by decide⟩ 0x1000 =
      .ok (5, 0x1005)) := by
  constructor
  · have holds : Holds ⟨0x1000, [0x80, 0x80, 0x80, 0x80, 0x78, 0xff], by decide⟩ 0x1000
        ((⟨[0, 0, 0, 0], 0x78⟩ : Leb).bytes ++ [0xff]) := ⟨[], [], rfl, rfl⟩
    exact (leb128_reads_back holds (by decide)).2 0x80000000 (by decide)
  · have holds : Holds ⟨0x1000, [0x85, 0x80, 0x80, 0x80, 0x00], by decide⟩ 0x1000
        ((⟨[5, 0, 0, 0], 0⟩ : Leb).bytes ++ []) := ⟨[], [], rfl, rfl⟩
    exact (leb128_reads_back holds (by decide)).1 5 (by decide)

end TwoIne
