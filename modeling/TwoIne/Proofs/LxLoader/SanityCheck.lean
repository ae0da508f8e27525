import TwoIne.Lib.Outcomes
import TwoIne.LxLoader.SanityCheck

/-!
The checks of a file stay within it where its header does, and what they accept is a header with
all that is behind it.
-/

namespace TwoIne

open Outcomes

section Headers

variable {file : List UInt8} {fields : List (String × Nat)} {field : String} {exe : Nat}
  {checks : List FieldCheck} {exelen : BitVec 32}

/-- A field of a header is within the header. -/
theorem field_inside (fields : List (String × Nat)) (field : String) :
    fieldOffset fields field + fieldSize fields field ≤ fieldsSize fields := by
  induction fields with
  | nil => exact Nat.le_refl 0
  | cons entry fields ih =>
    unfold fieldOffset fieldSize at ih ⊢
    by_cases same : entry.1 = field
    · -- The field is the first one.
      rw [List.takeWhile_cons_of_neg (by simpa using same),
        List.find?_cons_of_pos (by simpa using same)]
      exact Nat.le_trans (Nat.le_of_eq (Nat.zero_add _)) (Nat.le_add_right _ _)
    · rw [List.takeWhile_cons_of_pos (by simpa using same),
        List.find?_cons_of_neg (by simpa using same)]
      simp only [fieldsSize]
      omega

/-- A number that is within the file is read. -/
theorem readNumber_inside {width offset : Nat} (inside : offset + width ≤ file.length) :
    readNumber width (file.drop offset) =
      .ok (littleEndian ((file.drop offset).take width), file.drop (offset + width)) := by
  unfold readNumber
  rw [if_pos (by rw [List.length_drop]; omega), List.drop_drop]

/-- A number that is not within the file is not read. -/
theorem readNumber_outside {width offset : Nat} (some_wanted : 0 < width)
    (outside : file.length < offset + width) :
    readNumber width (file.drop offset) = .error .outside := by
  unfold readNumber
  rw [if_neg (by rw [List.length_drop]; omega)]

/-- The checks of a header that is within the file stay within it. -/
theorem runChecks_ends (inside : exe + fieldsSize fields ≤ file.length) :
    Ends (fun _ => False) (runChecks file exe fields checks) fun _ => True := by
  induction checks with
  | nil => exact Ends.ok trivial
  | cons check checks ih =>
    have within := field_inside fields check.field
    unfold runChecks
    rw [readNumber_inside (by omega)]
    dsimp only [bind, Except.bind]
    split
    · exact Ends.ok trivial
    · exact ih

/-- The check of a header stays within the file, and what it accepts is a whole header. -/
theorem sanityCheckHeader_ends (suffix : exe + exelen.toNat = file.length) :
    Ends (fun _ => False) (sanityCheckHeader fields checks file exe exelen) fun refused =>
      refused = none → fieldsSize fields ≤ exelen.toNat := by
  unfold sanityCheckHeader
  by_cases short : exelen.toNat ≤ fieldsSize fields
  · rw [if_pos short]
    exact Ends.ok fun accepted => absurd accepted (Option.some_ne_none _)
  · rw [if_neg short]
    exact (runChecks_ends (by omega)).mono (fun _ _ _ => by omega) fun _ => id

end Headers

section Files

variable {file : List UInt8} {is_lx : Bool} {notOs2 : String}
  {checkLx checkNe : List UInt8 → Nat → BitVec 32 → Except TableFault (Option String)}

/-- The size of the header of a module. -/
def headerSizeOf (is_lx : Bool) : Nat := if is_lx then lxHeaderSize else neHeaderSize

/-- What is accepted is the end of the file from the header on, and the whole header is there. -/
structure AcceptedSuffix (file : List UInt8) (answer : SanityAnswer) : Prop where
  suffix : answer.exe + answer.exelen.toNat = file.length
  whole : headerSizeOf answer.is_lx ≤ answer.exelen.toNat

/-- A check reads nothing outside the file, and what it accepts is a header with what is behind. -/
def ChecksWithin (file : List UInt8) (run : Except TableFault SanityAnswer) : Prop :=
  Ends (fun _ => False) run fun answer => answer.refused = none → AcceptedSuffix file answer

/-- Where the file says that its header is. -/
def headerOffset (file : List UInt8) : Nat := littleEndian ((file.drop 0x3C).take 4)

/--
A file is too short to be looked at, or its header is within it, and so is the second byte of the
header if the first one is the one of a module.
-/
def HeaderWithin (file : List UInt8) : Prop :=
  file.length < 62 ∨ 64 ≤ file.length ∧ headerOffset file < file.length ∧
    (file[headerOffset file]? = some 0x4C ∨ file[headerOffset file]? = some 0x4E →
      headerOffset file + 1 < file.length)

/-- What is left of the file behind an offset within it is what its length says. -/
theorem rest_length (short : file.length < 2 ^ 32) {offset : Nat} (inside : offset ≤ file.length) :
    offset + (BitVec.ofNat 32 file.length - BitVec.ofNat 32 offset).toNat = file.length := by
  rw [BitVec.toNat_sub, BitVec.toNat_ofNat, BitVec.toNat_ofNat]
  omega

/-- The check of a header that the whole check relies on. -/
def HeaderChecked (check : List UInt8 → Nat → BitVec 32 → Except TableFault (Option String))
    (size : Nat) : Prop :=
  ∀ (file : List UInt8) (exe : Nat) (exelen : BitVec 32), exe + exelen.toNat = file.length →
    Ends (fun _ => False) (check file exe exelen) fun refused =>
      refused = none → size ≤ exelen.toNat

/-- The byte at an offset within the file is read. -/
theorem readByte_inside {offset : Nat} {byte : UInt8} (there : file[offset]? = some byte) :
    readNumber 1 (file.drop offset) = .ok (byte.toNat, file.drop (offset + 1)) := by
  obtain ⟨inside, same⟩ := List.getElem?_eq_some_iff.mp there
  have one : (file.drop offset).take 1 = [byte] := by
    rw [List.drop_eq_getElem_cons inside, List.take_succ_cons, List.take_zero, same]
  rw [readNumber_inside (by omega), one, littleEndian, List.map_cons, List.map_nil,
    Nat.ofDigits_singleton]

/-- The check that follows a byte of a header is the only thing that may leave the file. -/
theorem magic_within_iff (kind : Bool) {exe second : Nat} {exelen : BitVec 32}
    {check : List UInt8 → Nat → BitVec 32 → Except TableFault (Option String)}
    (suffix : exe + 1 ≤ file.length → exe + exelen.toNat = file.length)
    (checked : HeaderChecked check (headerSizeOf kind)) :
    ChecksWithin file (do
      let magic1 ← readNumber 1 (file.drop (exe + 1))
      if magic1.1 = second then
        let refused ← check file exe exelen
        return ⟨exe, exelen, kind, refused⟩
      else return ⟨exe, exelen, is_lx, some notOs2⟩) ↔ exe + 1 < file.length := by
  by_cases inside : exe + 1 < file.length
  · refine iff_of_true ?_ inside
    rw [readByte_inside (List.getElem?_eq_getElem inside)]
    dsimp only [bind, Except.bind]
    split
    · -- The length that is left is the one behind the header.
      have rest := suffix (by omega)
      exact (checked file exe exelen rest).bind fun refused whole =>
        Ends.ok fun accepted => ⟨rest, whole accepted⟩
    · exact Ends.ok fun accepted => absurd accepted (Option.some_ne_none _)
  · rw [readNumber_outside (by decide) (by omega)]
    exact iff_of_false id inside

/-- A file is checked within it exactly if its header is within it. -/
theorem sanityCheckFile_within_iff (short : file.length < 2 ^ 32)
    (lx : HeaderChecked checkLx lxHeaderSize) (ne : HeaderChecked checkNe neHeaderSize) :
    ChecksWithin file (sanityCheckFile notOs2 checkLx checkNe file is_lx) ↔ HeaderWithin file := by
  have length : (BitVec.ofNat 32 file.length).toNat = file.length := by
    rw [BitVec.toNat_ofNat, Nat.mod_eq_of_lt short]
  unfold sanityCheckFile
  dsimp only
  rw [length]
  by_cases tiny : file.length < 62
  · rw [if_pos tiny]
    exact iff_of_true (Ends.ok fun accepted => absurd accepted (Option.some_ne_none _)) (.inl tiny)
  rw [if_neg tiny]
  by_cases room : 64 ≤ file.length
  · rw [readNumber_inside (by omega)]
    show ChecksWithin file (sanityCheckMagic notOs2 checkLx checkNe file is_lx (headerOffset file)
      (BitVec.ofNat 32 file.length - BitVec.ofNat 32 (headerOffset file))) ↔ _
    unfold HeaderWithin
    generalize headerOffset file = offset
    unfold sanityCheckMagic
    by_cases inside : offset < file.length
    · have suffix := rest_length short (Nat.le_of_lt inside)
      have there : file[offset]? = some file[offset] := List.getElem?_eq_getElem inside
      rw [readByte_inside there, there]
      change ChecksWithin file (if file[offset].toNat = 0x4C then _ else _) ↔ _
      by_cases first : file[offset] = 0x4C
      · have known : file[offset].toNat = 0x4C := congrArg UInt8.toNat first
        rw [if_pos known, first]
        refine (magic_within_iff true (fun _ => suffix) lx).trans ?_
        exact ⟨fun next => .inr ⟨room, inside, fun _ => next⟩, fun within =>
          within.elim (fun little => absurd little tiny) fun within => within.2.2 (.inl rfl)⟩
      · have other : file[offset].toNat ≠ 0x4C := fun same => first (UInt8.toNat_inj.mp same)
        rw [if_neg other]
        change ChecksWithin file (if file[offset].toNat = 0x4E then _ else _) ↔ _
        by_cases second : file[offset] = 0x4E
        · have known : file[offset].toNat = 0x4E := congrArg UInt8.toNat second
          rw [if_pos known, second]
          refine (magic_within_iff false (fun _ => suffix) ne).trans ?_
          exact ⟨fun next => .inr ⟨room, inside, fun _ => next⟩, fun within =>
            within.elim (fun little => absurd little tiny) fun within => within.2.2 (.inr rfl)⟩
        · -- No second byte is read behind another first one.
          have neither : file[offset].toNat ≠ 0x4E := fun same => second (UInt8.toNat_inj.mp same)
          rw [if_neg neither]
          refine iff_of_true (Ends.ok fun accepted => absurd accepted (Option.some_ne_none _))
            (.inr ⟨room, inside, fun either => ?_⟩)
          exact either.elim (fun same => absurd (Option.some.inj same) first) fun same =>
            absurd (Option.some.inj same) second
    · -- The first byte of the header is not in the file.
      rw [readNumber_outside (by decide) (by omega)]
      exact iff_of_false id fun within => within.elim tiny fun within => inside within.2.1
  · -- The offset of the header is not all in the file.
    rw [readNumber_outside (by decide) (by omega)]
    exact iff_of_false id fun within => within.elim tiny fun inside => room inside.1

/-- Both checks stay within a file, and accept whole headers, exactly if its header is within it. -/
theorem sanity_within_iff (short : file.length < 2 ^ 32) (is_lx : Bool) :
    ChecksWithin file (sanityCheckModule file is_lx) ∧
        ChecksWithin file (sanityCheckExe file is_lx) ↔ HeaderWithin file := by
  have loader : ChecksWithin file (sanityCheckModule file is_lx) ↔ HeaderWithin file :=
    sanityCheckFile_within_iff short (fun _ _ _ suffix => sanityCheckHeader_ends suffix)
      fun _ _ _ suffix => sanityCheckHeader_ends suffix
  have dump : ChecksWithin file (sanityCheckExe file is_lx) ↔ HeaderWithin file :=
    sanityCheckFile_within_iff short (fun _ _ _ suffix => sanityCheckHeader_ends suffix)
      fun _ _ _ suffix => sanityCheckHeader_ends suffix
  rw [loader, dump, and_self]

end Files

/-- A file of 64 bytes whose header is said to be at 0x1000. -/
def headerBehind : List UInt8 := List.replicate 0x3C 0 ++ [0x00, 0x10, 0x00, 0x00]

/-- A file of 64 bytes without anything but its stub is refused, and nothing else is read. -/
theorem stub_within :
    ChecksWithin (List.replicate 64 0) (sanityCheckModule (List.replicate 64 0) false) ∧
      ChecksWithin (List.replicate 64 0) (sanityCheckExe (List.replicate 64 0) false) :=
  (sanity_within_iff (by decide) false).mpr (.inr (by decide))

/-- A header behind the end of the file is looked at. -/
theorem header_behind_outside :
    ¬ ChecksWithin headerBehind (sanityCheckModule headerBehind false) ∧
      ¬ ChecksWithin headerBehind (sanityCheckExe headerBehind false) :=
  ⟨id, id⟩

end TwoIne
