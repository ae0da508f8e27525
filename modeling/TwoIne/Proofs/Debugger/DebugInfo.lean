import TwoIne.LxLoader.LxHeader
import TwoIne.Proofs.Debugger.FileReaders

/-!
Which debug information is found in a file, and which reads leave it.

The debugger takes the image of an LX module from other fields than those of its header that lead to
debug information.
-/

namespace TwoIne

open Regions

variable {file : ExeFile}

/-- An offset in a file is an address that is not wrapped around. -/
theorem ExeFile.at_eq {offset : Nat} (within : offset ≤ file.size + 0xFFF) :
    file.at offset = file.region.base + offset := by
  have fits := file.region.fits
  simp only [ExeFile.size] at within
  exact Nat.mod_eq_of_lt (by omega)

/-- Bytes at an offset lie in the file if they end before it does. -/
theorem ExeFile.inside_iff {offset n : Nat} (within : offset ≤ file.size + 0xFFF) :
    Inside file.region (file.at offset) n ↔ offset + n ≤ file.size := by
  rw [file.at_eq within]
  simp only [Inside, Region.finish, ExeFile.size]
  omega

/-- Moving on from an offset. -/
theorem ExeFile.advance_at (file : ExeFile) (offset n : Nat) :
    advance (file.at offset) n = file.at (offset + n) := advance_advance _ _ _

/-! The trailer -/

/-- The length of the image, as a trailer has it. -/
def trailerInfo (file : ExeFile) : Option Nat :=
  if file.size < 16 then none
  else
    let trailer := file.region.from (file.at (file.size - 16))
    let info := word (file.region.from (file.at (file.size - 4)))
    if tisSignature.isPrefixOf trailer ∧ info ≠ 0 ∧ info ≤ file.size then some info else none

/-- Whether an ELF image starts at an offset. -/
def ElfAt (file : ExeFile) (offset : Nat) : Prop :=
  elfMagic.isPrefixOf (file.region.from (file.at offset)) = true

/-- The image of a trailer is looked at, at its first four bytes. -/
theorem findElfDebugNe_eq (file : ExeFile) : findElfDebugNe file =
    match trailerInfo file with
    | none => .ok none
    | some info =>
      if info < 4 then .error .outside
      else .ok (if elfMagic.isPrefixOf (file.region.from (file.at (file.size - info))) then
        some (file.size - info) else none) := by
  rw [findElfDebugNe, trailerInfo]
  by_cases short : file.size < 16
  · rw [if_pos short, if_pos short]
  rw [if_neg short, if_neg short]
  have signature : Inside file.region (file.at (file.size - 16)) tisSignature.length := by
    rw [ExeFile.inside_iff (by omega)]
    simp only [tisSignature, List.length_cons, List.length_nil]
    omega
  have moved : advance (file.at (file.size - 16)) 12 = file.at (file.size - 4) := by
    rw [ExeFile.advance_at]
    congr 1
    omega
  have length : Inside file.region (file.at (file.size - 4)) 4 := by
    rw [ExeFile.inside_iff (by omega)]
    omega
  simp only [memcmpAt, if_pos signature, moved, readU32Le_eq, if_pos length, bind, Except.bind,
    pure, Except.pure]
  by_cases signed : tisSignature.isPrefixOf (file.region.from (file.at (file.size - 16))) = true
  · simp only [signed, Bool.not_true, Bool.false_eq_true, if_false, true_and]
    generalize word (file.region.from (file.at (file.size - 4))) = info
    by_cases some_image : info ≠ 0 ∧ info ≤ file.size
    · have kept : ¬ (info = 0 ∨ file.size < info) := by omega
      rw [if_neg kept, if_pos some_image]
      by_cases few : info < 4
      · -- The comparison reads beyond the end of the file.
        have outside : ¬ Inside file.region (file.at (file.size - info)) elfMagic.length := by
          rw [ExeFile.inside_iff (by omega)]
          simp only [elfMagic, List.length_cons, List.length_nil]
          omega
        simp only [if_neg outside, if_pos few]
      · have inside : Inside file.region (file.at (file.size - info)) elfMagic.length := by
          rw [ExeFile.inside_iff (by omega)]
          simp only [elfMagic, List.length_cons, List.length_nil]
          omega
        simp only [if_pos inside, if_neg few]
        cases elfMagic.isPrefixOf (file.region.from (file.at (file.size - info))) <;> rfl
    · have refused : info = 0 ∨ file.size < info := by omega
      rw [if_pos refused, if_neg some_image]
  · simp [signed]

/-! The header -/

/-- The byte at an offset. -/
def byteAt (file : ExeFile) (offset : Nat) : UInt8 := (file.region.from (file.at offset)).headD 0

/-- Whether the header of a linear module starts at an offset. -/
def LxSignature (file : ExeFile) (offset : Nat) : Prop :=
  byteAt file offset = 0x4C ∧ (byteAt file (offset + 1) = 0x58 ∨ byteAt file (offset + 1) = 0x45)

/-- The offset of a header, as the debugger reads it. -/
def HeaderAt (file : ExeFile) (h : Nat) : Prop :=
  64 ≤ file.size ∧ h = half (file.region.from (file.at 0x3C)) ∧ h ≠ 0 ∧ h < file.size - 4 ∧
    LxSignature file h

/-- The dword at an offset. -/
def dwordAt (file : ExeFile) (offset : Nat) : Nat := word (file.region.from (file.at offset))

/-- Whether the fields that the debugger reads lead to an offset in the file. -/
def FieldsLeadTo (file : ExeFile) (h offset : Nat) : Prop :=
  dwordAt file (h + lxDebugInfoOffset) = offset ∧ offset ≠ 0 ∧
    dwordAt file (h + lxDebugInfoLen) ≠ 0 ∧ offset < file.size

/-- The fields and the image that they lead to lie in the file. -/
def HeaderRight (file : ExeFile) : Prop :=
  ∀ h, HeaderAt file h → h + lxDebugInfoLen + 4 ≤ file.size ∧
    ∀ offset, FieldsLeadTo file h offset → offset + 4 ≤ file.size

/-- The offset that the debugger reads of a header leads to the signature. -/
theorem findElfDebugLx_long (long : 64 ≤ file.size) : findElfDebugLx file = (do
    let hdrOff := half (file.region.from (file.at 0x3C))
    if hdrOff = 0 ∨ file.size - 4 ≤ hdrOff then return none
    if byteAt file hdrOff ≠ 0x4C ∨ byteAt file (hdrOff + 1) ≠ 0x58 ∧
      byteAt file (hdrOff + 1) ≠ 0x45 then return none
    let dbgOff ← readU32Le file.region (file.at (hdrOff + lxDebugInfoOffset))
    let dbgLen ← readU32Le file.region (file.at (hdrOff + lxDebugInfoLen))
    if dbgOff = 0 ∨ dbgLen = 0 then return none
    if file.size ≤ dbgOff then return none
    let magic ← memcmpAt file.region (file.at dbgOff) elfMagic
    if !magic then return none
    return some dbgOff) := by
  have field : Inside file.region (file.at 0x3C) 2 := by
    rw [ExeFile.inside_iff (by omega)]
    omega
  rw [findElfDebugLx, if_neg (Nat.not_lt.mpr long), readU16Le_eq, if_pos field]
  simp only [bind, Except.bind]
  by_cases outside : half (file.region.from (file.at 0x3C)) = 0 ∨
      file.size - 4 ≤ half (file.region.from (file.at 0x3C))
  · rw [if_pos outside, if_pos outside]
  · generalize half (file.region.from (file.at 0x3C)) = h at outside ⊢
    -- The signature lies in front of the end of the file.
    have first : Inside file.region (file.at h) 1 := by
      rw [ExeFile.inside_iff (by omega)]
      omega
    have second : Inside file.region (file.at (h + 1)) 1 := by
      rw [ExeFile.inside_iff (by omega)]
      omega
    simp only [if_neg outside, ExeFile.advance_at, readByte_eq, if_pos first, if_pos second]
    rfl

/-- Without a header no image is found. -/
theorem findElfDebugLx_none (none_at : ∀ h, ¬ HeaderAt file h) :
    findElfDebugLx file = .ok none := by
  by_cases long : 64 ≤ file.size
  · rw [findElfDebugLx_long long]
    have not_here := none_at (half (file.region.from (file.at 0x3C)))
    by_cases outside : half (file.region.from (file.at 0x3C)) = 0 ∨
        file.size - 4 ≤ half (file.region.from (file.at 0x3C))
    · simp only [if_pos outside, pure, Except.pure]
    · have unsigned : ¬ LxSignature file (half (file.region.from (file.at 0x3C))) := fun signed =>
        not_here ⟨long, rfl, fun zero => outside (Or.inl zero), by omega, signed⟩
      have other : byteAt file (half (file.region.from (file.at 0x3C))) ≠ 0x4C ∨
          byteAt file (half (file.region.from (file.at 0x3C)) + 1) ≠ 0x58 ∧
            byteAt file (half (file.region.from (file.at 0x3C)) + 1) ≠ 0x45 := by
        rwa [LxSignature, not_and_or, not_or] at unsigned
      simp only [if_neg outside, if_pos other, pure, Except.pure]
  · rw [findElfDebugLx, if_pos (Nat.not_le.mp long)]

/-- With a header its fields are followed. -/
theorem findElfDebugLx_header {h : Nat} (header : HeaderAt file h) : findElfDebugLx file =
    if file.size < h + lxDebugInfoLen + 4 then .error .outside
    else
      let offset := dwordAt file (h + lxDebugInfoOffset)
      if offset = 0 ∨ dwordAt file (h + lxDebugInfoLen) = 0 ∨ file.size ≤ offset then .ok none
      else if file.size < offset + 4 then .error .outside
      else .ok (if elfMagic.isPrefixOf (file.region.from (file.at offset)) then some offset
        else none) := by
  obtain ⟨long, rfl, nonzero, within, signed⟩ := header
  rw [findElfDebugLx_long long]
  generalize half (file.region.from (file.at 0x3C)) = h at nonzero within signed ⊢
  have inside : ¬ (h = 0 ∨ file.size - 4 ≤ h) := by omega
  have same : ¬ (byteAt file h ≠ 0x4C ∨ byteAt file (h + 1) ≠ 0x58 ∧
      byteAt file (h + 1) ≠ 0x45) := by
    rw [not_or, not_and_or, not_not, not_not, not_not]
    exact signed
  have first_iff : Inside file.region (file.at (h + lxDebugInfoOffset)) 4 ↔
      h + lxDebugInfoOffset + 4 ≤ file.size :=
    ExeFile.inside_iff (by simp only [lxDebugInfoOffset]; omega)
  have second_iff : Inside file.region (file.at (h + lxDebugInfoLen)) 4 ↔
      h + lxDebugInfoLen + 4 ≤ file.size :=
    ExeFile.inside_iff (by simp only [lxDebugInfoLen]; omega)
  simp only [if_neg inside, if_neg same, readU32Le_eq, memcmpAt, bind, Except.bind, pure,
    Except.pure]
  by_cases short : file.size < h + lxDebugInfoLen + 4
  · -- The second field is not in the file, and the first one may not be either.
    have outside : ¬ Inside file.region (file.at (h + lxDebugInfoLen)) 4 :=
      fun second => absurd (second_iff.mp second) (Nat.not_le.mpr short)
    by_cases first : Inside file.region (file.at (h + lxDebugInfoOffset)) 4
    · simp only [if_pos first, if_neg outside, if_pos short]
    · simp only [if_neg first, if_pos short]
  · have second : Inside file.region (file.at (h + lxDebugInfoLen)) 4 :=
      second_iff.mpr (Nat.not_lt.mp short)
    have first : Inside file.region (file.at (h + lxDebugInfoOffset)) 4 := by
      apply first_iff.mpr
      simp only [lxDebugInfoOffset, lxDebugInfoLen] at short ⊢
      omega
    simp only [if_pos first, if_pos second, if_neg short]
    have field : ∀ place, word (file.region.from (file.at place)) = dwordAt file place :=
      fun _ => rfl
    simp only [field]
    generalize dwordAt file (h + lxDebugInfoOffset) = offset
    generalize dwordAt file (h + lxDebugInfoLen) = length
    by_cases zero : offset = 0 ∨ length = 0
    · have nothing : offset = 0 ∨ length = 0 ∨ file.size ≤ offset :=
        zero.imp_right Or.inl
      simp only [if_pos zero, if_pos nothing]
    · by_cases beyond : file.size ≤ offset
      · have nothing : offset = 0 ∨ length = 0 ∨ file.size ≤ offset := Or.inr (Or.inr beyond)
        simp only [if_neg zero, if_pos beyond, if_pos nothing]
      · have something : ¬ (offset = 0 ∨ length = 0 ∨ file.size ≤ offset) := by omega
        have magic_iff : Inside file.region (file.at offset) elfMagic.length ↔
            offset + 4 ≤ file.size := ExeFile.inside_iff (by omega)
        simp only [if_neg zero, if_neg beyond, if_neg something, magic_iff]
        by_cases few : file.size < offset + 4
        · simp only [if_neg (Nat.not_le.mpr few), if_pos few]
        · simp only [if_pos (Nat.not_lt.mp few), if_neg few]
          cases elfMagic.isPrefixOf (file.region.from (file.at offset)) <;> rfl

/-! The images that are found -/

/-- The image that the trailer leads to. -/
def TrailerImage (file : ExeFile) (offset : Nat) : Prop :=
  ∃ info, trailerInfo file = some info ∧ offset = file.size - info ∧ ElfAt file offset

/-- The image of a trailer is not too short for the comparison. -/
def TrailerRight (file : ExeFile) : Prop := ∀ info, trailerInfo file = some info → 4 ≤ info

/-- The image that the fields lead to which the debugger reads. -/
def FieldsImage (file : ExeFile) (offset : Nat) : Prop :=
  ∃ h, HeaderAt file h ∧ FieldsLeadTo file h offset ∧ ElfAt file offset

/-- The trailer is read within the file, if its image is not too short. -/
theorem findElfDebugNe_right (right : TrailerRight file) :
    ∃ found, findElfDebugNe file = .ok found ∧
      ∀ offset, found = some offset ↔ TrailerImage file offset := by
  rw [findElfDebugNe_eq]
  simp only [TrailerImage]
  cases trailer : trailerInfo file with
  | none => exact ⟨none, rfl, by simp⟩
  | some info =>
    refine ⟨_, if_neg (Nat.not_lt.mpr (right info trailer)), fun offset => ?_⟩
    simp only [Option.some.injEq, exists_eq_left', ElfAt]
    split
    · rename_i magic
      rw [Option.some.injEq]
      constructor
      · rintro rfl
        exact ⟨rfl, magic⟩
      · exact fun image => image.1.symm
    · rename_i other
      simp only [reduceCtorEq, false_iff, not_and]
      rintro rfl
      exact other

/-- The trailer leads out of the file otherwise. -/
theorem findElfDebugNe_wrong (wrong : ¬ TrailerRight file) :
    findElfDebugNe file = .error .outside := by
  simp only [TrailerRight, not_forall, Nat.not_le] at wrong
  obtain ⟨info, trailer, few⟩ := wrong
  rw [findElfDebugNe_eq, trailer]
  exact if_pos few

/-- The header is read within the file, if its fields and their image are in it. -/
theorem findElfDebugLx_right (right : HeaderRight file) :
    ∃ found, findElfDebugLx file = .ok found ∧
      ∀ offset, found = some offset ↔ FieldsImage file offset := by
  by_cases header : ∃ h, HeaderAt file h
  · obtain ⟨h, header⟩ := header
    obtain ⟨fields, images⟩ := right h header
    have only : ∀ offset, FieldsImage file offset ↔
        FieldsLeadTo file h offset ∧ ElfAt file offset := by
      intro offset
      constructor
      · rintro ⟨h', header', leads⟩
        rw [header'.2.1, ← header.2.1] at leads
        exact leads
      · exact fun leads => ⟨h, header, leads⟩
    rw [findElfDebugLx_header header, if_neg (Nat.not_lt.mpr fields)]
    simp only [only]
    by_cases nothing : dwordAt file (h + lxDebugInfoOffset) = 0 ∨
        dwordAt file (h + lxDebugInfoLen) = 0 ∨
          file.size ≤ dwordAt file (h + lxDebugInfoOffset)
    · refine ⟨none, if_pos nothing, fun offset => ?_⟩
      simp only [reduceCtorEq, false_iff, FieldsLeadTo]
      rintro ⟨⟨rfl, nonzero, length, within⟩, _⟩
      omega
    · have leads : FieldsLeadTo file h (dwordAt file (h + lxDebugInfoOffset)) := by
        rw [not_or, not_or] at nothing
        exact ⟨rfl, nothing.1, nothing.2.1, Nat.not_le.mp nothing.2.2⟩
      have within := Nat.not_lt.mpr (images _ leads)
      refine ⟨_, (if_neg nothing).trans (if_neg within), fun offset => ?_⟩
      split
      · rename_i magic
        rw [Option.some.injEq]
        constructor
        · rintro rfl
          exact ⟨leads, magic⟩
        · exact fun image => image.1.1
      · rename_i other
        simp only [reduceCtorEq, false_iff, not_and]
        intro image magic
        rw [← image.1] at magic
        exact other magic
  · refine ⟨none, findElfDebugLx_none (not_exists.mp header), fun offset => ?_⟩
    simp only [reduceCtorEq, false_iff]
    rintro ⟨h, found, _⟩
    exact header ⟨h, found⟩

/-- The header leads out of the file otherwise. -/
theorem findElfDebugLx_wrong (wrong : ¬ HeaderRight file) :
    findElfDebugLx file = .error .outside := by
  simp only [HeaderRight, not_forall, not_and_or] at wrong
  obtain ⟨h, header, wrong⟩ := wrong
  rw [findElfDebugLx_header header]
  by_cases short : file.size < h + lxDebugInfoLen + 4
  · rw [if_pos short]
  · rw [if_neg short]
    obtain ⟨offset, leads, outside⟩ := wrong.resolve_left (by omega)
    obtain ⟨rfl, nonzero, length, within⟩ := leads
    have something : ¬ (dwordAt file (h + lxDebugInfoOffset) = 0 ∨
        dwordAt file (h + lxDebugInfoLen) = 0 ∨
          file.size ≤ dwordAt file (h + lxDebugInfoOffset)) := by omega
    simp only [if_neg something, if_pos (Nat.not_le.mp outside)]

/-! The sections -/

variable {region : Region} {shstrtab : Option Nat}

/-- The sections of an image that name a section by a name that ends in the file. -/
def NamesEnd (region : Region) (shstrtab : Option Nat) (headers : List SectionHeader) : Prop :=
  ∀ header ∈ headers, ∀ p, nameAddress shstrtab header = some p →
    ∀ name : DwarfName, ¬ CutShort (region.from p) name.bytes

/-- The section that the name at an address stands for. -/
def nameAt (region : Region) (p : Nat) : Option DwarfName :=
  dwarfNames.find? fun name => (name.bytes ++ [0]).isPrefixOf (region.from p)

/-- The section that a header is of. -/
def sectionOf (region : Region) (shstrtab : Option Nat) (header : SectionHeader) :
    Option DwarfName :=
  (nameAddress shstrtab header).bind (nameAt region)

/-- The last of some headers that is of a section. -/
def lastHeader (region : Region) (shstrtab : Option Nat) (name : DwarfName) :
    List SectionHeader → Option SectionHeader
  | [] => none
  | header :: rest =>
    (lastHeader region shstrtab name rest).or
      (if sectionOf region shstrtab header = some name then some header else none)

/-- No name ends the beginning of another one. -/
theorem not_cutShort_of_name {bytes : List UInt8} {name other : DwarfName}
    (named : name.bytes ++ [0] <+: bytes) : ¬ CutShort bytes other.bytes := by
  -- The two names would have to be the same, and then nothing is missing.
  rintro ⟨front, missing⟩
  have both := named.trans front
  cases name <;> cases other <;> first
    | exact absurd both (by decide)
    | exact missing (front.eq_of_length_le named.length_le)

/-- Names are compared within the file if none of them is cut short. -/
theorem sectionNamed_whole {p : Nat} (names : List DwarfName)
    (whole : ∀ name ∈ names, ¬ CutShort (region.from p) name.bytes) :
    sectionNamed region p names =
      .ok (names.find? fun name => (name.bytes ++ [0]).isPrefixOf (region.from p)) := by
  induction names with
  | nil => rfl
  | cons name rest ih =>
    rw [sectionNamed, strcmpAt_whole (whole name List.mem_cons_self), List.find?_cons]
    simp only [bind, Except.bind, pure, Except.pure]
    cases (name.bytes ++ [0]).isPrefixOf (region.from p) with
    | true => rfl
    | false => exact ih fun name member => whole name (List.mem_cons_of_mem _ member)

/-- Names are compared beyond the end of the file if one of them is cut short. -/
theorem sectionNamed_cut {p : Nat} {name : DwarfName} (names : List DwarfName)
    (member : name ∈ names) (cut : CutShort (region.from p) name.bytes) :
    sectionNamed region p names = .error .outside := by
  induction names with
  | nil => cases member
  | cons first rest ih =>
    rw [sectionNamed]
    by_cases here : CutShort (region.from p) first.bytes
    · rw [strcmpAt_cut here]
      rfl
    · rw [strcmpAt_whole here]
      -- A name that stands here would end, and the other one could not be cut short.
      have other : (first.bytes ++ [0]).isPrefixOf (region.from p) = false := by
        rw [Bool.eq_false_iff]
        intro same
        exact not_cutShort_of_name (List.isPrefixOf_iff_prefix.mp same) cut
      have later : name ∈ rest := by
        rcases List.mem_cons.mp member with rfl | later
        · exact absurd cut here
        · exact later
      simp only [bind, Except.bind, other, Bool.false_eq_true, if_false]
      exact ih later

/-- The last header of each section is found, if all names end in the file. -/
theorem findSections_whole (elf : Nat) (headers : List SectionHeader) (found : DwarfSections)
    (whole : NamesEnd region shstrtab headers) :
    ∃ sections, findSections region elf shstrtab headers found = .ok sections ∧
      ∀ name, sections name = ((lastHeader region shstrtab name headers).map fun header =>
        ⟨advance elf header.offset, header.size⟩).or (found name) := by
  induction headers generalizing found with
  | nil => exact ⟨found, rfl, fun _ => rfl⟩
  | cons header rest ih =>
    have later := fun h member => whole h (List.mem_cons_of_mem _ member)
    rw [findSections]
    cases address : nameAddress shstrtab header with
    | none =>
      obtain ⟨sections, ran, are⟩ := ih found later
      refine ⟨sections, ran, fun name => ?_⟩
      simp [are, lastHeader, sectionOf, address]
    | some p =>
      have named : sectionNamed region p dwarfNames = .ok (nameAt region p) :=
        sectionNamed_whole dwarfNames fun name _ => whole header List.mem_cons_self p address name
      simp only [named, bind, Except.bind]
      cases is_section : nameAt region p with
      | none =>
        obtain ⟨sections, ran, are⟩ := ih found later
        refine ⟨sections, ran, fun name => ?_⟩
        simp [are, lastHeader, sectionOf, address, is_section]
      | some own =>
        obtain ⟨sections, ran, are⟩ := ih (Function.update found own
          (some ⟨advance elf header.offset, header.size⟩)) later
        refine ⟨sections, ran, fun name => ?_⟩
        rw [are, lastHeader, sectionOf, address, Option.bind_some, is_section, Option.map_or,
          Option.or_assoc]
        congr 1
        by_cases same : own = name
        · rw [same, Function.update_self, if_pos rfl]
          rfl
        · rw [Function.update_of_ne (Ne.symm same), if_neg fun equal => same (Option.some.inj equal)]
          rfl

/-- The search leaves the file if a name does not end in it. -/
theorem findSections_cut (elf : Nat) {headers : List SectionHeader} (found : DwarfSections)
    (cut : ¬ NamesEnd region shstrtab headers) :
    findSections region elf shstrtab headers found = .error .outside := by
  induction headers generalizing found with
  | nil => exact absurd (fun _ member => absurd member List.not_mem_nil) cut
  | cons header rest ih =>
    rw [findSections]
    by_cases here : ∀ p, nameAddress shstrtab header = some p →
        ∀ name : DwarfName, ¬ CutShort (region.from p) name.bytes
    · have later : ¬ NamesEnd region shstrtab rest := by
        intro ends
        apply cut
        intro other member
        rcases List.mem_cons.mp member with rfl | member
        · exact here
        · exact ends other member
      cases address : nameAddress shstrtab header with
      | none => exact ih found later
      | some p =>
        have named := sectionNamed_whole dwarfNames fun name _ => here p address name
        simp only [named, bind, Except.bind]
        split
        · exact ih found later
        · exact ih _ later
    · simp only [not_forall, not_not] at here
      obtain ⟨p, address, name, is_cut⟩ := here
      have member : name ∈ dwarfNames := by cases name <;> decide
      simp only [address, sectionNamed_cut dwarfNames member is_cut, bind, Except.bind]

/-! The section headers -/

/-- Section headers of a table, a number of them from an index on. -/
def tableHeaders (region : Region) (table entrySize : Nat) : Nat → Nat → List SectionHeader
  | _, 0 => []
  | i, count + 1 =>
    sectionHeader (region.from (advance table (i * entrySize))) ::
      tableHeaders region table entrySize (i + 1) count

/-- Headers in the file are copied. -/
theorem copyHeaders_inside {table entrySize count : Nat} {i : Nat}
    (inside : ∀ k < count, Inside region (advance table ((i + k) * entrySize)) 40) :
    copyHeaders region table entrySize i count =
      .ok (tableHeaders region table entrySize i count) := by
  induction count generalizing i with
  | zero => rfl
  | succ count ih =>
    have first : Inside region (advance table (i * entrySize)) 40 := inside 0 (Nat.succ_pos count)
    have later := ih (i := i + 1) fun k below => by
      rw [Nat.add_assoc, Nat.add_comm 1 k]
      exact inside (k + 1) (Nat.succ_lt_succ below)
    rw [copyHeaders, copyHeader, if_pos first]
    simp only [later, bind, Except.bind, pure, Except.pure, tableHeaders]

/-- A header that is not in the file cannot be copied. -/
theorem copyHeaders_outside {table entrySize count : Nat} {i k : Nat} (below : k < count)
    (outside : ¬ Inside region (advance table ((i + k) * entrySize)) 40) :
    copyHeaders region table entrySize i count = .error .outside := by
  induction count generalizing i k with
  | zero => exact absurd below (Nat.not_lt_zero k)
  | succ count ih =>
    rw [copyHeaders, copyHeader]
    by_cases first : Inside region (advance table (i * entrySize)) 40
    · have later : 0 < k := by
        rcases Nat.eq_zero_or_pos k with rfl | later
        · exact absurd first outside
        · exact later
      have behind := ih (i := i + 1) (k := k - 1) (by omega) (by
        rwa [show i + 1 + (k - 1) = i + k by omega])
      simp only [if_pos first, behind, bind, Except.bind]
    · simp only [if_neg first, bind, Except.bind]

/-! The image -/

/-- The number of section headers of an image. -/
def headerCount (file : ExeFile) (elf : Nat) : Nat := half (file.region.from (advance elf 48))

/-- The size of a section header of an image. -/
def headerSize (file : ExeFile) (elf : Nat) : Nat := half (file.region.from (advance elf 46))

/-- The address of the section headers of an image. -/
def headerTable (file : ExeFile) (elf : Nat) : Nat :=
  advance elf (word (file.region.from (advance elf 32)))

/-- The section headers of an image. -/
def imageHeaders (file : ExeFile) (elf : Nat) : List SectionHeader :=
  tableHeaders file.region (headerTable file elf) (headerSize file elf) 0 (headerCount file elf)

/-- The address of the names of the sections of an image. -/
def imageNames (file : ExeFile) (elf : Nat) : Option Nat :=
  stringTable elf (half (file.region.from (advance elf 50))) (imageHeaders file elf)

/-- The section headers of an image and their names lie in the file. -/
structure TableInside (file : ExeFile) (elf : Nat) : Prop where
  table : ∀ k < headerCount file elf,
    Inside file.region (advance (headerTable file elf) (k * headerSize file elf)) 40
  index : Inside file.region (advance elf 50) 2
  names : NamesEnd file.region (imageNames file elf) (imageHeaders file elf)

/-- What an image has to meet for its sections to be found in the file. -/
structure ImageRight (file : ExeFile) (elf : Nat) : Prop where
  counted : Inside file.region (advance elf 48) 2
  headers : headerCount file elf ≠ 0 → 40 ≤ headerSize file elf → TableInside file elf
  sections : headerCount file elf ≠ 0 → 40 ≤ headerSize file elf → ∀ name header,
    lastHeader file.region (imageNames file elf) name (imageHeaders file elf) = some header →
      Inside file.region (advance elf header.offset) header.size

/-- All the sections that were found lie in the file. -/
def SectionsInside (file : ExeFile) (found : Option DwarfSections) : Prop :=
  ∀ sections name found_section, found = some sections → sections name = some found_section →
    Inside file.region found_section.start found_section.size

/-- The numbers in front of that of the sections lie in the file if that one does. -/
theorem inside_before {elfBase place n : Nat} (within : elfBase ≤ file.size)
    (counted : Inside file.region (advance (file.at elfBase) 48) 2) (front : place + n ≤ 50) :
    Inside file.region (advance (file.at elfBase) place) n := by
  rw [ExeFile.advance_at, ExeFile.inside_iff (by omega)] at counted ⊢
  omega

/-- Without section headers, or memory for them, no section is found. -/
theorem parseElfSections_none {elfBase : Nat} {memory : Bool} (within : elfBase ≤ file.size)
    (counted : Inside file.region (advance (file.at elfBase) 48) 2)
    (nothing : headerCount file (file.at elfBase) = 0 ∨
      headerSize file (file.at elfBase) < 40 ∨ memory = false) :
    parseElfSections file elfBase memory = .ok none := by
  have entry := inside_before (n := 2) within counted (Nat.le_of_ble_eq_true rfl : 46 + 2 ≤ 50)
  simp only [parseElfSections, readU16Le_eq, if_pos counted, if_pos entry, bind, Except.bind, pure,
    Except.pure]
  by_cases zero : headerCount file (file.at elfBase) = 0
  · exact if_pos zero
  · refine (if_neg zero).trans ?_
    by_cases short : headerSize file (file.at elfBase) < 40
    · exact if_pos short
    · have no_memory := (nothing.resolve_left zero).resolve_left short
      refine (if_neg short).trans ?_
      rw [no_memory]
      rfl

/-- Otherwise the headers are copied, and the sections are looked for among them. -/
theorem parseElfSections_table {elfBase : Nat} (within : elfBase ≤ file.size)
    (counted : Inside file.region (advance (file.at elfBase) 48) 2)
    (some_headers : headerCount file (file.at elfBase) ≠ 0)
    (long : 40 ≤ headerSize file (file.at elfBase)) :
    parseElfSections file elfBase true = (do
      let headers ← copyHeaders file.region (headerTable file (file.at elfBase))
        (headerSize file (file.at elfBase)) 0 (headerCount file (file.at elfBase))
      let shstrndx ← readU16Le file.region (advance (file.at elfBase) 50)
      let found ← findSections file.region (file.at elfBase)
        (stringTable (file.at elfBase) shstrndx headers) headers fun _ => none
      return some found) := by
  have entry := inside_before (n := 2) within counted (Nat.le_of_ble_eq_true rfl : 46 + 2 ≤ 50)
  have place := inside_before (n := 4) within counted (Nat.le_of_ble_eq_true rfl : 32 + 4 ≤ 50)
  simp only [headerCount, headerSize] at some_headers long
  rw [parseElfSections, readU16Le_eq, if_pos counted]
  simp only [readU16Le_eq (p := advance (file.at elfBase) 46), if_pos entry, readU32Le_eq,
    if_pos place, bind, Except.bind, pure, Except.pure, if_neg some_headers,
    if_neg (Nat.not_lt.mpr long), Bool.not_true, Bool.false_eq_true, if_false]
  rfl

/-- Headers and names in the file lead to the last section of each name. -/
theorem parseElfSections_inside {elfBase : Nat} (within : elfBase ≤ file.size)
    (counted : Inside file.region (advance (file.at elfBase) 48) 2)
    (some_headers : headerCount file (file.at elfBase) ≠ 0)
    (long : 40 ≤ headerSize file (file.at elfBase))
    (inside : TableInside file (file.at elfBase)) :
    ∃ sections, parseElfSections file elfBase true = .ok (some sections) ∧
      ∀ name, sections name = (lastHeader file.region (imageNames file (file.at elfBase)) name
        (imageHeaders file (file.at elfBase))).map fun header =>
          ⟨advance (file.at elfBase) header.offset, header.size⟩ := by
  have copied := copyHeaders_inside (i := 0) fun k below => by
    rw [Nat.zero_add]
    exact inside.table k below
  obtain ⟨sections, search, are⟩ := findSections_whole (file.at elfBase) _ (fun _ => none)
    inside.names
  refine ⟨sections, ?_, fun name => ?_⟩
  · rw [parseElfSections_table within counted some_headers long]
    simp only [copied, readU16Le_eq, if_pos inside.index, bind, Except.bind, pure, Except.pure]
    simp only [imageNames, imageHeaders] at search
    rw [search]
  · rw [are, Option.or_none]

/-- Otherwise the search leaves the file. -/
theorem parseElfSections_outside {elfBase : Nat} (within : elfBase ≤ file.size)
    (counted : Inside file.region (advance (file.at elfBase) 48) 2)
    (some_headers : headerCount file (file.at elfBase) ≠ 0)
    (long : 40 ≤ headerSize file (file.at elfBase))
    (outside : ¬ TableInside file (file.at elfBase)) :
    parseElfSections file elfBase true = .error .outside := by
  rw [parseElfSections_table within counted some_headers long]
  by_cases table : ∀ k < headerCount file (file.at elfBase), Inside file.region (advance
      (headerTable file (file.at elfBase)) (k * headerSize file (file.at elfBase))) 40
  · have copied := copyHeaders_inside (i := 0) fun k below => by
      rw [Nat.zero_add]
      exact table k below
    simp only [copied, readU16Le_eq, bind, Except.bind]
    by_cases index : Inside file.region (advance (file.at elfBase) 50) 2
    · have cut := findSections_cut (file.at elfBase) (fun _ => none)
        fun names => outside ⟨table, index, names⟩
      simp only [imageNames, imageHeaders] at cut
      simp only [if_pos index, cut]
    · simp only [if_neg index]
  · simp only [not_forall] at table
    obtain ⟨k, below, left⟩ := table
    rw [copyHeaders_outside below (by rwa [Nat.zero_add])]
    rfl

/-- The sections of an image are found within the file exactly if the image meets this. -/
theorem parseElfSections_right_iff {elfBase : Nat} (within : elfBase ≤ file.size) :
    (∀ memory, ∃ found, parseElfSections file elfBase memory = .ok found ∧
        SectionsInside file found) ↔ ImageRight file (file.at elfBase) := by
  have nothing_inside : SectionsInside file none := fun _ _ _ none => nomatch none
  constructor
  · intro right
    obtain ⟨found, ran, inside⟩ := right true
    have counted : Inside file.region (advance (file.at elfBase) 48) 2 := by
      by_contra outside
      rw [parseElfSections, readU16Le_eq, if_neg outside] at ran
      cases ran
    have headers : headerCount file (file.at elfBase) ≠ 0 →
        40 ≤ headerSize file (file.at elfBase) → TableInside file (file.at elfBase) := by
      intro some_headers long
      by_contra outside
      cases ran.symm.trans (parseElfSections_outside within counted some_headers long outside)
    refine ⟨counted, headers, fun some_headers long name header last => ?_⟩
    obtain ⟨sections, search, are⟩ := parseElfSections_inside within counted some_headers long
      (headers some_headers long)
    cases ran.symm.trans search
    have is_found := are name
    rw [last] at is_found
    exact inside _ _ _ rfl is_found
  · intro right memory
    by_cases nothing : headerCount file (file.at elfBase) = 0 ∨
        headerSize file (file.at elfBase) < 40 ∨ memory = false
    · exact ⟨none, parseElfSections_none within right.counted nothing, nothing_inside⟩
    · rw [not_or, not_or, Nat.not_lt, Bool.not_eq_false] at nothing
      obtain ⟨some_headers, long, rfl⟩ := nothing
      obtain ⟨sections, search, are⟩ := parseElfSections_inside within right.counted some_headers
        long (right.headers some_headers long)
      refine ⟨some sections, search, fun found name found_section same is_section => ?_⟩
      cases same
      rw [are] at is_section
      obtain ⟨header, last, rfl⟩ := Option.map_eq_some_iff.mp is_section
      exact right.sections some_headers long name header last

/-! What is found in a file -/

/-- The image that the header of a file leads to, by the fields that it has for it. -/
def LxImage (file : ExeFile) (offset : Nat) : Prop :=
  ∃ h, 0x40 ≤ file.size ∧ dwordAt file 0x3C = h ∧ h + lxHeaderSize ≤ file.size ∧
    LxSignature file h ∧ dwordAt file (h + lxFieldOffset "debug_info_offset") = offset ∧
      offset ≠ 0 ∧ 4 ≤ dwordAt file (h + lxFieldOffset "debug_info_len") ∧
        offset + dwordAt file (h + lxFieldOffset "debug_info_len") ≤ file.size ∧
          ElfAt file offset

/-- The debug information of a file is found where it is, and no read leaves the file. -/
structure DebugInfoFound (file : ExeFile) : Prop where
  header : ∀ offset, findElfDebugLx file = .ok (some offset) ↔ LxImage file offset
  headerReads : ∃ found, findElfDebugLx file = .ok found
  trailerReads : ∃ found, findElfDebugNe file = .ok found
  sections : ∀ elfBase, findElfBase file = .ok (some elfBase) → ∀ memory,
    ∃ found, parseElfSections file elfBase memory = .ok found ∧ SectionsInside file found

/-- Whether the fields that the debugger reads lead to the image of the header, or none does. -/
def FieldsAgree (file : ExeFile) : Prop :=
  (∃ offset, FieldsImage file offset ∧ LxImage file offset) ∨
    ∀ offset, ¬ FieldsImage file offset ∧ ¬ LxImage file offset

/-- The fields lead to one image at most. -/
theorem FieldsImage.unique {offset other : Nat} (image : FieldsImage file offset)
    (another : FieldsImage file other) : offset = other := by
  obtain ⟨h, header, leads, _⟩ := image
  obtain ⟨h', header', leads', _⟩ := another
  rw [← leads.1, ← leads'.1, header.2.1, header'.2.1]

/-- The header leads to one image at most. -/
theorem LxImage.unique {offset other : Nat} (image : LxImage file offset)
    (another : LxImage file other) : offset = other := by
  obtain ⟨h, _, rfl, _, _, rfl, _⟩ := image
  obtain ⟨h', _, rfl, _, _, rfl, _⟩ := another
  rfl

/-- The image that is used. -/
def UsedImage (file : ExeFile) (elfBase : Nat) : Prop :=
  TrailerImage file elfBase ∨ (∀ offset, ¬ TrailerImage file offset) ∧ FieldsImage file elfBase

/-- The image that is used starts in the file. -/
theorem UsedImage.within {elfBase : Nat} (used : UsedImage file elfBase) :
    elfBase ≤ file.size := by
  rcases used with ⟨info, _, rfl, _⟩ | ⟨_, h, _, leads, _⟩
  · exact Nat.sub_le _ _
  · exact Nat.le_of_lt leads.2.2.2

/-- The image of the trailer is used, or else that of the header. -/
theorem findElfBase_eq_some_iff (trailer : TrailerRight file) (header : HeaderRight file)
    (elfBase : Nat) : findElfBase file = .ok (some elfBase) ↔ UsedImage file elfBase := by
  obtain ⟨ne, ne_ran, ne_image⟩ := findElfDebugNe_right trailer
  obtain ⟨lx, lx_ran, lx_image⟩ := findElfDebugLx_right header
  simp only [findElfBase, ne_ran, bind, Except.bind, UsedImage, ← ne_image, ← lx_image]
  cases ne with
  | none => simp [lx_ran]
  | some offset => simp [pure, Except.pure]

/-- What a file has to meet. -/
structure FileRight (file : ExeFile) : Prop where
  trailer : TrailerRight file
  header : HeaderRight file
  agree : FieldsAgree file
  image : ∀ elfBase, UsedImage file elfBase → ImageRight file (file.at elfBase)

/-- The debug information of a file is found where it is if and only if the file meets this. -/
theorem debug_info_found_iff (file : ExeFile) : DebugInfoFound file ↔ FileRight file := by
  constructor
  · intro right
    have trailer : TrailerRight file := by
      by_contra wrong
      obtain ⟨found, ran⟩ := right.trailerReads
      cases ran.symm.trans (findElfDebugNe_wrong wrong)
    have header : HeaderRight file := by
      by_contra wrong
      obtain ⟨found, ran⟩ := right.headerReads
      cases ran.symm.trans (findElfDebugLx_wrong wrong)
    obtain ⟨lx, ran, image⟩ := findElfDebugLx_right header
    have same : ∀ offset, FieldsImage file offset ↔ LxImage file offset := by
      intro offset
      rw [← right.header, ← image, ran, Except.ok.injEq]
    refine ⟨trailer, header, ?_, fun elfBase used => ?_⟩
    · by_cases some_image : ∃ offset, FieldsImage file offset
      · obtain ⟨offset, leads⟩ := some_image
        exact Or.inl ⟨offset, leads, (same offset).mp leads⟩
      · have none := not_exists.mp some_image
        exact Or.inr fun offset => ⟨none offset, fun leads => none offset ((same offset).mpr leads)⟩
    · apply (parseElfSections_right_iff used.within).mp
      exact right.sections elfBase ((findElfBase_eq_some_iff trailer header elfBase).mpr used)
  · intro right
    obtain ⟨ne, ne_ran, _⟩ := findElfDebugNe_right right.trailer
    obtain ⟨lx, lx_ran, lx_image⟩ := findElfDebugLx_right right.header
    refine ⟨fun offset => ?_, ⟨lx, lx_ran⟩, ⟨ne, ne_ran⟩, fun elfBase used => ?_⟩
    · rw [lx_ran, Except.ok.injEq, lx_image]
      rcases right.agree with ⟨both, fields, header⟩ | neither
      · constructor
        · intro leads
          exact leads.unique fields ▸ header
        · intro leads
          exact leads.unique header ▸ fields
      · exact iff_of_false (neither offset).1 (neither offset).2
    · have image := (findElfBase_eq_some_iff right.trailer right.header elfBase).mp used
      exact (parseElfSections_right_iff image.within).mpr (right.image elfBase image)

/--
A file with a header at 0x40, whose debug information is an image of four bytes at 0xEC.

The fields that the debugger reads are zero.
-/
def lxFile : ExeFile where
  region := {
    base := 0x10000
    bytes := List.replicate 60 0 ++ [0x40, 0, 0, 0, 0x4C, 0x58] ++ List.replicate 150 0 ++
      [0xEC, 0, 0, 0, 4, 0, 0, 0] ++ List.replicate 12 0 ++ elfMagic
    fits := by decide +kernel }
  small := by decide +kernel

/-- The image of the file is not found. -/
theorem lx_image_not_found : ¬ ∀ file, DebugInfoFound file := by
  intro right
  have image : LxImage lxFile 0xEC := by
    refine ⟨0x40, ?_⟩
    simp only [LxSignature, ElfAt]
    decide +kernel
  have header : HeaderAt lxFile 0x40 := by
    simp only [HeaderAt, LxSignature]
    decide +kernel
  have nothing : dwordAt lxFile (0x40 + lxDebugInfoOffset) = 0 := by decide +kernel
  have fields : ¬ lxFile.size < 0x40 + lxDebugInfoLen + 4 := by decide +kernel
  have found := ((right lxFile).header 0xEC).mpr image
  rw [findElfDebugLx_header header, if_neg fields] at found
  simp only [if_pos (Or.inl nothing)] at found
  cases found

end TwoIne
