import TwoIne.Proofs.Debugger.LineReaders

/-! Reading the directories and the files of a unit that is well formed. -/

namespace TwoIne

open Regions Leb128 DwarfLines

variable {sec : Region} {p unitEnd : Nat} {rest : List UInt8}

/-- A string ends at its zero. -/
theorem stringLength_bytes {name : List UInt8} (noNul : 0 ∉ name) (rest : List UInt8) :
    stringLength (name ++ 0 :: rest) = .ok name.length := by
  -- Each byte in front of the zero is counted.
  induction name with
  | nil => rfl
  | cons byte name ih =>
    simp only [List.mem_cons, not_or] at noNul
    rw [List.cons_append, stringLength, if_neg (Ne.symm noNul.1), ih noNul.2]
    rfl

/-- Moving behind a string that the section holds. -/
theorem skipString_holds {name : List UInt8} (noNul : 0 ∉ name)
    (holds : Holds sec p (name ++ 0 :: rest)) :
    skipString sec p = .ok (p + (name.length + 1)) := by
  obtain ⟨back, starts⟩ := holds.from
  rw [skipString, starts, List.append_assoc, List.cons_append, stringLength_bytes noNul]
  have moved : advance p (name.length + 1) = p + (name.length + 1) :=
    holds.advance (by simp only [List.length_append, List.length_cons]; omega)
  simp only [bind, Except.bind, pure, Except.pure, moved]

/-- Moving over the bytes of a number that are not its last. -/
theorem skipFront_holds {front : List (Fin 128)} {last : Fin 128}
    (holds : Holds sec p ((⟨front, last⟩ : Leb).bytes ++ rest))
    (within : p + (⟨front, last⟩ : Leb).size ≤ unitEnd) :
    skipFront unitEnd p (sec.from p) = .ok (p + front.length) := by
  obtain ⟨back, starts⟩ := holds.from
  simp only [Leb.size] at within
  -- The bytes are passed one after the other.
  induction front generalizing p with
  | nil =>
    rw [starts]
    simp only [List.length_nil] at within
    simp only [Leb.bytes, List.map_nil, List.nil_append, List.cons_append, skipFront,
      last_byte last, ne_eq, not_true_eq_false, if_false, ite_self, List.length_nil, Nat.add_zero]
  | cons digit front ih =>
    have high : (0x80 : UInt8) ≠ 0 := by decide
    have below : p < unitEnd := by omega
    have after : sec.from p = (digit.val + 128).toUInt8 ::
        ((⟨front, last⟩ : Leb).bytes ++ rest ++ back) := starts
    have behind := (from_advance after).1
    have moved := (from_advance after).2.1
    rw [after, skipFront, if_pos below, (front_byte digit).2, if_pos high, ← behind, moved]
    have next : Holds sec (p + 1) ((⟨front, last⟩ : Leb).bytes ++ rest) := Holds.tail holds
    rw [moved] at behind
    simp only [List.length_cons] at within ⊢
    rw [ih next (by omega) behind]
    congr 1
    omega

/-- Moving over a number that the section holds. -/
theorem skipNumber_holds {n : Leb} (holds : Holds sec p (n.bytes ++ rest))
    (within : p + n.size ≤ unitEnd) : skipNumber sec unitEnd p = .ok (p + n.size) := by
  have passed : skipFront unitEnd p (sec.from p) = .ok (p + n.front.length) :=
    skipFront_holds holds within
  have size : n.size = n.front.length + 1 := rfl
  have fits := holds.bound.2
  simp only [List.length_append, Leb.length_bytes] at fits
  have small := sec.fits
  have moved : advance (p + n.front.length) 1 = p + n.size := by
    rw [advance, Nat.mod_eq_of_lt]
    · omega
    · simp only [Region.finish] at fits
      omega
  rw [skipNumber, passed]
  simp only [bind, Except.bind, pure, Except.pure]
  rw [if_pos (by omega), moved]

/-- Moving behind the directories of a unit. -/
theorem skipDirectories_holds {directories : List (List UInt8)} {steps : Nat}
    (named : ∀ name ∈ directories, name ≠ [] ∧ 0 ∉ name) (enough : directories.length < steps)
    (holds : Holds sec p (directories.flatMap (· ++ [0]) ++ 0 :: rest))
    (within : p + (directories.flatMap (· ++ [0])).length + 1 ≤ unitEnd) :
    skipDirectories sec unitEnd steps p =
      .ok (p + ((directories.flatMap (· ++ [0])).length + 1)) := by
  -- Each step moves behind one directory.
  induction directories generalizing p steps with
  | nil =>
    obtain ⟨steps, rfl⟩ := Nat.exists_eq_succ_of_ne_zero (Nat.ne_of_gt (Nat.zero_lt_of_lt enough))
    simp only [List.flatMap_nil, List.nil_append, List.length_nil] at holds within ⊢
    have below : p < unitEnd := by omega
    simp only [skipDirectories, if_pos below, readByte_holds holds, bind, Except.bind, ne_eq,
      not_true_eq_false, if_false, pure, Except.pure]
    rw [holds.advance (by simp)]
  | cons name directories ih =>
    obtain ⟨steps, rfl⟩ := Nat.exists_eq_succ_of_ne_zero (Nat.ne_of_gt (Nat.zero_lt_of_lt enough))
    obtain ⟨some_byte, noNul⟩ := named name List.mem_cons_self
    simp only [List.flatMap_cons, List.append_assoc, List.singleton_append, List.length_append,
      List.length_cons] at holds within ⊢
    have below : p < unitEnd := by omega
    have skipped := skipString_holds noNul holds
    obtain ⟨first, others, rfl⟩ := List.exists_cons_of_ne_nil some_byte
    have first_byte : first ≠ 0 := fun zero => noNul (by simp [zero])
    have next : Holds sec (p + ((first :: others).length + 1))
        (directories.flatMap (· ++ [0]) ++ 0 :: rest) := by
      have split : Holds sec p (((first :: others) ++ [0]) ++
          (directories.flatMap (· ++ [0]) ++ 0 :: rest)) := by simpa using holds
      simpa using split.behind
    have read := readByte_holds holds
    simp only [skipDirectories, if_pos below, read, bind, Except.bind, ne_eq, first_byte,
      not_false_eq_true, if_true, skipped]
    rw [ih (fun name member => named name (List.mem_cons_of_mem _ member)) (by simpa using enough)
      next (by simp only [List.length_cons] at within ⊢; omega)]
    congr 1
    simp only [List.length_cons]
    omega

/-- The number of bytes of a file entry. -/
theorem FileEntry.length_bytes (file : FileEntry) :
    file.bytes.length =
      file.name.length + 1 + file.directory.size + file.modified.size + file.length.size := by
  simp only [FileEntry.bytes, List.length_append, List.length_cons, Leb.length_bytes]
  omega

/-- Moving behind a file entry that the section holds. -/
theorem skipFile_holds {file : FileEntry} (noNul : 0 ∉ file.name)
    (holds : Holds sec p (file.bytes ++ rest)) (within : p + file.bytes.length ≤ unitEnd) :
    skipFile sec unitEnd p = .ok (p + file.bytes.length) := by
  have size := FileEntry.length_bytes file
  have name : Holds sec p (file.name ++ 0 :: (file.directory.bytes ++ (file.modified.bytes ++
      (file.length.bytes ++ rest)))) := by simpa [FileEntry.bytes] using holds
  have directory : Holds sec (p + (file.name.length + 1)) (file.directory.bytes ++
      (file.modified.bytes ++ (file.length.bytes ++ rest))) := by
    have split : Holds sec p ((file.name ++ [0]) ++ (file.directory.bytes ++
        (file.modified.bytes ++ (file.length.bytes ++ rest)))) := by simpa using name
    simpa using split.behind
  have modified := directory.behind
  rw [Leb.length_bytes] at modified
  have length := modified.behind
  rw [Leb.length_bytes] at length
  rw [skipFile, skipString_holds noNul name]
  simp only [bind, Except.bind]
  rw [skipNumber_holds directory (by omega)]
  simp only
  rw [skipNumber_holds modified (by omega)]
  simp only
  rw [skipNumber_holds length (by omega)]
  congr 1
  omega

/-- A file entry does not start with a zero. -/
theorem readByte_name {file : FileEntry} (some_byte : file.name ≠ []) (noNul : 0 ∉ file.name)
    (holds : Holds sec p (file.bytes ++ rest)) :
    ∃ first, first ≠ 0 ∧ readByte sec p = .ok first := by
  obtain ⟨first, others, name⟩ := List.exists_cons_of_ne_nil some_byte
  have starts : Holds sec p (first :: (others ++ 0 :: (file.directory.bytes ++
      (file.modified.bytes ++ (file.length.bytes ++ rest))))) := by
    simpa [FileEntry.bytes, name] using holds
  exact ⟨first, fun zero => noNul (by simp [name, zero]), readByte_holds starts⟩

/-- Counting the files of a unit. -/
theorem countFiles_holds {files : List FileEntry} {steps count : Nat}
    (named : ∀ file ∈ files, file.name ≠ [] ∧ 0 ∉ file.name) (enough : files.length < steps)
    (holds : Holds sec p (files.flatMap FileEntry.bytes ++ 0 :: rest))
    (within : p + (files.flatMap FileEntry.bytes).length + 1 ≤ unitEnd) :
    countFiles sec unitEnd steps count p = .ok (count + files.length) := by
  -- Each step moves behind one file.
  induction files generalizing p steps count with
  | nil =>
    obtain ⟨steps, rfl⟩ := Nat.exists_eq_succ_of_ne_zero (Nat.ne_of_gt (Nat.zero_lt_of_lt enough))
    simp only [List.flatMap_nil, List.nil_append, List.length_nil] at holds within ⊢
    have below : p < unitEnd := by omega
    simp only [countFiles, if_pos below, readByte_holds holds, bind, Except.bind, ne_eq,
      not_true_eq_false, if_false, pure, Except.pure, Nat.add_zero]
  | cons file files ih =>
    obtain ⟨steps, rfl⟩ := Nat.exists_eq_succ_of_ne_zero (Nat.ne_of_gt (Nat.zero_lt_of_lt enough))
    obtain ⟨some_byte, noNul⟩ := named file List.mem_cons_self
    simp only [List.flatMap_cons, List.append_assoc, List.length_append] at holds within
    have below : p < unitEnd := by omega
    have upto : p + file.bytes.length ≤ unitEnd := by omega
    have skipped := skipFile_holds noNul holds upto
    obtain ⟨first, first_byte, read⟩ := readByte_name some_byte noNul holds
    simp only [countFiles, if_pos below, read, bind, Except.bind, ne_eq, first_byte,
      not_false_eq_true, if_true, skipped]
    rw [ih (fun file member => named file (List.mem_cons_of_mem _ member)) (by simpa using enough)
      holds.behind (by omega)]
    simp only [List.length_cons]
    congr 1
    omega

/-! Storing the files of a unit -/

/-- The map of a unit whose files are stored behind others, as far as there is room for them. -/
def mapOf (before count : Nat) : List Nat :=
  (List.range maxLocalFiles).map fun i => if 1 ≤ i ∧ i ≤ count then before + i else 0

/-- The map has a place for every file number of a byte. -/
@[simp] theorem length_mapOf (before count : Nat) : (mapOf before count).length = 256 := by
  simp [mapOf, maxLocalFiles]

/-- The place of a file number in the map. -/
theorem getElem_mapOf (before count : Nat) {i : Nat} (small : i < 256) :
    (mapOf before count)[i]? = some (if 1 ≤ i ∧ i ≤ count then before + i else 0) := by
  simp [mapOf, maxLocalFiles, small]

/-- An empty map is all zeros. -/
theorem mapOf_zero (before : Nat) : List.replicate maxLocalFiles 0 = mapOf before 0 := by
  apply List.ext_getElem
  · rw [List.length_replicate, length_mapOf]
    rfl
  · intro i below_replicate below_map
    simp only [List.getElem_replicate, mapOf, List.getElem_map, List.getElem_range]
    rw [if_neg (by omega)]

/-- Storing one more file extends the map. -/
theorem mapOf_succ (before count : Nat) :
    (mapOf before count).set (count + 1) (before + count + 1) = mapOf before (count + 1) := by
  apply List.ext_getElem
  · simp
  · intro i below_set below_map
    rw [List.getElem_set]
    split
    · rename_i same
      subst same
      simp [mapOf, Nat.add_assoc]
    · rename_i other
      simp only [mapOf, List.getElem_map, List.getElem_range]
      -- Every other number keeps its place.
      by_cases stored : 1 ≤ i ∧ i ≤ count
      · rw [if_pos stored, if_pos (by omega)]
      · rw [if_neg stored, if_neg (by omega)]

/-- The number of files of a unit that are stored behind others. -/
def storedCount (before count : Nat) : Nat := min count (256 - before)

/--
Storing the files of a unit.

With no files stored before, the last place of the map is passed by the 256th file.
-/
theorem parseFiles_holds {files : List FileEntry} {names : List (List UInt8)}
    {steps slots before count : Nat}
    (named : ∀ file ∈ files, file.name ≠ [] ∧ 0 ∉ file.name) (enough : files.length < steps)
    (holds : Holds sec p (files.flatMap FileEntry.bytes ++ 0 :: rest))
    (within : p + (files.flatMap FileEntry.bytes).length + 1 ≤ unitEnd)
    (size : names.length = before + count) (bounded : before + count ≤ 256) (fewer : count < 256)
    (room : before + count + files.length ≤ slots) :
    parseFiles sec unitEnd steps count p ⟨names, slots, mapOf before count⟩ =
      if before = 0 ∧ 256 ≤ count + files.length then .error .overrun
      else .ok ⟨names ++ (files.map FileEntry.name).take (256 - (before + count)), slots,
        mapOf before (storedCount before (count + files.length))⟩ := by
  -- Each step moves behind one file, and stores it as long as the table is not full.
  induction files generalizing p steps names count with
  | nil =>
    obtain ⟨steps, rfl⟩ := Nat.exists_eq_succ_of_ne_zero (Nat.ne_of_gt (Nat.zero_lt_of_lt enough))
    simp only [List.flatMap_nil, List.nil_append, List.length_nil] at holds within ⊢
    have below : p < unitEnd := by omega
    have all : storedCount before (count + 0) = count := by
      simp only [storedCount]
      omega
    rw [if_neg (by omega), all]
    simp [parseFiles, below, readByte_holds holds, bind, Except.bind, pure, Except.pure]
  | cons file files ih =>
    obtain ⟨steps, rfl⟩ := Nat.exists_eq_succ_of_ne_zero (Nat.ne_of_gt (Nat.zero_lt_of_lt enough))
    obtain ⟨some_byte, noNul⟩ := named file List.mem_cons_self
    simp only [List.flatMap_cons, List.append_assoc, List.length_append, List.length_cons]
      at holds within enough room ⊢
    have below : p < unitEnd := by omega
    have upto : p + file.bytes.length ≤ unitEnd := by omega
    have skipped := skipFile_holds noNul holds upto
    obtain ⟨first, first_byte, read⟩ := readByte_name some_byte noNul holds
    have name : stringLength (sec.from p) = .ok file.name.length ∧
        (sec.from p).take file.name.length = file.name := by
      obtain ⟨back, starts⟩ := holds.from
      rw [starts, FileEntry.bytes, List.append_assoc, List.append_assoc, List.cons_append]
      exact ⟨stringLength_bytes noNul _, List.take_left⟩
    have next : Holds sec (p + file.bytes.length)
        (files.flatMap FileEntry.bytes ++ 0 :: rest) := holds.behind
    have later : ∀ file ∈ files, file.name ≠ [] ∧ 0 ∉ file.name := fun file member =>
      named file (List.mem_cons_of_mem _ member)
    have step : parseFiles sec unitEnd (steps + 1) count p ⟨names, slots, mapOf before count⟩ =
        if names.length < maxLocalFiles then
          (storeFile count file.name ⟨names, slots, mapOf before count⟩).bind fun t =>
            parseFiles sec unitEnd steps (count + 1) (p + file.bytes.length) t
        else parseFiles sec unitEnd steps count (p + file.bytes.length)
          ⟨names, slots, mapOf before count⟩ := by
      have both : first ≠ 0 ∧ count < maxLocalFiles := ⟨first_byte, fewer⟩
      rw [parseFiles, if_pos below, read]
      simp only [bind, Except.bind, if_pos both, name.1, name.2, skipped]
    rw [step]
    by_cases full : before + count = 256
    · -- The table takes no more files.
      have kept : storedCount before (count + (files.length + 1)) =
          storedCount before (count + files.length) := by
        simp only [storedCount]
        omega
      rw [if_neg (by simp only [size, maxLocalFiles]; omega),
        ih later (by omega) next (by omega) size bounded fewer (by omega)]
      rw [if_neg (by omega), if_neg (by omega), kept, full]
      simp
    · rw [if_pos (by simp only [size, maxLocalFiles]; omega)]
      by_cases last : count = 255
      · -- The map has no place for the last of 256 files.
        have overrun : storeFile count file.name ⟨names, slots, mapOf before count⟩ =
            .error .overrun := by
          simp [storeFile, last]
        rw [overrun, if_pos (by omega)]
        rfl
      · have stored : storeFile count file.name ⟨names, slots, mapOf before count⟩ =
            .ok ⟨names ++ [file.name], slots, mapOf before (count + 1)⟩ := by
          have fits : names.length < slots ∧ count + 1 < (mapOf before count).length := by
            rw [length_mapOf, size]
            omega
          rw [storeFile, if_pos fits]
          simp only [size, mapOf_succ]
        rw [stored]
        simp only [Except.bind]
        rw [ih later (by omega) next (by omega) (by simp [size]; omega) (by omega) (by omega)
          (by omega)]
        have counts : count + 1 + files.length = count + (files.length + 1) := by omega
        have left : 256 - (before + count) = 256 - (before + (count + 1)) + 1 := by omega
        rw [counts, left]
        simp

end TwoIne
