import TwoIne.Debugger.DebugInfo

/-! Reading a file: which bytes are read, and which reads leave it. -/

namespace TwoIne

open Regions

variable {file : Region} {p : Nat}

/-- The number of two bytes that some bytes start with, where missing ones count as zero. -/
def half : List UInt8 → Nat
  | b0 :: b1 :: _ => b0.toNat ||| b1.toNat <<< 8
  | _ => 0

/-- Some bytes lie in a file exactly if there are as many from their address on. -/
theorem inside_iff {n : Nat} (positive : 0 < n) : Inside file p n ↔ n ≤ (file.from p).length := by
  -- Below the file there is nothing to be read.
  simp only [Inside, Region.from, Region.finish]
  split
  · rw [List.length_drop]
    omega
  · rw [List.length_nil]
    omega

/-- A byte is read if it lies in the file. -/
theorem readByte_eq : readByte file p =
    if Inside file p 1 then .ok ((file.from p).headD 0) else .error .outside := by
  rw [readByte]
  simp only [inside_iff Nat.one_pos]
  cases file.from p with
  | nil => rfl
  | cons byte rest => simp

/-- A number of two bytes is read if both lie in the file. -/
theorem readU16Le_eq : readU16Le file p =
    if Inside file p 2 then .ok (half (file.from p)) else .error .outside := by
  simp only [inside_iff Nat.two_pos]
  rw [readU16Le, readByte, readByte]
  cases starts : file.from p with
  | nil => rfl
  | cons b0 rest =>
    rw [(from_advance starts).1]
    cases rest with
    | nil => rfl
    | cons b1 rest => simp [half, bind, Except.bind, pure, Except.pure]

/-- A number of four bytes is read if all of them lie in the file. -/
theorem readU32Le_eq : readU32Le file p =
    if Inside file p 4 then .ok (word (file.from p)) else .error .outside := by
  -- Each byte is what the bytes behind the one before it start with.
  simp only [inside_iff (show 0 < 4 by decide)]
  rw [readU32Le]
  simp only [readByte, ← advance_advance p 1 1, ← advance_advance p 2 1]
  cases starts : file.from p with
  | nil => rfl
  | cons b0 rest =>
    have first := (from_advance starts).1
    rw [first]
    cases rest with
    | nil => rfl
    | cons b1 rest =>
      have second := (from_advance first).1
      rw [second]
      cases rest with
      | nil => rfl
      | cons b2 rest =>
        have third := (from_advance second).1
        rw [third]
        cases rest with
        | nil => rfl
        | cons b3 rest => simp [word, bind, Except.bind, pure, Except.pure]

/-! Strings -/

/-- Whether bytes end before a comparison with a name has come to an end. -/
def CutShort (bytes name : List UInt8) : Prop := bytes <+: name ++ [0] ∧ bytes ≠ name ++ [0]

/-- A comparison leaves the file if the bytes end too soon. -/
theorem strcmpAt_cut {name : List UInt8} (cut : CutShort (file.from p) name) :
    strcmpAt file p name = .error .outside := by
  induction name generalizing p with
  | nil =>
    rw [strcmpAt, readByte]
    cases starts : file.from p with
    | nil => rfl
    | cons byte rest =>
      rw [CutShort, starts, List.nil_append, List.cons_prefix_cons, List.prefix_nil] at cut
      obtain ⟨⟨rfl, rfl⟩, differs⟩ := cut
      exact absurd rfl differs
  | cons first name ih =>
    rw [strcmpAt, readByte]
    cases starts : file.from p with
    | nil => rfl
    | cons byte rest =>
      rw [CutShort, starts, List.cons_append, List.cons_prefix_cons] at cut
      obtain ⟨⟨rfl, front⟩, differs⟩ := cut
      have behind : CutShort (file.from (advance p 1)) name := by
        rw [(from_advance starts).1]
        exact ⟨front, fun same => differs (by rw [same])⟩
      simp only [bind, Except.bind, if_true, ih behind]

/-- Otherwise it tells whether the string is the name. -/
theorem strcmpAt_whole {name : List UInt8} (whole : ¬ CutShort (file.from p) name) :
    strcmpAt file p name = .ok ((name ++ [0]).isPrefixOf (file.from p)) := by
  induction name generalizing p with
  | nil =>
    rw [strcmpAt, readByte]
    cases starts : file.from p with
    | nil =>
      rw [starts] at whole
      exact absurd ⟨List.nil_prefix, by simp⟩ whole
    | cons byte rest =>
      simp [bind, Except.bind, pure, Except.pure, List.isPrefixOf, eq_comm]
  | cons first name ih =>
    rw [strcmpAt, readByte]
    cases starts : file.from p with
    | nil =>
      rw [starts] at whole
      exact absurd ⟨List.nil_prefix, by simp⟩ whole
    | cons byte rest =>
      simp only [bind, Except.bind, pure, Except.pure, List.cons_append, List.isPrefixOf]
      by_cases same : byte = first
      · have behind : ¬ CutShort (file.from (advance p 1)) name := by
          rw [(from_advance starts).1]
          intro cut
          apply whole
          rw [starts, CutShort, List.cons_append, List.cons_prefix_cons]
          exact ⟨⟨same, cut.1⟩, fun equal => cut.2 (List.cons.inj equal).2⟩
        rw [if_pos same, ih behind, (from_advance starts).1]
        simp [same]
      · rw [if_neg same]
        simp [Ne.symm same]

end TwoIne
