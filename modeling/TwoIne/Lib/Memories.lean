import TwoIne.Lib.Buffers
import TwoIne.Lib.Regions

/-!
A 32-bit address space that is written to, counted from some address on, with a mark on every byte
that was written.
-/

namespace Memories

open Buffers Regions

/-- What lies at every distance from an address. -/
abbrev Memory := Nat → Cell

/-- How far one place lies behind another; the address space wraps around. -/
def behind (start place : Nat) : Nat := (place + addresses - start) % addresses

/-- Writing cells from a place on. -/
def writeMemory (memory : Memory) (start : Nat) (cells : Buffer) : Memory :=
  fun place => (cells[behind start place]?).getD (memory place)

/-- Filling so many bytes from a place on. -/
def fillMemory (memory : Memory) (start count : Nat) (value : UInt8) : Memory :=
  fun place => if behind start place < count then ⟨value, true⟩ else memory place

/-- The cells from a place on. -/
def readMemory (memory : Memory) (start count : Nat) : Buffer :=
  (List.range count).map fun index => memory ((start + index) % addresses)

/-- After some writing so many bytes from a place on are marked, apart from those that were. -/
def Marks (before after : Memory) (start count : Nat) : Prop :=
  ∀ place, (after place).written = true ↔
    (before place).written = true ∨ behind start place < count

/-- So many cells are read. -/
@[simp] theorem readMemory_length (memory : Memory) (start count : Nat) :
    (readMemory memory start count).length = count := by
  rw [readMemory, List.length_map, List.length_range]

/-- Writing cells that are all marked marks as many places. -/
theorem writeMemory_marks (memory : Memory) (start : Nat) {cells : Buffer}
    (written : ∀ cell ∈ cells, cell.written = true) :
    Marks memory (writeMemory memory start cells) start cells.length := by
  intro place
  rw [writeMemory]
  by_cases inside : behind start place < cells.length
  · -- The place has one of the cells.
    have marked := written _ (List.getElem_mem inside)
    simp [marked, inside]
  · simp [inside]

/-- Filling marks as many places. -/
theorem fillMemory_marks (memory : Memory) (start count : Nat) (value : UInt8) :
    Marks memory (fillMemory memory start count value) start count := by
  intro place
  rw [fillMemory]
  by_cases inside : behind start place < count
  · simp [inside]
  · simp [inside]

/-- Places that are not in front of the start are behind it by their difference. -/
theorem behind_of_le {start place : Nat} (le : start ≤ place) (below : place < addresses) :
    behind start place = place - start := by
  simp only [behind, addresses] at below ⊢
  omega

/-- Places in front of the start are only reached around the end of the address space. -/
theorem behind_of_lt {start place : Nat} (lt : place < start) :
    behind start place = place + addresses - start := by
  simp only [behind, addresses]
  omega

/-- Marking two parts that touch is marking both. -/
theorem Marks.trans {before middle after : Memory} {start first second : Nat}
    (start_lt : start < addresses) (small : first + second ≤ addresses)
    (front : Marks before middle start first)
    (rest : Marks middle after ((start + first) % addresses) second) :
    Marks before after start (first + second) := by
  intro place
  rw [rest place, front place, or_assoc]
  apply or_congr_right
  -- A place is in one of the parts if it is in both of them together.
  simp only [behind, addresses] at *
  omega

/-- Writing cells again changes nothing. -/
theorem writeMemory_again (memory : Memory) (start : Nat) (cells : Buffer) :
    writeMemory (writeMemory memory start cells) start cells = writeMemory memory start cells := by
  funext place
  simp only [writeMemory]
  cases cells[behind start place]? <;> rfl

/-- Writing cells and then others behind them is writing all of them. -/
theorem writeMemory_append (memory : Memory) {start : Nat} (start_lt : start < addresses)
    (front rest : Buffer) (small : front.length + rest.length ≤ addresses) :
    writeMemory (writeMemory memory start front) ((start + front.length) % addresses) rest =
      writeMemory memory start (front ++ rest) := by
  funext place
  simp only [writeMemory]
  by_cases first : behind start place < front.length
  · -- The place is not among the others, which end in front of it.
    have away : rest.length ≤ behind ((start + front.length) % addresses) place := by
      simp only [behind, addresses] at *
      omega
    rw [List.getElem?_eq_none away, List.getElem?_append_left first]
    rfl
  · have next : behind ((start + front.length) % addresses) place =
        behind start place - front.length := by
      simp only [behind, addresses] at *
      omega
    rw [next, List.getElem?_append_right (Nat.not_lt.mp first),
      List.getElem?_eq_none (Nat.not_lt.mp first)]
    rfl

end Memories
