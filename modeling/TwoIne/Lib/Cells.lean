import Mathlib.Data.List.Basic

/-!
A heap of cells that are allocated, written and freed, where a freed cell can no longer be read.
-/

namespace Cells

/-- Cells by address, in the order they were allocated; a freed cell stays behind as a gap. -/
abbrev Heap (ν : Type*) := List (Option ν)

variable {ν : Type*}

/-- The contents of a live cell; nothing for an address that was freed or never allocated. -/
def read (heap : Heap ν) (a : Nat) : Option ν := heap[a]?.join

/-- The address the next allocation returns, which no earlier allocation returned. -/
def fresh (heap : Heap ν) : Nat := heap.length

/-- Allocating a cell with the given contents at the fresh address. -/
def alloc (heap : Heap ν) (v : ν) : Heap ν := heap ++ [some v]

/-- Overwriting a cell. -/
def write (heap : Heap ν) (a : Nat) (v : ν) : Heap ν := heap.set a (some v)

/-- Freeing a cell. -/
def free (heap : Heap ν) (a : Nat) : Heap ν := heap.set a none

/-- Only addresses handed out before can be read. -/
theorem read_lt_fresh {heap : Heap ν} {a : Nat} {v : ν} (found : read heap a = some v) :
    a < fresh heap := by
  -- An address past the end of the heap has no cell at all.
  by_contra beyond
  have absent : heap[a]? = none := List.getElem?_eq_none (Nat.le_of_not_lt beyond)
  simp [read, absent] at found

/-- The fresh address is not live. -/
@[simp] theorem read_fresh (heap : Heap ν) : read heap (fresh heap) = none := by
  simp [read, fresh]

/-- An allocated cell holds what it was allocated with. -/
@[simp] theorem read_alloc_fresh (heap : Heap ν) (v : ν) :
    read (alloc heap v) (fresh heap) = some v := by
  -- The new cell is the last one of the longer heap.
  simp [read, alloc, fresh]

/-- An allocation leaves every other cell as it was. -/
theorem read_alloc_ne {heap : Heap ν} {a : Nat} (v : ν) (other : a ≠ fresh heap) :
    read (alloc heap v) a = read heap a := by
  simp only [fresh] at other
  -- Addresses below the fresh one are in the old heap, and those above it are in neither.
  rcases Nat.lt_or_ge a heap.length with inside | beyond
  · simp only [read, alloc, List.getElem?_append_left inside]
  · have after : (heap ++ [some v])[a]? = none := List.getElem?_eq_none (by simp; omega)
    simp [read, alloc, after, List.getElem?_eq_none beyond]

/-- A live cell stays as it was across an allocation. -/
theorem read_alloc_live {heap : Heap ν} {a : Nat} {w : ν} (v : ν) (live : read heap a = some w) :
    read (alloc heap v) a = some w := by
  -- A live address lies below the fresh one, so the allocation is elsewhere.
  rw [read_alloc_ne v (Nat.ne_of_lt (read_lt_fresh live)), live]

/-- A live cell reads back what was written to it. -/
theorem read_write_self {heap : Heap ν} {a : Nat} {w : ν} (v : ν) (live : read heap a = some w) :
    read (write heap a v) a = some v := by
  -- A live address is inside of the heap, where the write takes effect.
  have inside : a < heap.length := read_lt_fresh live
  simp [read, write, inside]

/-- A write leaves every other cell as it was. -/
theorem read_write_ne {heap : Heap ν} {a b : Nat} (v : ν) (other : b ≠ a) :
    read (write heap a v) b = read heap b := by
  simp [read, write, List.getElem?_set_ne (Ne.symm other)]

/-- A freed cell is no longer live. -/
@[simp] theorem read_free_self (heap : Heap ν) (a : Nat) : read (free heap a) a = none := by
  -- Past the end of the heap there is nothing to free, and nothing to read either.
  by_cases inside : a < heap.length
  · simp [read, free, inside]
  · simp [read, free, inside]

/-- Freeing a cell leaves every other cell as it was. -/
theorem read_free_ne {heap : Heap ν} {a b : Nat} (other : b ≠ a) :
    read (free heap a) b = read heap b := by
  simp [read, free, List.getElem?_set_ne (Ne.symm other)]

/-- Writing hands out no address. -/
@[simp] theorem fresh_write (heap : Heap ν) (a : Nat) (v : ν) :
    fresh (write heap a v) = fresh heap := by
  simp [fresh, write]

/-- Freeing hands out no address either. -/
@[simp] theorem fresh_free (heap : Heap ν) (a : Nat) : fresh (free heap a) = fresh heap := by
  simp [fresh, free]

end Cells
