import TwoIne.Lib.Cells
import TwoIne.Lib.Chains

/-!
Linked lists in a heap of cells: their links, the values along them, and walks that look for a cell.
-/

namespace HeapLists

open Cells Chains

variable {ν κ : Type*} {next : ν → Option Nat} {value : ν → κ} {stop : ν → Bool}

/-- The successor of a live cell. -/
def linkOf (next : ν → Option Nat) (heap : Heap ν) (a : Nat) : Option (Option Nat) :=
  (read heap a).map next

/-- The values held by a list of cells. -/
def valuesAt (value : ν → κ) (heap : Heap ν) (nodes : List Nat) : List κ :=
  nodes.filterMap fun a => (read heap a).map value

/--
The walk to the first cell that the walker stops at, with the cell before it.

A walk of more steps than there are cells is going round a cycle and never ends, which is a fault
here.
-/
def walkUntil (stop : ν → Bool) (next : ν → Option Nat) (heap : Heap ν) :
    Nat → Option Nat → Option Nat → Option (Option Nat × Option Nat)
  | 0, _, _ => none
  | _ + 1, prev, none => some (prev, none)
  | steps + 1, prev, some a =>
    match read heap a with
    | none => none
    | some cell =>
      if stop cell then some (prev, some a) else walkUntil stop next heap steps (some a) (next cell)

/-- A live cell has a successor, and a cell with a successor is live. -/
theorem linkOf_eq_some {heap : Heap ν} {a : Nat} {r : Option Nat} :
    linkOf next heap a = some r ↔ ∃ cell, read heap a = some cell ∧ next cell = r := by
  simp [linkOf]

/-- A write to a cell redirects that cell alone. -/
theorem linkOf_write {heap : Heap ν} {a : Nat} {old : ν} (live : read heap a = some old) (cell : ν)
    (b : Nat) : linkOf next (write heap a cell) b =
      if b = a then some (next cell) else linkOf next heap b := by
  -- Either the cell asked about is the one written, or the write does not concern it.
  rcases eq_or_ne b a with rfl | other
  · rw [if_pos rfl, linkOf, read_write_self cell live]
    rfl
  · rw [if_neg other, linkOf, read_write_ne cell other]
    rfl

/-- A write to a live cell keeps every cell live that was. -/
theorem live_write {heap : Heap ν} {a : Nat} {old : ν} (found : read heap a = some old) (cell : ν)
    (b : Nat) : (read (write heap a cell) b).isSome = (read heap b).isSome := by
  -- The written cell was live before, and every other cell is as it was.
  rcases eq_or_ne b a with rfl | other
  · rw [read_write_self cell found, found]
    rfl
  · rw [read_write_ne cell other]

/-- Every node of a path is a live cell. -/
theorem path_live {heap : Heap ν} {p q : Option Nat} {nodes : List Nat}
    (path : Seg (linkOf next heap) p nodes q) {a : Nat} (member : a ∈ nodes) :
    ∃ cell, read heap a = some cell := by
  -- A node with a successor is a cell that can be read.
  obtain ⟨r, linked⟩ := Seg.live path member
  obtain ⟨cell, found, _⟩ := linkOf_eq_some.mp linked
  exact ⟨cell, found⟩

/-- A chain has no more nodes than there are cells. -/
theorem chain_length_le {heap : Heap ν} {p : Option Nat} {nodes : List Nat}
    (chain : Chain (linkOf next heap) p nodes) : nodes.length ≤ heap.length := by
  -- The nodes are distinct addresses below the fresh one.
  have inside : nodes ⊆ List.range heap.length := by
    intro a member
    obtain ⟨cell, found⟩ := path_live chain member
    exact List.mem_range.mpr (read_lt_fresh found)
  simpa using List.Nodup.length_le_of_subset chain.nodup inside

/-- Cells with the same values hold the same values in order. -/
theorem valuesAt_congr {heap other : Heap ν} {nodes : List Nat}
    (same : ∀ a ∈ nodes, (read other a).map value = (read heap a).map value) :
    valuesAt value other nodes = valuesAt value heap nodes :=
  -- The values are read one node at a time.
  List.filterMap_congr same

/-- Overwriting a cell with one of the same value keeps every value. -/
theorem valuesAt_write {heap : Heap ν} {a : Nat} {old cell : ν} (live : read heap a = some old)
    (same : value cell = value old) (nodes : List Nat) :
    valuesAt value (write heap a cell) nodes = valuesAt value heap nodes := by
  -- The written cell keeps its value, and every other cell is as it was.
  apply valuesAt_congr
  intro b _
  rcases eq_or_ne b a with rfl | other
  · rw [read_write_self cell live, live, Option.map_some, Option.map_some, same]
  · rw [read_write_ne cell other]

/-- Reading the values of two runs of nodes reads them one after the other. -/
theorem valuesAt_append (heap : Heap ν) (front back : List Nat) :
    valuesAt value heap (front ++ back) =
      valuesAt value heap front ++ valuesAt value heap back := by
  simp [valuesAt]

/-- A live node in front contributes its value. -/
theorem valuesAt_cons {heap : Heap ν} {a : Nat} {cell : ν} (found : read heap a = some cell)
    (rest : List Nat) :
    valuesAt value heap (a :: rest) = value cell :: valuesAt value heap rest := by
  simp [valuesAt, found]

/-- The value of a live node is among the values. -/
theorem mem_valuesAt {heap : Heap ν} {a : Nat} {cell : ν} {nodes : List Nat} (member : a ∈ nodes)
    (found : read heap a = some cell) : value cell ∈ valuesAt value heap nodes :=
  List.mem_filterMap.mpr ⟨a, member, by rw [found]; rfl⟩

/-- Every node of a path holds a value. -/
theorem valuesAt_eq_nil_iff {heap : Heap ν} {p r : Option Nat} {nodes : List Nat}
    (path : Seg (linkOf next heap) p nodes r) : valuesAt value heap nodes = [] ↔ nodes = [] := by
  -- A node of the path is live, so it holds a value.
  cases nodes with
  | nil => simp [valuesAt]
  | cons a rest =>
    obtain ⟨cell, found⟩ := path_live path List.mem_cons_self
    simp [valuesAt_cons found]

/-- A path of nodes splits where its values split. -/
theorem valuesAt_split {heap : Heap ν} {p : Option Nat} {nodes : List Nat}
    (chain : Chain (linkOf next heap) p nodes) {front back : List κ} {v : κ}
    (held : valuesAt value heap nodes = front ++ v :: back) :
    ∃ before a after cell, nodes = before ++ a :: after ∧ valuesAt value heap before = front ∧
      read heap a = some cell ∧ value cell = v ∧ valuesAt value heap after = back := by
  -- Every node holds exactly one value, so the lists split node for node.
  induction nodes generalizing p front with
  | nil => simp [valuesAt] at held
  | cons b rest ih =>
    obtain ⟨cell, found⟩ := path_live chain List.mem_cons_self
    obtain ⟨_, r, _, chain⟩ := chain
    rw [valuesAt_cons found] at held
    cases front with
    | nil =>
      obtain ⟨same, held⟩ := List.cons.inj held
      exact ⟨[], b, rest, cell, rfl, rfl, found, same, held⟩
    | cons first front =>
      obtain ⟨same, held⟩ := List.cons.inj held
      obtain ⟨before, a, after, cell', rfl, fronts, found', same', backs⟩ := ih chain held
      refine ⟨b :: before, a, after, cell', rfl, ?_, found', same', backs⟩
      rw [valuesAt_cons found, same, fronts]

/-- A walk over cells it does not stop at ends where their path ends. -/
theorem walkUntil_passes {heap : Heap ν} {nodes : List Nat} {p r prev : Option Nat}
    (path : Seg (linkOf next heap) p nodes r)
    (passed : ∀ a ∈ nodes, ∀ cell, read heap a = some cell → stop cell = false) (steps : Nat) :
    walkUntil stop next heap (nodes.length + steps) prev p =
      walkUntil stop next heap steps (nodes.getLast?.or prev) r := by
  -- Each node of the path costs one step and becomes the predecessor of the next.
  induction nodes generalizing p prev with
  | nil =>
    have here : p = r := path
    simp [here]
  | cons a rest ih =>
    obtain ⟨rfl, s, linked, path⟩ := path
    obtain ⟨cell, found, rfl⟩ := linkOf_eq_some.mp linked
    have passedOver := passed a List.mem_cons_self cell found
    -- From the next cell on, the walk is that over the rest of the path.
    have later := @ih (next cell) (some a) path fun b member =>
      passed b (List.mem_cons_of_mem _ member)
    rw [List.length_cons, Nat.add_right_comm, walkUntil]
    simp only [found, passedOver, Bool.false_eq_true, if_false, later]
    cases rest with
    | nil => rfl
    | cons b rest => simp [List.getLast?_cons]

/-- A walk that never stops comes back with the last node and nothing behind it. -/
theorem walkUntil_end {heap : Heap ν} {nodes : List Nat} {p : Option Nat}
    (chain : Chain (linkOf next heap) p nodes)
    (passed : ∀ a ∈ nodes, ∀ cell, read heap a = some cell → stop cell = false) :
    walkUntil stop next heap (heap.length + 1) none p = some (nodes.getLast?, none) := by
  -- The walk has a step for every node and one to see the end.
  obtain ⟨steps, enough⟩ := Nat.exists_eq_add_of_le (chain_length_le chain)
  rw [enough, Nat.add_assoc, walkUntil_passes chain passed, walkUntil, Option.or_none]

/-- A walk comes back with the first node it stops at, and the node before it. -/
theorem walkUntil_stop {heap : Heap ν} {front rest : List Nat} {p : Option Nat} {a : Nat} {cell : ν}
    (chain : Chain (linkOf next heap) p (front ++ a :: rest))
    (passed : ∀ b ∈ front, ∀ cell, read heap b = some cell → stop cell = false)
    (found : read heap a = some cell) (stops : stop cell = true) :
    walkUntil stop next heap (heap.length + 1) none p = some (front.getLast?, some a) := by
  -- There are fewer cells in front of the stop than steps.
  have bound := chain_length_le chain
  obtain ⟨r, path, _, _⟩ := Chain.split chain
  obtain ⟨steps, enough⟩ := Nat.exists_eq_add_of_le
    (show front.length ≤ heap.length by rw [List.length_append] at bound; omega)
  rw [enough, Nat.add_assoc, walkUntil_passes path passed, walkUntil]
  simp [found, stops]

/-- A walk splits a chain at the first node it stops at, if there is one. -/
theorem walkUntil_split {heap : Heap ν} {front rest : List Nat} {p : Option Nat}
    (chain : Chain (linkOf next heap) p (front ++ rest))
    (passed : ∀ b ∈ front, ∀ cell, read heap b = some cell → stop cell = false)
    (stops : ∀ a, rest.head? = some a → ∃ cell, read heap a = some cell ∧ stop cell = true) :
    walkUntil stop next heap (heap.length + 1) none p = some (front.getLast?, rest.head?) := by
  cases rest with
  | nil =>
    -- Nothing stops the walk, so it comes to the end.
    rw [List.append_nil] at chain
    exact walkUntil_end chain passed
  | cons a rest =>
    obtain ⟨cell, found, stopped⟩ := stops a rfl
    exact walkUntil_stop chain passed found stopped

/-- A walk of more steps than there are nodes comes back, with one of the nodes or with none. -/
theorem walkUntil_finds {heap : Heap ν} {nodes : List Nat} {p prev : Option Nat} {steps : Nat}
    (chain : Chain (linkOf next heap) p nodes) (enough : nodes.length < steps) :
    ∃ before found, walkUntil stop next heap steps prev p = some (before, found) ∧
      ∀ a, found = some a → a ∈ nodes := by
  -- The walk stops at the first node or goes on along the rest of the chain.
  induction nodes generalizing p prev steps with
  | nil =>
    obtain ⟨rest, rfl⟩ := Nat.exists_eq_add_of_lt enough
    have ends : p = none := chain
    exact ⟨prev, none, by simp [ends, walkUntil], by simp⟩
  | cons a rest ih =>
    cases steps with
    | zero => simp at enough
    | succ steps =>
      obtain ⟨rfl, r, linked, chain⟩ := chain
      obtain ⟨cell, found, rfl⟩ := linkOf_eq_some.mp linked
      simp only [walkUntil, found]
      split
      · exact ⟨prev, some a, rfl, by simp⟩
      · obtain ⟨before, b, walked, member⟩ :=
          @ih (next cell) (some a) steps chain (by simpa using enough)
        exact ⟨before, b, walked, fun c same => List.mem_cons_of_mem _ (member c same)⟩

end HeapLists
