import Mathlib.Data.List.Forall2
import TwoIne.Lib.CStrings

/-!
Blocks of memory with pointers at the start and the strings that they lead to behind.

A block remembers for every byte whether it is one of a string or a part of a pointer, so what was
written over is not read back. Nothing is written outside of a block.
-/

namespace PointerBlocks

open CStrings

/-- What a byte of a block holds; a pointer leads to a place of the block, or nowhere. -/
inductive Cell where
  | fresh
  | byte (value : UInt8)
  | pointer (place : Option Nat) (part : Nat)
  deriving DecidableEq, Repr

/-- A block of memory. -/
structure Block where
  size : Nat
  cells : Nat → Cell

/-- A block that nothing was written to. -/
def Block.new (size : Nat) : Block := ⟨size, fun _ => .fresh⟩

/-- Writing cells from a place on; what is written past the block is a fault. -/
def Block.write (block : Block) (place : Nat) (cells : List Cell) : Option Block :=
  if place + cells.length ≤ block.size then
    some { block with
      cells := fun i => if i < place then block.cells i
        else (cells[i - place]?).getD (block.cells i) }
  else none

/-- The cells of a pointer of some width. -/
def pointerCells (width : Nat) (place : Option Nat) : List Cell :=
  (List.range width).map (.pointer place)

/-- The place where the next pointer is put, and the one for the next byte. -/
structure Cursor where
  block : Block
  idx : Nat
  dst : Nat

/-- Putting the next pointer. -/
def Cursor.point (width : Nat) (c : Cursor) (place : Option Nat) : Option Cursor :=
  (c.block.write (c.idx * width) (pointerCells width place)).map fun block =>
    { c with
        block
        idx := c.idx + 1 }

/-- Putting the next bytes. -/
def Cursor.append (c : Cursor) (bytes : List UInt8) : Option Cursor :=
  (c.block.write c.dst (bytes.map .byte)).map fun block =>
    { c with
        block
        dst := c.dst + bytes.length }

/-- Copying a string; the next byte is put where its zero is. -/
def Cursor.strcpy (c : Cursor) (bytes : List UInt8) : Option Cursor :=
  (c.append (stored bytes)).map fun c => { c with dst := c.dst - 1 }

/-- Putting a pointer to the next string, and then the string. -/
def Cursor.put (width : Nat) (c : Cursor) (bytes : List UInt8) : Option Cursor :=
  (c.point width (some c.dst)).bind fun c => c.append (stored bytes)

/-- Putting strings one behind the other. -/
def Cursor.putAll (width : Nat) : Cursor → List (List UInt8) → Option Cursor
  | c, [] => some c
  | c, bytes :: rest => (c.put width bytes).bind fun c => c.putAll width rest

/-- A block has cells from a place on. -/
def Block.Reads (block : Block) (place : Nat) (cells : List Cell) : Prop :=
  place + cells.length ≤ block.size ∧
    ∀ i cell, cells[i]? = some cell → block.cells (place + i) = cell

/-- A pointer that leads to a place, or nowhere. -/
def Block.PointerAt (width : Nat) (block : Block) (i : Nat) (place : Option Nat) : Prop :=
  block.Reads (i * width) (pointerCells width place)

/-- A string in a block. -/
def Block.StringAt (block : Block) (place : Nat) (bytes : List UInt8) : Prop :=
  block.Reads place ((stored bytes).map .byte)

/--
A list of strings in a block: pointers to all of them and one that leads nowhere, in front of an
area where the strings stand and do not overlap.
-/
structure Block.Laid (width : Nat) (block : Block) (area : Nat) (strings : List (List UInt8))
    (places : List Nat) : Prop where
  slots : (strings.length + 1) * width ≤ area
  pointers : ∀ i place, places[i]? = some place → block.PointerAt width i (some place)
  ended : block.PointerAt width strings.length none
  held : List.Forall₂ block.StringAt places strings
  behind : ∀ place ∈ places, area ≤ place
  apart : (places.zip strings).Pairwise fun first second =>
    first.1 + (stored first.2).length ≤ second.1

/-- Where strings stand that are put one behind the other. -/
def placesFrom (area : Nat) : List (List UInt8) → List Nat
  | [] => []
  | bytes :: rest => area :: placesFrom (area + (stored bytes).length) rest

/-- The bytes of strings that are put one behind the other. -/
def allStored (strings : List (List UInt8)) : List UInt8 := strings.flatMap stored

/-- The pointers and the bytes that were put so far; the bytes may be ahead of the pointers. -/
structure Cursor.Holds (width : Nat) (c : Cursor) (area : Nat) (pointed : List (List UInt8))
    (bytes : List UInt8) : Prop where
  idx : c.idx = pointed.length
  dst : c.dst = area + bytes.length
  slots : pointed.length * width ≤ area
  pointers : ∀ i place, (placesFrom area pointed)[i]? = some place →
    c.block.PointerAt width i (some place)
  bytes : c.block.Reads area (bytes.map .byte)

variable {width : Nat} {block after : Block} {place area : Nat} {cells more : List Cell}
  {c d : Cursor} {pointed strings : List (List UInt8)} {bytes : List UInt8}

/-- A pointer has as many cells as it is wide. -/
@[simp] theorem pointerCells_length (width : Nat) (place : Option Nat) :
    (pointerCells width place).length = width := by
  simp [pointerCells]

/-- A string is stored with one zero. -/
@[simp] theorem stored_length (bytes : List UInt8) : (stored bytes).length = bytes.length + 1 := by
  simp [stored]

/-- What is written is inside. -/
theorem write_inside (written : block.write place cells = some after) :
    place + cells.length ≤ block.size ∧ after.size = block.size := by
  unfold Block.write at written
  split at written
  · next inside =>
    cases written
    exact ⟨inside, rfl⟩
  · cases written

/-- What is inside can be written, and is read back. -/
theorem write_reads (inside : place + cells.length ≤ block.size) :
    ∃ after, block.write place cells = some after ∧ after.size = block.size ∧
      after.Reads place cells ∧
      ∀ i, (i < place ∨ place + cells.length ≤ i) → after.cells i = block.cells i := by
  refine ⟨_, if_pos inside, rfl, ⟨inside, fun i cell found => ?_⟩, fun i outside => ?_⟩
  · show (if place + i < place then _ else _) = _
    rw [if_neg (by omega), Nat.add_sub_cancel_left, found]
    rfl
  · show (if i < place then _ else _) = _
    rcases outside with front | back
    · rw [if_pos front]
    · -- No cell is written behind the last one.
      have none_there : cells[i - place]? = none := List.getElem?_eq_none (by omega)
      simp [none_there]

/-- Cells are read one part after the other. -/
theorem reads_append : block.Reads place (cells ++ more) ↔
    block.Reads place cells ∧ block.Reads (place + cells.length) more := by
  constructor
  · intro reads
    obtain ⟨inside, same⟩ := reads
    rw [List.length_append] at inside
    refine ⟨⟨by omega, fun i cell found => ?_⟩, ⟨by omega, fun i cell found => ?_⟩⟩
    · have below := (List.getElem?_eq_some_iff.mp found).1
      exact same i cell (by rw [List.getElem?_append_left below, found])
    · have there := same (cells.length + i) cell (by
        rw [List.getElem?_append_right (Nat.le_add_right ..), Nat.add_sub_cancel_left, found])
      rw [← there, Nat.add_assoc]
  · intro both
    obtain ⟨⟨_, first⟩, ⟨inside, second⟩⟩ := both
    refine ⟨by rw [List.length_append]; omega, fun i cell found => ?_⟩
    by_cases below : i < cells.length
    · exact first i cell (by rw [← found, List.getElem?_append_left below])
    · have there := second (i - cells.length) cell (by
        rw [← found, List.getElem?_append_right (by omega)])
      rw [← there]
      congr 1
      omega

/-- What is written elsewhere changes nothing that is read. -/
theorem Block.Reads.kept (reads : block.Reads place cells) {other : Nat}
    (same : after.size = block.size)
    (others : ∀ i, (i < other ∨ other + more.length ≤ i) → after.cells i = block.cells i)
    (apart : place + cells.length ≤ other ∨ other + more.length ≤ place) :
    after.Reads place cells := by
  obtain ⟨inside, there⟩ := reads
  refine ⟨same ▸ inside, fun i cell found => ?_⟩
  have below := (List.getElem?_eq_some_iff.mp found).1
  rw [others _ (by omega)]
  exact there i cell found

/-- The strings have as many places. -/
@[simp] theorem placesFrom_length (area : Nat) (strings : List (List UInt8)) :
    (placesFrom area strings).length = strings.length := by
  induction strings generalizing area with
  | nil => rfl
  | cons bytes rest ih => simp [placesFrom, ih]

/-- The last string stands behind all others. -/
theorem placesFrom_concat (area : Nat) (strings : List (List UInt8)) (bytes : List UInt8) :
    placesFrom area (strings ++ [bytes]) =
      placesFrom area strings ++ [area + (allStored strings).length] := by
  induction strings generalizing area with
  | nil => simp [placesFrom, allStored]
  | cons first rest ih =>
    simp only [List.cons_append, placesFrom, ih, allStored, List.flatMap_cons, List.length_append,
      Nat.add_assoc]

/-- One string behind the others. -/
theorem allStored_concat (strings : List (List UInt8)) (bytes : List UInt8) :
    allStored (strings ++ [bytes]) = allStored strings ++ stored bytes := by
  simp [allStored]

/-- No string stands in front of the area. -/
theorem le_of_mem_placesFrom (member : place ∈ placesFrom area strings) : area ≤ place := by
  induction strings generalizing area with
  | nil => cases member
  | cons bytes rest ih =>
    rcases List.mem_cons.mp member with rfl | later
    · exact Nat.le_refl _
    · exact (Nat.le_add_right ..).trans (ih later)

/-- Strings that are put one behind the other do not overlap. -/
theorem placesFrom_apart (area : Nat) (strings : List (List UInt8)) :
    ((placesFrom area strings).zip strings).Pairwise fun first second =>
      first.1 + (stored first.2).length ≤ second.1 := by
  induction strings generalizing area with
  | nil => exact .nil
  | cons bytes rest ih =>
    refine .cons (fun pair member => ?_) (ih _)
    exact le_of_mem_placesFrom (List.of_mem_zip member).1

/-- Bytes that were put one string behind the other hold the strings. -/
theorem held_of_reads (reads : block.Reads area ((allStored strings).map .byte)) :
    List.Forall₂ block.StringAt (placesFrom area strings) strings := by
  induction strings generalizing area with
  | nil => exact .nil
  | cons bytes rest ih =>
    simp only [allStored, List.flatMap_cons, List.map_append] at reads
    obtain ⟨first, later⟩ := reads_append.mp reads
    rw [List.length_map] at later
    exact .cons first (ih later)

/-- A cursor in a new block has put nothing yet. -/
theorem holds_new {size : Nat} (inside : area ≤ size) :
    Cursor.Holds width ⟨.new size, 0, area⟩ area [] [] where
  idx := rfl
  dst := rfl
  slots := by simp
  pointers i place found := by simp [placesFrom] at found
  bytes := ⟨inside, fun i cell found => by simp at found⟩

/-- Putting a pointer to the string behind those that are pointed to. -/
theorem Cursor.Holds.point (holds : c.Holds width area pointed bytes) (string : List UInt8)
    (room : (pointed.length + 1) * width ≤ area)
    (next : place = area + (allStored pointed).length) :
    ∃ d, c.point width (some place) = some d ∧ d.block.size = c.block.size ∧
      d.Holds width area (pointed ++ [string]) bytes := by
  have behind := holds.bytes.1
  have slot : (pointed.length + 1) * width = pointed.length * width + width := Nat.succ_mul ..
  have inside : c.idx * width + (pointerCells width (some place)).length ≤ c.block.size := by
    rw [pointerCells_length, holds.idx]
    omega
  obtain ⟨after, written, same, reads, others⟩ := write_reads inside
  refine ⟨{ c with block := after, idx := c.idx + 1 }, by simp [Cursor.point, written], same, ?_⟩
  constructor
  · simp [holds.idx]
  · exact holds.dst
  · rw [List.length_append]
    exact room
  · intro i target found
    rw [placesFrom_concat] at found
    by_cases earlier : i < pointed.length
    · -- The pointers in front stay as they were.
      rw [List.getElem?_append_left (by simpa using earlier)] at found
      refine (holds.pointers i target found).kept same others (.inl ?_)
      rw [pointerCells_length, holds.idx, ← Nat.succ_mul]
      exact Nat.mul_le_mul_right width earlier
    · have last := (List.getElem?_eq_some_iff.mp found).1
      simp only [List.length_append, placesFrom_length, List.length_singleton] at last
      obtain rfl : i = pointed.length := by omega
      rw [List.getElem?_append_right (by simp)] at found
      simp only [placesFrom_length, Nat.sub_self, List.getElem?_cons_zero, Option.some.injEq]
        at found
      rw [← found, ← next, ← holds.idx]
      exact reads
  · refine holds.bytes.kept same others (.inr ?_)
    rw [pointerCells_length, holds.idx]
    omega

/-- Putting more bytes. -/
theorem Cursor.Holds.append (holds : c.Holds width area pointed bytes) (more : List UInt8)
    (room : area + bytes.length + more.length ≤ c.block.size) :
    ∃ d, c.append more = some d ∧ d.block.size = c.block.size ∧
      d.Holds width area pointed (bytes ++ more) := by
  have inside : c.dst + (more.map Cell.byte).length ≤ c.block.size := by
    rw [List.length_map, holds.dst]
    exact room
  obtain ⟨after, written, same, reads, others⟩ := write_reads inside
  refine ⟨{ c with block := after, dst := c.dst + more.length }, by simp [Cursor.append, written],
    same, ?_⟩
  constructor
  · exact holds.idx
  · simp [holds.dst, Nat.add_assoc]
  · exact holds.slots
  · intro i target found
    -- The pointers are all in front of the area.
    have below := (List.getElem?_eq_some_iff.mp found).1
    rw [placesFrom_length] at below
    refine (holds.pointers i target found).kept same others (.inl ?_)
    have front : (i + 1) * width ≤ pointed.length * width := Nat.mul_le_mul_right width below
    have slots := holds.slots
    rw [Nat.succ_mul] at front
    rw [pointerCells_length, holds.dst]
    omega
  · rw [List.map_append]
    refine reads_append.mpr ⟨holds.bytes.kept same others (.inl ?_), ?_⟩
    · rw [List.length_map, holds.dst]
    · rw [List.length_map, ← holds.dst]
      exact reads

/-- Taking bytes back, which stay where they are. -/
theorem Cursor.Holds.retreat {more : List UInt8}
    (holds : c.Holds width area pointed (bytes ++ more)) :
    Cursor.Holds width { c with dst := c.dst - more.length } area pointed bytes where
  idx := holds.idx
  dst := by
    have reached := holds.dst
    simp only [List.length_append] at reached ⊢
    omega
  slots := holds.slots
  pointers := holds.pointers
  bytes := by
    have whole := holds.bytes
    rw [List.map_append] at whole
    exact (reads_append.mp whole).1

/-- Copying a string, whose zero is not counted. -/
theorem Cursor.Holds.strcpy (holds : c.Holds width area pointed bytes) (more : List UInt8)
    (room : area + bytes.length + (more.length + 1) ≤ c.block.size) :
    ∃ d, c.strcpy more = some d ∧ d.block.size = c.block.size ∧
      d.Holds width area pointed (bytes ++ more) := by
  obtain ⟨d, copied, same, held⟩ :=
    holds.append (stored more) (by rw [stored_length]; exact room)
  rw [stored, ← List.append_assoc] at held
  refine ⟨{ d with dst := d.dst - 1 }, ?_, same, held.retreat⟩
  rw [Cursor.strcpy, copied]
  rfl

/-- The pointer that ends the list makes it whole. -/
theorem Cursor.Holds.finish (holds : c.Holds width area strings bytes)
    (room : (strings.length + 1) * width ≤ area) (whole : allStored strings <+: bytes) :
    ∃ d, c.point width none = some d ∧
      d.block.Laid width area strings (placesFrom area strings) := by
  have behind := holds.bytes.1
  have slot : (strings.length + 1) * width = strings.length * width + width := Nat.succ_mul ..
  have inside : c.idx * width + (pointerCells width none).length ≤ c.block.size := by
    rw [pointerCells_length, holds.idx]
    omega
  obtain ⟨after, written, same, reads, others⟩ := write_reads inside
  have kept : after.Reads area (bytes.map .byte) := by
    refine holds.bytes.kept same others (.inr ?_)
    rw [pointerCells_length, holds.idx]
    omega
  refine ⟨{ c with block := after, idx := c.idx + 1 }, by simp [Cursor.point, written], ?_⟩
  constructor
  · exact room
  · intro i target found
    have below := (List.getElem?_eq_some_iff.mp found).1
    rw [placesFrom_length] at below
    refine (holds.pointers i target found).kept same others (.inl ?_)
    rw [pointerCells_length, holds.idx, ← Nat.succ_mul]
    exact Nat.mul_le_mul_right width below
  · rw [← holds.idx]
    exact reads
  · obtain ⟨rest, split⟩ := whole
    rw [← split, List.map_append] at kept
    exact held_of_reads (reads_append.mp kept).1
  · exact fun place member => le_of_mem_placesFrom member
  · exact placesFrom_apart area strings

/-- Putting one string. -/
theorem Cursor.Holds.put (holds : c.Holds width area strings (allStored strings))
    (string : List UInt8) (room : (strings.length + 1) * width ≤ area)
    (fits : area + (allStored (strings ++ [string])).length ≤ c.block.size) :
    ∃ d, c.put width string = some d ∧ d.block.size = c.block.size ∧
      d.Holds width area (strings ++ [string]) (allStored (strings ++ [string])) := by
  rw [allStored_concat] at fits ⊢
  obtain ⟨d, pointed, same, held⟩ := holds.point string room holds.dst
  obtain ⟨e, copied, kept, all⟩ := held.append (stored string) (by
    rw [same]
    rw [List.length_append] at fits
    omega)
  exact ⟨e, by simp [Cursor.put, pointed, copied], kept.trans same, all⟩

/-- Putting all strings. -/
theorem Cursor.Holds.putAll (holds : c.Holds width area strings (allStored strings))
    (rest : List (List UInt8)) (room : (strings.length + rest.length) * width ≤ area)
    (fits : area + (allStored (strings ++ rest)).length ≤ c.block.size) :
    ∃ d, c.putAll width rest = some d ∧
      d.Holds width area (strings ++ rest) (allStored (strings ++ rest)) := by
  induction rest generalizing c strings with
  | nil => exact ⟨c, rfl, by simpa using holds⟩
  | cons string rest ih =>
    have split : strings ++ string :: rest = (strings ++ [string]) ++ rest := by simp
    rw [split] at fits ⊢
    have first : (allStored (strings ++ [string])).length ≤
        (allStored ((strings ++ [string]) ++ rest)).length := by
      simp [allStored]
    have slots : (strings.length + 1) * width ≤ (strings.length + (rest.length + 1)) * width :=
      Nat.mul_le_mul_right width (by omega)
    obtain ⟨d, put, same, held⟩ := holds.put string (slots.trans room) (by omega)
    have later : ((strings ++ [string]).length + rest.length) * width ≤ area := by
      rw [List.length_append, List.length_singleton, Nat.add_assoc, Nat.add_comm 1]
      exact room
    obtain ⟨e, all, whole⟩ := ih held later (same ▸ fits)
    exact ⟨e, by simp [Cursor.putAll, put, all], whole⟩

/-- What a pointer that was put needs. -/
theorem point_inside {target : Option Nat} (pointed : c.point width target = some d) :
    (c.idx + 1) * width ≤ c.block.size ∧ d.block.size = c.block.size ∧ d.idx = c.idx + 1 ∧
      d.dst = c.dst := by
  obtain ⟨after, written, same⟩ := Option.map_eq_some_iff.mp pointed
  obtain ⟨inside, size⟩ := write_inside written
  rw [pointerCells_length] at inside
  rw [← same, Nat.succ_mul]
  exact ⟨inside, size, rfl, rfl⟩

/-- What bytes that were put need. -/
theorem append_inside {more : List UInt8} (copied : c.append more = some d) :
    c.dst + more.length ≤ c.block.size ∧ d.block.size = c.block.size ∧ d.idx = c.idx ∧
      d.dst = c.dst + more.length := by
  obtain ⟨after, written, same⟩ := Option.map_eq_some_iff.mp copied
  obtain ⟨inside, size⟩ := write_inside written
  rw [List.length_map] at inside
  rw [← same]
  exact ⟨inside, size, rfl, rfl⟩

/-- What strings that were put need. -/
theorem putAll_inside (put : c.putAll width strings = some d) :
    (strings ≠ [] → c.dst + (allStored strings).length ≤ c.block.size) ∧
      d.block.size = c.block.size ∧ d.idx = c.idx + strings.length := by
  induction strings generalizing c with
  | nil =>
    cases put
    exact ⟨fun some_string => absurd rfl some_string, rfl, rfl⟩
  | cons string rest ih =>
    obtain ⟨e, first, later⟩ := Option.bind_eq_some_iff.mp put
    obtain ⟨m, pointed, copied⟩ := Option.bind_eq_some_iff.mp first
    obtain ⟨_, same, idx, dst⟩ := point_inside pointed
    obtain ⟨room, kept, count, reached⟩ := append_inside copied
    obtain ⟨fits, whole, total⟩ := ih later
    refine ⟨fun _ => ?_, by omega, by rw [List.length_cons]; omega⟩
    simp only [allStored, List.flatMap_cons, List.length_append] at fits ⊢
    -- The last string is the one that reaches farthest.
    by_cases last : rest = []
    · rw [last, List.flatMap_nil, List.length_nil]
      omega
    · have behind := fits last
      omega

/-- Cells may be written one part after the other. -/
theorem write_append (block : Block) (place : Nat) (cells more : List Cell) :
    block.write place (cells ++ more) =
      (block.write place cells).bind fun after => after.write (place + cells.length) more := by
  unfold Block.write
  rw [List.length_append]
  by_cases first : place + cells.length ≤ block.size
  · rw [if_pos first, Option.bind_some]
    by_cases second : place + cells.length + more.length ≤ block.size
    · rw [if_pos (by omega), if_pos second]
      congr 2
      funext i
      dsimp only
      -- A cell is in front of both parts, in one of them, or behind both.
      by_cases front : i < place
      · rw [if_pos front, if_pos (by omega), if_pos front]
      · by_cases inner : i < place + cells.length
        · rw [if_neg front, if_pos inner, if_neg front, List.getElem?_append_left (by omega)]
        · have nothing : cells[i - place]? = none := List.getElem?_eq_none (by omega)
          rw [if_neg front, if_neg inner, List.getElem?_append_right (by omega), Nat.sub_sub,
            if_neg front, nothing]
          rfl
    · rw [if_neg (by omega), if_neg second]
  · rw [if_neg (by omega), if_neg first]
    rfl

/-- Bytes may be put one part after the other. -/
theorem append_append (c : Cursor) (bytes more : List UInt8) :
    c.append (bytes ++ more) = (c.append bytes).bind fun d => d.append more := by
  unfold Cursor.append
  rw [List.map_append, write_append, List.length_map]
  cases written : c.block.write c.dst (bytes.map .byte) with
  | none => rfl
  | some after => simp [Nat.add_assoc]

end PointerBlocks
