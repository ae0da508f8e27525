import Mathlib.Data.List.Basic

/-! Buffers that are filled byte by byte, with a mark on every byte that was written. -/

namespace Buffers

/-- A byte of a buffer, and whether something was written to it. -/
structure Cell where
  value : UInt8
  written : Bool
  deriving DecidableEq, Repr

/-- A buffer, which nothing is read or written outside of. -/
abbrev Buffer := List Cell

/-- Reading a byte. -/
def fetch (buffer : Buffer) (i : Int) : Option UInt8 :=
  if 0 ≤ i then buffer[i.toNat]?.map Cell.value else none

/-- Writing a byte. -/
def store (buffer : Buffer) (i : Int) (value : UInt8) : Option Buffer :=
  if 0 ≤ i ∧ i < buffer.length then some (buffer.set i.toNat ⟨value, true⟩) else none

/--
Writing so many bytes in order from a place on.
What is written at an index may depend on what was written before it.
-/
def storeEach (get : Buffer → Nat → Option UInt8) (i : Int) (buffer : Buffer) :
    Nat → Option Buffer
  | 0 => some buffer
  | count + 1 =>
    (storeEach get i buffer count).bind fun buffer =>
      (get buffer count).bind fun value => store buffer (i + count) value

/-- Filling a part of a buffer with one byte. -/
def memset (buffer : Buffer) (i : Int) (value : UInt8) (count : Nat) : Option Buffer :=
  storeEach (fun _ _ => some value) i buffer count

/-- Copying bytes from elsewhere into a buffer. -/
def memcpy (buffer : Buffer) (i : Int) (source : Int → Option UInt8) (j : Int) (count : Nat) :
    Option Buffer :=
  storeEach (fun _ index => source (j + index)) i buffer count

/-- The bytes of a buffer in front of a place were all written. -/
def WrittenTo (buffer : Buffer) (n : Nat) : Prop :=
  ∀ i < n, ∃ value, buffer[i]? = some ⟨value, true⟩

/-- A byte of a buffer can be read. -/
theorem fetch_inside {buffer : Buffer} {i : Int} (positive : 0 ≤ i)
    (below : i < buffer.length) : ∃ value, fetch buffer i = some value := by
  have inside : i.toNat < buffer.length := by omega
  exact ⟨buffer[i.toNat].value, by simp [fetch, positive, List.getElem?_eq_getElem inside]⟩

/-- Writing the byte behind those that were written. -/
theorem store_next {buffer : Buffer} {n : Nat} (written : WrittenTo buffer n)
    (room : n < buffer.length) (value : UInt8) :
    ∃ after, store buffer n value = some after ∧ after.length = buffer.length ∧
      WrittenTo after (n + 1) := by
  refine ⟨buffer.set n ⟨value, true⟩, ?_, by simp, ?_⟩
  · rw [store, if_pos ⟨by omega, by omega⟩, Int.toNat_natCast]
  · intro i below
    by_cases same : i = n
    · -- This is the byte that is written now.
      subst same
      exact ⟨value, List.getElem?_set_self room⟩
    · -- The other bytes stay as they were.
      rw [List.getElem?_set_ne (fun last => same last.symm)]
      exact written i (by omega)

/-- Writing the bytes behind those that were written. -/
theorem storeEach_next {get : Buffer → Nat → Option UInt8} {buffer : Buffer} {n : Nat}
    (written : WrittenTo buffer n) {count : Nat} (room : n + count ≤ buffer.length)
    (readable : ∀ filled : Buffer, filled.length = buffer.length → ∀ index < count,
      ∃ value, get filled index = some value) :
    ∃ after, storeEach get n buffer count = some after ∧ after.length = buffer.length ∧
      WrittenTo after (n + count) := by
  induction count with
  | zero => exact ⟨buffer, rfl, rfl, written⟩
  | succ count ih =>
    -- The bytes in front were written by the loop so far.
    obtain ⟨filled, reached, same_length, filled_written⟩ :=
      ih (by omega) (fun filled length index below => readable filled length index (by omega))
    obtain ⟨value, got⟩ := readable filled same_length count (by omega)
    obtain ⟨after, stored, kept, all_written⟩ :=
      store_next filled_written (by omega) value
    refine ⟨after, ?_, kept.trans same_length, all_written⟩
    rw [storeEach, reached, Option.bind_some, got, Option.bind_some]
    exact stored

/-- Filling the bytes behind those that were written. -/
theorem memset_next {buffer : Buffer} {n : Nat} (written : WrittenTo buffer n) (value : UInt8)
    (count : Nat) (room : n + count ≤ buffer.length) :
    ∃ after, memset buffer n value count = some after ∧ after.length = buffer.length ∧
      WrittenTo after (n + count) :=
  storeEach_next written room fun _ _ _ _ => ⟨value, rfl⟩

/-- Copying to the bytes behind those that were written. -/
theorem memcpy_next {buffer : Buffer} {n : Nat} (written : WrittenTo buffer n)
    (source : Int → Option UInt8) (j : Int) (count : Nat) (room : n + count ≤ buffer.length)
    (readable : ∀ index < count, ∃ value, source (j + index) = some value) :
    ∃ after, memcpy buffer n source j count = some after ∧ after.length = buffer.length ∧
      WrittenTo after (n + count) :=
  storeEach_next written room fun _ _ index below => readable index below

/-- What is in a buffer. -/
def contents (buffer : Buffer) : List UInt8 := buffer.map Cell.value

/-- A buffer has as many bytes as what is in it. -/
@[simp] theorem contents_length (buffer : Buffer) : (contents buffer).length = buffer.length :=
  List.length_map _

/-- Reading a byte of the part that is known. -/
theorem fetch_known {buffer : Buffer} {out : List UInt8} (known : out <+: contents buffer)
    {i : Nat} (below : i < out.length) : fetch buffer i = out[i]? := by
  obtain ⟨rest, split⟩ := known
  have same : buffer[i]?.map Cell.value = out[i]? := by
    rw [← List.getElem?_map, ← contents, ← split, List.getElem?_append_left below]
  rw [fetch, if_pos (by omega), Int.toNat_natCast, same]

/-- Writing the byte behind the part that is known makes it known. -/
theorem store_known {buffer after : Buffer} {out : List UInt8} {value : UInt8}
    (known : out <+: contents buffer) (stored : store buffer out.length value = some after) :
    out ++ [value] <+: contents after := by
  simp only [store, Option.ite_none_right_eq_some, Option.some.injEq, Int.toNat_natCast] at stored
  obtain ⟨⟨_, below⟩, rfl⟩ := stored
  obtain ⟨rest, split⟩ := known
  have whole : (contents buffer).set out.length value = out ++ rest.set 0 value := by
    rw [← split, List.set_append_right _ _ (Nat.le_refl _), Nat.sub_self]
  have mapped : contents (buffer.set out.length ⟨value, true⟩) = out ++ rest.set 0 value := by
    rw [contents, List.map_set, ← whole]
    rfl
  -- There is a byte behind the known part, since one was written there.
  cases rest with
  | nil =>
    have lengths := congrArg List.length split
    simp only [List.append_nil, contents_length] at lengths
    omega
  | cons head rest =>
    rw [mapped, List.set_cons_zero]
    exact ⟨rest, by simp⟩

/-- Writing bytes behind the part that is known, where each is the next of some that are given. -/
theorem storeEach_known {get : Buffer → Nat → Option UInt8} {buffer : Buffer}
    (outputs : Nat → List UInt8) {count : Nat} {after : Buffer}
    (stored : storeEach get (outputs 0).length buffer count = some after)
    (known : outputs 0 <+: contents buffer)
    (next : ∀ filled : Buffer, ∀ index < count, outputs index <+: contents filled →
      ∀ value, get filled index = some value → outputs (index + 1) = outputs index ++ [value]) :
    (outputs count).length = (outputs 0).length + count ∧ outputs count <+: contents after := by
  induction count generalizing after with
  | zero =>
    rw [storeEach] at stored
    exact ⟨rfl, Option.some.inj stored ▸ known⟩
  | succ count ih =>
    simp only [storeEach, Option.bind_eq_some_iff] at stored
    obtain ⟨filled, reached, value, got, last⟩ := stored
    obtain ⟨length, filled_known⟩ :=
      ih reached fun filled index below => next filled index (by omega)
    rw [next filled count (by omega) filled_known value got]
    -- The place that is written is the one behind what is known by now.
    rw [← Int.natCast_add, ← length] at last
    exact ⟨by rw [List.length_append, length, List.length_singleton, Nat.add_assoc],
      store_known filled_known last⟩

/-- Filling a part makes it known. -/
theorem memset_known {buffer after : Buffer} {out : List UInt8} {value : UInt8} {count : Nat}
    (known : out <+: contents buffer)
    (stored : memset buffer out.length value count = some after) :
    out ++ List.replicate count value <+: contents after := by
  let outputs : Nat → List UInt8 := fun index => out ++ List.replicate index value
  have start : outputs 0 = out := by simp [outputs]
  refine (storeEach_known outputs (start.symm ▸ stored) (start.symm ▸ known) ?_).2
  intro filled index _ _ stored_value got
  rw [← Option.some.inj got]
  simp [outputs, List.replicate_succ']

/-- Copying bytes that are given makes them known. -/
theorem memcpy_known {buffer after : Buffer} {out bytes : List UInt8}
    {source : Int → Option UInt8} {j : Int} (known : out <+: contents buffer)
    (given : ∀ index < bytes.length, source (j + index) = bytes[index]?)
    (stored : memcpy buffer out.length source j bytes.length = some after) :
    out ++ bytes <+: contents after := by
  let outputs : Nat → List UInt8 := fun index => out ++ bytes.take index
  have start : outputs 0 = out := by simp [outputs]
  have finish : outputs bytes.length = out ++ bytes := by simp [outputs]
  have copied :=
    (storeEach_known outputs (start.symm ▸ stored) (start.symm ▸ known) ?_).2
  · exact finish ▸ copied
  · intro filled index below _ value got
    rw [given index below, List.getElem?_eq_getElem below] at got
    simp only [outputs]
    rw [List.take_succ_eq_append_getElem below, Option.some.inj got, List.append_assoc]

/-- Filling up a buffer behind what is known of it. -/
theorem memset_rest {buffer : Buffer} {out : List UInt8} (known : out <+: contents buffer)
    (written : WrittenTo buffer out.length) (value : UInt8) :
    ∃ after, memset buffer out.length value (buffer.length - out.length) = some after ∧
      after.length = buffer.length ∧ WrittenTo after buffer.length ∧
      contents after = out ++ List.replicate (buffer.length - out.length) value := by
  have below : out.length ≤ buffer.length := by
    rw [← contents_length buffer]
    exact known.length_le
  have whole : out.length + (buffer.length - out.length) = buffer.length := by omega
  obtain ⟨after, filled, length, all_written⟩ :=
    memset_next written value (buffer.length - out.length) (by omega)
  refine ⟨after, filled, length, whole ▸ all_written, ?_⟩
  -- What is known is as long as the whole buffer.
  refine ((memset_known known filled).eq_of_length ?_).symm
  rw [List.length_append, List.length_replicate, contents_length, length, whole]

end Buffers
