import TwoIne.Debugger.SymbolMap

/-!
The closest symbol is found in every table; for a linear address this is so exactly if the segment it
belongs to does not start in the last 64K of the address space.
-/

namespace TwoIne

open CStrings

/-- An entry that is at or below an offset of a segment. -/
def AtOrBelow (segment offset : BitVec 16) (entry : SymbolEntry) : Prop :=
  entry.segment = segment ∧ entry.offset.toNat ≤ offset.toNat

instance (segment offset : BitVec 16) (entry : SymbolEntry) :
    Decidable (AtOrBelow segment offset entry) :=
  inferInstanceAs (Decidable (_ ∧ _))

/-- Whether a segment has a symbol at or below an offset. -/
def HasSymbol (entries : List SymbolEntry) (segment offset : BitVec 16) : Prop :=
  ∃ entry ∈ entries, AtOrBelow segment offset entry

/--
The entry that an offset of a segment belongs to: none at or below the offset is higher, and none of
the same offset comes first in the file.
-/
structure ClosestSymbol (entries : List SymbolEntry) (segment offset : BitVec 16) (i : Nat)
    (entry : SymbolEntry) : Prop where
  listed : entries[i]? = some entry
  below : AtOrBelow segment offset entry
  highest : ∀ other ∈ entries, AtOrBelow segment offset other →
    other.offset.toNat ≤ entry.offset.toNat
  first : ∀ j other, entries[j]? = some other → AtOrBelow segment offset other →
    other.offset = entry.offset → i ≤ j

/-- What a lookup has to answer. -/
def SymbolRight (entries : List SymbolEntry) (segment offset : BitVec 16) :
    Option SymbolHit → Prop
  | some hit => ∃ entry, ClosestSymbol entries segment offset hit.entry entry ∧ hit.name = entry.name ∧
      hit.offset = (offset.toNat : Int) - entry.offset.toNat
  | none => ¬ HasSymbol entries segment offset

section Loading

/-- The symbols of the lines of a file, however many there are. -/
def fileSymbols : List (List UInt8) → Bool → List SymbolEntry
  | [], _ => []
  | line :: lines, inMemoryMap =>
    if ascii "Memory Map" <:+: line then fileSymbols lines true
    else if inMemoryMap ∧ ascii "Imported Symbols" <:+: line then []
    else if inMemoryMap ∧ ascii "Libraries Used" <:+: line then []
    else if ¬ inMemoryMap then fileSymbols lines inMemoryMap
    else if headerLine line then fileSymbols lines inMemoryMap
    else
      match parseSymbolLine line maxSymbolName with
      | none => fileSymbols lines inMemoryMap
      | some entry =>
        if ascii "llvm." <+: entry.name then fileSymbols lines inMemoryMap
        else entry :: fileSymbols lines inMemoryMap

/-- A symbol more, and those behind it, as far as there is room. -/
theorem addSymbol_take {entries : List SymbolEntry} (room : entries.length ≤ maxSymbols)
    (entry : SymbolEntry) (rest : List SymbolEntry) :
    (addSymbol entry entries).length ≤ maxSymbols ∧
      (addSymbol entry entries ++ rest).take maxSymbols =
        (entries ++ entry :: rest).take maxSymbols := by
  -- What is cut off at the end of the table is the same with and without the symbol.
  unfold addSymbol
  split
  · rename_i space
    rw [List.append_assoc, List.length_append]
    exact ⟨space, rfl⟩
  · -- A table that is full takes no more symbols.
    rename_i full
    have size : entries.length = maxSymbols := Nat.le_antisymm room (Nat.le_of_not_lt full)
    refine ⟨room, ?_⟩
    rw [← size, List.take_left, List.take_left]

/-- The table has the symbols of the file in their order, as many as there is room for. -/
theorem loadLines_order (lines : List (List UInt8)) (inMemoryMap : Bool)
    {entries : List SymbolEntry} (room : entries.length ≤ maxSymbols) :
    loadLines lines inMemoryMap entries =
      (entries ++ fileSymbols lines inMemoryMap).take maxSymbols := by
  -- Each line is tested for the same things in the same order on both sides.
  have whole : ∀ kept : List SymbolEntry, kept.length ≤ maxSymbols →
      kept = (kept ++ []).take maxSymbols := by
    intro kept fits
    rw [List.append_nil, List.take_of_length_le fits]
  induction lines generalizing inMemoryMap entries with
  | nil => exact whole entries room
  | cons line lines ih =>
    rw [loadLines, fileSymbols]
    by_cases heading : ascii "Memory Map" <:+: line
    · rw [if_pos heading, if_pos heading]
      exact ih true room
    rw [if_neg heading, if_neg heading]
    by_cases imported : inMemoryMap ∧ ascii "Imported Symbols" <:+: line
    · rw [if_pos imported, if_pos imported]
      exact whole entries room
    rw [if_neg imported, if_neg imported]
    by_cases libraries : inMemoryMap ∧ ascii "Libraries Used" <:+: line
    · rw [if_pos libraries, if_pos libraries]
      exact whole entries room
    rw [if_neg libraries, if_neg libraries]
    by_cases outside : ¬ inMemoryMap
    · rw [if_pos outside, if_pos outside]
      exact ih inMemoryMap room
    rw [if_neg outside, if_neg outside]
    by_cases header : headerLine line
    · rw [if_pos header, if_pos header]
      exact ih inMemoryMap room
    rw [if_neg header, if_neg header]
    cases parseSymbolLine line maxSymbolName with
    | none => exact ih inMemoryMap room
    | some entry =>
      dsimp only
      by_cases internal : ascii "llvm." <+: entry.name
      · rw [if_pos internal, if_pos internal]
        exact ih inMemoryMap room
      rw [if_neg internal, if_neg internal]
      obtain ⟨fits, same⟩ := addSymbol_take room entry (fileSymbols lines inMemoryMap)
      rw [ih inMemoryMap fits, same]

/-- What is loaded of a file are its symbols in their order, as many as there is room for. -/
theorem symbolMapLoad_order (file : List UInt8) (map : SymbolMap) :
    symbolMapLoad (some file) map =
      (0, ⟨(fileSymbols (readLines (file.length + 1) file) false).take maxSymbols, true⟩) := by
  rw [symbolMapLoad, loadLines_order _ _ (Nat.zero_le _), List.nil_append]

end Loading

section Lookup

variable {segment offset : BitVec 16} {entries rest : List SymbolEntry}

/-- What the loop knows after the entries it has looked at. -/
def BestOf (segment offset : BitVec 16) (seen : List SymbolEntry) (best : BestSymbol) : Prop :=
  match best.bestIdx with
  | some i => ∃ entry, ClosestSymbol seen segment offset i entry ∧
      best.bestDiff = (offset.toNat : Int) - entry.offset.toNat
  | none => ¬ HasSymbol seen segment offset ∧ best.bestDiff = 0x7FFFFFFF

/-- An entry behind others is one of them or the last one. -/
theorem getElem?_behind {seen : List SymbolEntry} {last entry : SymbolEntry} {i : Nat}
    (listed : (seen ++ [last])[i]? = some entry) :
    seen[i]? = some entry ∨ (i = seen.length ∧ entry = last) := by
  -- The place is in front of the last entry, or it is that of the last entry.
  by_cases inside : i < seen.length
  · rw [List.getElem?_append_left inside] at listed
    exact Or.inl listed
  · rw [List.getElem?_append_right (Nat.le_of_not_lt inside)] at listed
    obtain ⟨bound, same⟩ := List.getElem?_eq_some_iff.mp listed
    rw [List.length_singleton] at bound
    have at_end : i - seen.length = 0 := by omega
    simp only [at_end, List.getElem_cons_zero] at same
    exact Or.inr ⟨by omega, same.symm⟩

/-- An entry that is no closer leaves the closest one as it is. -/
theorem ClosestSymbol.keep {seen : List SymbolEntry} {entry last : SymbolEntry} {i : Nat}
    (closest : ClosestSymbol seen segment offset i entry)
    (farther : AtOrBelow segment offset last → last.offset.toNat ≤ entry.offset.toNat) :
    ClosestSymbol (seen ++ [last]) segment offset i entry := by
  -- The new entry stands behind all others, so that it is never the first at its offset.
  obtain ⟨inside, _⟩ := List.getElem?_eq_some_iff.mp closest.listed
  constructor
  · rw [List.getElem?_append_left inside]
    exact closest.listed
  · exact closest.below
  · intro other member below
    obtain earlier | rfl := List.mem_append.mp member |>.imp_right List.mem_singleton.mp
    · exact closest.highest other earlier below
    · exact farther below
  · intro j other listed below same
    obtain earlier | ⟨rfl, _⟩ := getElem?_behind listed
    · exact closest.first j other earlier below same
    · exact Nat.le_of_lt inside

/-- An entry that is above all others so far is the closest one. -/
theorem ClosestSymbol.new {seen : List SymbolEntry} {last : SymbolEntry}
    (below : AtOrBelow segment offset last)
    (above : ∀ other ∈ seen, AtOrBelow segment offset other →
      other.offset.toNat < last.offset.toNat) :
    ClosestSymbol (seen ++ [last]) segment offset seen.length last := by
  -- Nothing at or below the offset is as high as the new entry.
  constructor
  · rw [List.getElem?_append_right (Nat.le_refl _), Nat.sub_self]
    rfl
  · exact below
  · intro other member other_below
    obtain earlier | rfl := List.mem_append.mp member |>.imp_right List.mem_singleton.mp
    · exact Nat.le_of_lt (above other earlier other_below)
    · exact Nat.le_refl _
  · intro j other listed other_below same
    obtain earlier | ⟨rfl, _⟩ := getElem?_behind listed
    · have less := above other (List.mem_of_getElem? earlier) other_below
      rw [same] at less
      exact absurd less (Nat.lt_irrefl _)
    · exact Nat.le_refl _

/-- An entry that is not at or below the offset does not count. -/
theorem BestOf.skip {seen : List SymbolEntry} {last : SymbolEntry} {best : BestSymbol}
    (known : BestOf segment offset seen best) (other : ¬ AtOrBelow segment offset last) :
    BestOf segment offset (seen ++ [last]) best := by
  -- An entry that does not count neither becomes the closest one nor makes one.
  unfold BestOf at known ⊢
  split at known
  · obtain ⟨entry, closest, diff⟩ := known
    exact ⟨entry, closest.keep fun below => absurd below other, diff⟩
  · refine ⟨fun has => ?_, known.2⟩
    obtain ⟨entry, member, below⟩ := has
    obtain earlier | rfl := List.mem_append.mp member |>.imp_right List.mem_singleton.mp
    · exact known.1 ⟨entry, earlier, below⟩
    · exact other below

/-- Looking at an entry keeps what the loop knows. -/
theorem considerEntry_best {seen : List SymbolEntry} {last : SymbolEntry} {best : BestSymbol}
    (known : BestOf segment offset seen best) :
    BestOf segment offset (seen ++ [last])
      (considerEntry segment offset seen.length last best) := by
  -- An entry replaces the best one only if it is strictly closer, so that the first one stays.
  unfold considerEntry
  split
  · rename_i elsewhere
    exact known.skip fun below => elsewhere below.1
  rename_i here
  dsimp only
  split
  · rename_i negative
    exact known.skip fun below => by
      have upto := below.2
      omega
  rename_i positive
  have below : AtOrBelow segment offset last := ⟨not_not.mp here, by omega⟩
  split
  · rename_i closer
    refine ⟨last, ClosestSymbol.new below ?_, rfl⟩
    intro other member other_below
    unfold BestOf at known
    split at known
    · obtain ⟨entry, closest, diff⟩ := known
      have highest := closest.highest other member other_below
      omega
    · exact absurd ⟨other, member, other_below⟩ known.1
  · rename_i farther
    unfold BestOf at known ⊢
    split at known
    · obtain ⟨entry, closest, diff⟩ := known
      exact ⟨entry, closest.keep fun _ => by omega, diff⟩
    · -- The first entry that counts is closer than none.
      have bound := offset.isLt
      rw [known.2] at farther
      omega

/-- Looking at entries keeps what the loop knows. -/
theorem considerEntries_best {seen : List SymbolEntry} {best : BestSymbol}
    (known : BestOf segment offset seen best) (rest : List SymbolEntry) :
    BestOf segment offset (seen ++ rest)
      (considerEntries segment offset seen.length rest best) := by
  -- The index of an entry is the number of those that were looked at.
  induction rest generalizing seen best with
  | nil =>
    rw [List.append_nil]
    exact known
  | cons entry rest ih =>
    have kept : BestOf segment offset (seen ++ [entry])
        (considerEntry segment offset seen.length entry best) := considerEntry_best known
    have next := ih kept
    rw [List.append_assoc, List.length_append] at next
    exact next

/-- A lookup answers as it has to, whatever is in the table. -/
theorem symbolMapLookup_right {map : SymbolMap} (loaded : map.loaded = true)
    (segment offset : BitVec 16) :
    SymbolRight map.entries segment offset (symbolMapLookup map segment offset) := by
  -- At the end of the loop all entries have been looked at.
  have start : BestOf segment offset [] ⟨none, 0x7FFFFFFF⟩ :=
    ⟨fun has => absurd has.choose_spec.1 List.not_mem_nil, rfl⟩
  have known := considerEntries_best start map.entries
  rw [List.nil_append, List.length_nil] at known
  rw [symbolMapLookup, loaded, Bool.not_true, if_neg Bool.false_ne_true]
  dsimp only
  unfold BestOf at known
  split at known
  · rename_i i found
    obtain ⟨entry, closest, diff⟩ := known
    have name : ((map.entries[i]?).map SymbolEntry.name).getD [] = entry.name := by
      rw [closest.listed]
      rfl
    rw [found]
    exact ⟨entry, closest, name, diff⟩
  · rename_i found
    rw [found]
    exact known.1

/-- A lookup finds something exactly if the segment has a symbol at or below the offset. -/
theorem symbolMapLookup_none_iff {map : SymbolMap} (loaded : map.loaded = true)
    (segment offset : BitVec 16) :
    symbolMapLookup map segment offset = none ↔ ¬ HasSymbol map.entries segment offset := by
  -- The answer of the loop is right in either case, and the two exclude each other.
  have right := symbolMapLookup_right loaded segment offset
  cases found : symbolMapLookup map segment offset with
  | none =>
    rw [found] at right
    exact ⟨fun _ => right, fun _ => rfl⟩
  | some hit =>
    rw [found] at right
    obtain ⟨entry, closest, _⟩ := right
    have has : HasSymbol map.entries segment offset :=
      ⟨entry, List.mem_of_getElem? closest.listed, closest.below⟩
    exact ⟨fun none => (nomatch none), fun none => absurd has none⟩

end Lookup

section Linear

variable {map : SymbolMap} {linear : BitVec 32} {segmentBases : Nat → BitVec 32}
  {numSegments : Int}

/-- Whether a table of bases has a segment; a base of zero stands for none. -/
def HasSegment (segmentBases : Nat → BitVec 32) (numSegments : Int) (seg : Nat) : Prop :=
  1 ≤ seg ∧ (seg : Int) ≤ numSegments ∧ seg < segmentSlots ∧ segmentBases seg ≠ 0

/-- Whether an address lies in the 64K from a base on. -/
def InWindow (linear segBase : BitVec 32) : Prop :=
  segBase.toNat ≤ linear.toNat ∧ linear.toNat < segBase.toNat + 0x10000

/-- The offset of an address in a segment. -/
def offsetIn (linear segBase : BitVec 32) : BitVec 16 := (linear - segBase).truncate 16

/-- Whether an address belongs to a symbol of a segment. -/
def Belongs (map : SymbolMap) (linear : BitVec 32) (segmentBases : Nat → BitVec 32)
    (numSegments : Int) (seg : Nat) : Prop :=
  HasSegment segmentBases numSegments seg ∧ InWindow linear (segmentBases seg) ∧
    HasSymbol map.entries (BitVec.ofNat 16 seg) (offsetIn linear (segmentBases seg))

/-- The lowest segment that an address belongs to a symbol of. -/
def Lowest (map : SymbolMap) (linear : BitVec 32) (segmentBases : Nat → BitVec 32)
    (numSegments : Int) (seg : Nat) : Prop :=
  Belongs map linear segmentBases numSegments seg ∧
    ∀ lower < seg, ¬ Belongs map linear segmentBases numSegments lower

/-- What the lookup of a linear address has to answer. -/
def LinearRight (map : SymbolMap) (linear : BitVec 32) (segmentBases : Nat → BitVec 32)
    (numSegments : Int) : Option SymbolHit → Prop
  | some hit => ∃ seg, Lowest map linear segmentBases numSegments seg ∧
      SymbolRight map.entries (BitVec.ofNat 16 seg) (offsetIn linear (segmentBases seg)) (some hit)
  | none => ∀ seg, ¬ Belongs map linear segmentBases numSegments seg

/-- Where the last window begins that does not reach the end of the address space. -/
def lastBase : Nat := 0xFFFF0000

/-- The test of the loop holds exactly within a window that ends inside the address space. -/
theorem window_test (linear segBase : BitVec 32) :
    (segBase ≤ linear ∧ linear < segBase + 0x10000) ↔
      InWindow linear segBase ∧ segBase.toNat < lastBase := by
  have bound := linear.isLt
  have base_bound := segBase.isLt
  rw [BitVec.le_def, BitVec.lt_def, BitVec.toNat_add, InWindow, lastBase]
  show segBase.toNat ≤ linear.toNat ∧ linear.toNat < (segBase.toNat + 0x10000) % 2 ^ 32 ↔ _
  constructor
  · intro ⟨above, below⟩
    -- An end that has wrapped around is below the base.
    by_cases wraps : segBase.toNat < 0xFFFF0000
    · rw [Nat.mod_eq_of_lt (by omega)] at below
      exact ⟨⟨above, below⟩, wraps⟩
    · omega
  · intro ⟨⟨above, below⟩, inside⟩
    rw [Nat.mod_eq_of_lt (by omega)]
    exact ⟨above, below⟩

/-- Whether the loop finds a symbol of a segment. -/
def Finds (map : SymbolMap) (linear : BitVec 32) (segmentBases : Nat → BitVec 32)
    (numSegments : Int) (seg : Nat) : Prop :=
  Belongs map linear segmentBases numSegments seg ∧ (segmentBases seg).toNat < lastBase

/-- What the loop answers: the symbol of the first segment that it finds one of. -/
def AnswerOf (map : SymbolMap) (linear : BitVec 32) (segmentBases : Nat → BitVec 32)
    (numSegments : Int) (start : Nat) : Option SymbolHit → Prop
  | some hit => ∃ seg, start ≤ seg ∧ Finds map linear segmentBases numSegments seg ∧
      symbolMapLookup map (BitVec.ofNat 16 seg) (offsetIn linear (segmentBases seg)) = some hit ∧
      ∀ lower, start ≤ lower → lower < seg → ¬ Finds map linear segmentBases numSegments lower
  | none => ∀ seg, start ≤ seg → ¬ Finds map linear segmentBases numSegments seg

/-- A segment that nothing is found of leaves the answer to those behind it. -/
theorem AnswerOf.behind {start : Nat} {answer : Option SymbolHit}
    (behind : AnswerOf map linear segmentBases numSegments (start + 1) answer)
    (missed : ¬ Finds map linear segmentBases numSegments start) :
    AnswerOf map linear segmentBases numSegments start answer := by
  -- What is known of the segments so far is kept where the next one has no answer.
  cases answer with
  | none =>
    intro seg from_start finds
    obtain rfl | later := Nat.eq_or_lt_of_le from_start
    · exact missed finds
    · exact behind seg later finds
  | some hit =>
    obtain ⟨seg, later, finds, found, none_lower⟩ := behind
    refine ⟨seg, Nat.le_of_succ_le later, finds, found, fun lower from_start less others => ?_⟩
    obtain rfl | behind_start := Nat.eq_or_lt_of_le from_start
    · exact missed others
    · exact none_lower lower behind_start less others

/-- The loop answers with the first segment that it finds a symbol of. -/
theorem lookupSegments_answer (loaded : map.loaded = true) (left start : Nat)
    (all : left + start = segmentSlots) (positive : 1 ≤ start) :
    AnswerOf map linear segmentBases numSegments start
      (lookupSegments map linear segmentBases numSegments left start) := by
  induction left generalizing start with
  | zero =>
    intro seg from_start finds
    have below := finds.1.1.2.2.1
    omega
  | succ left ih =>
    have behind := ih (start + 1) (by omega) (Nat.le_add_left 1 start)
    rw [lookupSegments]
    by_cases inside : (start : Int) ≤ numSegments
    · rw [if_pos inside]
      dsimp only
      by_cases tested : segmentBases start ≠ 0 ∧ segmentBases start ≤ linear ∧
          linear < segmentBases start + 0x10000
      · rw [if_pos tested]
        have window := (window_test _ _).mp tested.2
        have segment : HasSegment segmentBases numSegments start :=
          ⟨positive, inside, by omega, tested.1⟩
        have same : (linear - segmentBases start).truncate 16 =
          offsetIn linear (segmentBases start) := rfl
        rw [same]
        cases found : symbolMapLookup map (BitVec.ofNat 16 start)
            (offsetIn linear (segmentBases start)) with
        | none =>
          have nothing := (symbolMapLookup_none_iff loaded _ _).mp found
          exact behind.behind fun finds => nothing finds.1.2.2
        | some hit =>
          have has : HasSymbol map.entries (BitVec.ofNat 16 start)
              (offsetIn linear (segmentBases start)) := by
            by_contra nothing
            rw [(symbolMapLookup_none_iff loaded _ _).mpr nothing] at found
            cases found
          exact ⟨start, Nat.le_refl _, ⟨⟨segment, window.1, has⟩, window.2⟩, found,
            fun lower from_start less => absurd less (Nat.not_lt_of_le from_start)⟩
      · rw [if_neg tested]
        -- The test fails for a window that the address is not in, or that wraps around.
        refine behind.behind fun finds => tested ⟨finds.1.1.2.2.2, ?_⟩
        exact (window_test _ _).mpr ⟨finds.1.2.1, finds.2⟩
    · rw [if_neg inside]
      intro seg from_start finds
      have listed := finds.1.1.2.1
      omega

/-- What both lookups have to do: in a segment, and for a linear address. -/
structure SymbolsRight (map : SymbolMap) (linear : BitVec 32) (segmentBases : Nat → BitVec 32)
    (numSegments : Int) : Prop where
  near : ∀ segment offset,
    SymbolRight map.entries segment offset (symbolMapLookup map segment offset)
  linear : LinearRight map linear segmentBases numSegments
    (symbolMapLookupLinear map linear segmentBases numSegments)

/-- The segment numbers of a table are told apart in 16 bits. -/
theorem segment_injective {seg other : Nat} (below : seg < segmentSlots)
    (other_below : other < segmentSlots)
    (same : BitVec.ofNat 16 seg = BitVec.ofNat 16 other) : seg = other := by
  have numbers := congrArg BitVec.toNat same
  rw [BitVec.toNat_ofNat, BitVec.toNat_ofNat] at numbers
  unfold segmentSlots at below other_below
  omega

/--
Both lookups are right exactly if the lowest segment that the address belongs to a symbol of does not
start in the last 64K of the address space.
-/
theorem symbols_right_iff (loaded : map.loaded = true) :
    SymbolsRight map linear segmentBases numSegments ↔
      ∀ seg, Lowest map linear segmentBases numSegments seg →
        (segmentBases seg).toNat < lastBase := by
  have answer : AnswerOf map linear segmentBases numSegments 1
      (symbolMapLookupLinear map linear segmentBases numSegments) := by
    rw [symbolMapLookupLinear, loaded, Bool.not_true, if_neg Bool.false_ne_true]
    exact lookupSegments_answer loaded _ _ rfl (Nat.le_refl 1)
  constructor
  · intro right seg lowest
    have linear_right := right.linear
    by_contra last
    cases found : symbolMapLookupLinear map linear segmentBases numSegments with
    | none =>
      rw [found] at linear_right
      exact linear_right seg lowest.1
    | some hit =>
      rw [found] at linear_right answer
      obtain ⟨chosen, _, finds, lookup, _⟩ := answer
      obtain ⟨low, is_lowest, entry, closest, _⟩ := linear_right
      -- There is one lowest segment.
      have same : low = seg := by
        obtain less | same | more := Nat.lt_trichotomy low seg
        · exact absurd is_lowest.1 (lowest.2 low less)
        · exact same
        · exact absurd lowest.1 (is_lowest.2 seg more)
      -- The entry that was found is of the segment that was chosen.
      have right_there := symbolMapLookup_right loaded (BitVec.ofNat 16 chosen)
        (offsetIn linear (segmentBases chosen))
      rw [lookup] at right_there
      obtain ⟨other, chosen_closest, _⟩ := right_there
      have entries_eq := closest.listed.symm.trans chosen_closest.listed
      have segments : BitVec.ofNat 16 chosen = BitVec.ofNat 16 low := by
        rw [← chosen_closest.below.1, ← closest.below.1, Option.some.inj entries_eq]
      have chosen_low := segment_injective finds.1.1.2.2.1 is_lowest.1.1.2.2.1 segments
      rw [chosen_low, same] at finds
      exact last finds.2
  · intro before_last
    refine ⟨fun segment offset => symbolMapLookup_right loaded segment offset, ?_⟩
    have finds_lowest : ∀ seg, Belongs map linear segmentBases numSegments seg →
        ∃ low ≤ seg, Lowest map linear segmentBases numSegments low := by
      intro seg
      induction seg using Nat.strongRecOn with
      | ind seg ih =>
        intro belongs
        by_cases lower : ∃ low < seg, Belongs map linear segmentBases numSegments low
        · obtain ⟨low, less, low_belongs⟩ := lower
          obtain ⟨lowest, upto, is_lowest⟩ := ih low less low_belongs
          exact ⟨lowest, Nat.le_trans upto (Nat.le_of_lt less), is_lowest⟩
        · exact ⟨seg, Nat.le_refl _, belongs, fun low less low_belongs =>
            lower ⟨low, less, low_belongs⟩⟩
    cases found : symbolMapLookupLinear map linear segmentBases numSegments with
    | none =>
      rw [found] at answer
      intro seg belongs
      obtain ⟨low, _, lowest⟩ := finds_lowest seg belongs
      exact answer low lowest.1.1.1 ⟨lowest.1, before_last low lowest⟩
    | some hit =>
      rw [found] at answer
      obtain ⟨chosen, _, finds, lookup, none_lower⟩ := answer
      obtain ⟨low, upto, lowest⟩ := finds_lowest chosen finds.1
      -- The lowest segment is one that the loop finds a symbol of.
      have same : low = chosen := by
        by_contra other
        have less := Nat.lt_of_le_of_ne upto other
        exact none_lower low lowest.1.1.1 less ⟨lowest.1, before_last low lowest⟩
      rw [same] at lowest
      have right_there := symbolMapLookup_right loaded (BitVec.ofNat 16 chosen)
        (offsetIn linear (segmentBases chosen))
      rw [lookup] at right_there
      exact ⟨chosen, lowest, right_there⟩

/-- A symbol of the last 64K that does not reach the end. -/
theorem below_the_end_found :
    SymbolsRight ⟨[⟨1, 0x10, [0x66]⟩], true⟩ 0xFFFE0012 (fun _ => 0xFFFE0000) 1 := by
  refine (symbols_right_iff rfl).mpr fun seg _ => ?_
  show (0xFFFE0000 : BitVec 32).toNat < lastBase
  decide

/-- A symbol of a segment that ends at 4 GB is not found. -/
theorem at_the_end_missed :
    symbolMapLookupLinear ⟨[⟨1, 0x10, [0x66]⟩], true⟩ 0xFFFF0012 (fun _ => 0xFFFF0000) 1 = none ∧
      ¬ SymbolsRight ⟨[⟨1, 0x10, [0x66]⟩], true⟩ 0xFFFF0012 (fun _ => 0xFFFF0000) 1 := by
  refine ⟨by decide, fun right => ?_⟩
  have nothing : symbolMapLookupLinear ⟨[⟨1, 0x10, [0x66]⟩], true⟩ 0xFFFF0012
    (fun _ => 0xFFFF0000) 1 = none := by decide
  have linear_right := right.linear
  rw [nothing] at linear_right
  refine linear_right 1 ⟨⟨by decide, by decide, by decide, by decide⟩, ⟨by decide, by decide⟩, ?_⟩
  exact ⟨⟨1, 0x10, [0x66]⟩, List.mem_singleton.mpr rfl, by decide⟩

end Linear

end TwoIne
