import TwoIne.LxLoader.NeStartup

/-!
An NE module is started with the size of the segment behind its automatic data segment, and with a
stack that the header may put outside its segment.
-/

namespace TwoIne

section Stacks

variable {ne : NeStartHeader} {size : BitVec 16} {selector : Nat} {stack : NeStack}

/-- The stack fits its segment, by the fields of the header and the size of the data segment. -/
def StackFits (ne : NeStartHeader) (size : BitVec 16) : Prop :=
  if ne.reg_ss = ne.auto_data_segment ∧ ne.reg_sp = 0 then
    ne.stack_size = 0 ∨ size.toNat + ne.stack_size.toNat < 2 ^ 16
  else if ne.stack_size ≠ 0 then ne.stack_size ≤ ne.reg_sp
  else ne.reg_ss = ne.auto_data_segment → size ≤ ne.reg_sp

instance (ne : NeStartHeader) (size : BitVec 16) : Decidable (StackFits ne size) := by
  unfold StackFits
  infer_instance

/-- A stack is inside its segment, by its end that the loader tells and by its pointer. -/
structure StackInside (stack : NeStack) : Prop where
  told : stack.stacksize ≤ stack.topofstack
  pointed : stack.stacksize ≤ stack.sp

/-- A stack ends where its pointer is, or it ends at the start of the segment. -/
theorem stackInside_iff
    (pointer : stack.sp = if stack.topofstack ≠ 0 then stack.topofstack else 0xFFFF) :
    StackInside stack ↔ stack.stacksize ≤ stack.topofstack := by
  refine ⟨StackInside.told, fun told => ⟨told, ?_⟩⟩
  rw [pointer]
  split
  · exact told
  · exact BitVec.le_def.mpr (Nat.le_of_lt_succ stack.stacksize.isLt)

/-- The stack is inside its segment exactly if the header says so. -/
theorem neStack_inside_iff (setUp : neStack ne (some size) selector = some stack) :
    StackInside stack ↔ StackFits ne size := by
  unfold neStack at setUp
  dsimp only at setUp
  rw [if_neg fun all => Option.some_ne_none size all.2.2] at setUp
  cases setUp
  refine (stackInside_iff rfl).trans ?_
  show neStackSize ne size (neStackTop ne size) ≤ neStackTop ne size ↔ _
  have top_small := (neStackTop ne size).isLt
  unfold StackFits
  by_cases default : ne.reg_ss = ne.auto_data_segment ∧ ne.reg_sp = 0
  · rw [if_pos default]
    have top : neStackTop ne size = size + ne.stack_size := if_pos default
    have size_small := size.isLt
    have given_small := ne.stack_size.isLt
    rw [top]
    by_cases given : ne.stack_size = 0
    · -- Only the data segment is below the end of the stack.
      refine iff_of_true ?_ (.inl given)
      have sum : size + ne.stack_size = size := by
        rw [given]
        exact BitVec.add_zero size
      unfold neStackSize
      rw [if_neg (not_not_intro given), sum]
      split
      · rw [BitVec.sub_self]
        exact BitVec.le_def.mpr (Nat.zero_le _)
      · exact BitVec.le_refl size
    · have stacksize : neStackSize ne size (size + ne.stack_size) = ne.stack_size := if_pos given
      have some_given : ne.stack_size.toNat ≠ 0 := fun none_given =>
        given (BitVec.eq_of_toNat_eq none_given)
      rw [stacksize, BitVec.le_def, BitVec.toNat_add]
      -- A sum that wraps is below both of its parts.
      constructor
      · intro fits
        right
        omega
      · rintro (none_given | fits)
        · exact absurd none_given given
        · omega
  · rw [if_neg default]
    have top : neStackTop ne size = ne.reg_sp := if_neg default
    rw [top]
    by_cases given : ne.stack_size = 0
    · rw [if_neg (not_not_intro given)]
      unfold neStackSize
      rw [if_neg (not_not_intro given)]
      by_cases own : ne.reg_ss = ne.auto_data_segment
      · have some_place : ne.reg_sp ≠ 0 := fun none_given => default ⟨own, none_given⟩
        have size_small := size.isLt
        rw [if_pos ⟨some_place, own⟩, BitVec.le_def, BitVec.toNat_sub, BitVec.le_def]
        constructor
        · intro fits _
          omega
        · intro fits
          have enough := fits own
          omega
      · rw [if_neg fun both => own both.2]
        exact iff_of_true (BitVec.le_refl _) fun same => absurd same own
    · have stacksize : neStackSize ne size ne.reg_sp = ne.stack_size := if_pos given
      rw [stacksize, if_pos given]

end Stacks

section Starts

variable {exe : List UInt8} {ne : NeStartHeader} {aliases : List Nat} {start : NeStart}

/--
A program is started with what the entry of its automatic data segment says: the size in CX, the
selector in DS, and a stack that is within its segment.
-/
structure ProgramRight (ne : NeStartHeader) (aliases : List Nat) (size : BitVec 16)
    (stack : NeStack) : Prop where
  derived : ∃ selector, aliases[ne.reg_ss.toNat - 1]? = some selector ∧
    neStack ne (some size) selector = some stack
  inside : StackInside stack
  registers : ∃ selector regs, aliases[ne.auto_data_segment.toNat - 1]? = some selector ∧
    runNeModule ne aliases size stack = .ok regs ∧ regs.cx = size ∧
      regs.ds = lxSelectorToSegment selector

/--
The entry that is read is in the table, and the size of the automatic data segment and the start of
a program are those of the entry with its number, which counts from one.
-/
structure StartsRight (exe : List UInt8) (ne : NeStartHeader) (aliases : List Nat)
    (start : NeStart) : Prop where
  inside : ∀ i, start.autodataindex = some i → i < ne.num_segment_table_entries.toNat
  derived : readSegmentSize exe ne.toNeHeader (ne.auto_data_segment.toNat - 1) =
    .ok start.autodatasize
  program : ∀ stack, start.stack = some stack →
    ProgramRight ne aliases start.autodatasize stack

/--
The automatic data segment is not the last one of the table, the one behind it has the same size,
and the stack of a program fits its segment.
-/
def NextEntrySame (exe : List UInt8) (ne : NeStartHeader) : Prop :=
  ne.auto_data_segment < ne.num_segment_table_entries ∧
    ∃ size, readSegmentSize exe ne.toNeHeader (ne.auto_data_segment.toNat - 1) = .ok size ∧
      readSegmentSize exe ne.toNeHeader ne.auto_data_segment.toNat = .ok size ∧
      (ne.isDLL = false → StackFits ne size)

/-- What the loader does with a module that it takes: the entry behind is read. -/
theorem loadNeStart_some (used : ne.auto_data_segment ≠ 0)
    (accepted : loadNeStart exe ne aliases = .ok (some start)) :
    start.autodataindex = some ne.auto_data_segment.toNat ∧
      readSegmentSize exe ne.toNeHeader ne.auto_data_segment.toNat = .ok start.autodatasize ∧
      (ne.isDLL = true ∧ start.stack = none ∨
        ne.isDLL = false ∧ ∃ selector stack, aliases[ne.reg_ss.toNat - 1]? = some selector ∧
          neStack ne (some start.autodatasize) selector = some stack ∧
          start.stack = some stack) := by
  unfold loadNeStart at accepted
  rw [if_pos used] at accepted
  by_cases bogus : ne.reg_ss = 0 ∨ ne.num_segment_table_entries < ne.reg_ss
  · rw [if_pos bogus] at accepted
    cases accepted
  · rw [if_neg bogus] at accepted
    cases read : readSegmentSize exe ne.toNeHeader ne.auto_data_segment.toNat with
    | error fault =>
      simp only [read, Except.map, bind, Except.bind] at accepted
      cases accepted
    | ok size =>
      cases table : loadNeSegments exe ne.toNeHeader with
      | error fault =>
        simp only [read, table, Except.map, bind, Except.bind] at accepted
        cases accepted
      | ok segments =>
        simp only [read, table, Except.map, bind, Except.bind, Option.getD_some] at accepted
        cases library : ne.isDLL with
        | true =>
          rw [library] at accepted
          cases accepted
          exact ⟨rfl, rfl, .inl ⟨rfl, rfl⟩⟩
        | false =>
          rw [library] at accepted
          cases mapped : aliases[ne.reg_ss.toNat - 1]? with
          | none =>
            simp only [mapped, Bool.false_eq_true, if_false] at accepted
            cases accepted
          | some selector =>
            simp only [mapped, Bool.false_eq_true, if_false] at accepted
            cases set_up : neStack ne (some size) selector with
            | none =>
              rw [set_up] at accepted
              cases accepted
            | some stack =>
              rw [set_up] at accepted
              cases accepted
              exact ⟨rfl, rfl, .inr ⟨rfl, selector, stack, rfl, set_up, rfl⟩⟩

/-- A module is started right exactly if the entry behind says the same, and the stack fits. -/
theorem ne_starts_right_iff (used : ne.auto_data_segment ≠ 0)
    (mapped : aliases.length = ne.num_segment_table_entries.toNat)
    (accepted : loadNeStart exe ne aliases = .ok (some start)) :
    StartsRight exe ne aliases start ↔ NextEntrySame exe ne := by
  obtain ⟨index, read, library | program⟩ := loadNeStart_some used accepted
  · obtain ⟨library, no_stack⟩ := library
    constructor
    · intro right
      exact ⟨BitVec.lt_def.mpr (right.inside _ index), start.autodatasize, right.derived, read,
        fun program => absurd (library.symm.trans program) (by decide)⟩
    · rintro ⟨inside, size, right, wrong, -⟩
      cases read.symm.trans wrong
      refine ⟨fun i same => ?_, right, fun stack there => ?_⟩
      · cases index.symm.trans same
        exact BitVec.lt_def.mp inside
      · cases no_stack.symm.trans there
  · obtain ⟨program, selector, stack, alias_there, set_up, stack_there⟩ := program
    constructor
    · intro right
      refine ⟨BitVec.lt_def.mpr (right.inside _ index), start.autodatasize, right.derived, read,
        fun _ => ?_⟩
      exact (neStack_inside_iff set_up).mp (right.program stack stack_there).inside
    · rintro ⟨inside, size, right, wrong, fits⟩
      cases read.symm.trans wrong
      refine ⟨fun i same => ?_, right, fun other there => ?_⟩
      · cases index.symm.trans same
        exact BitVec.lt_def.mp inside
      · cases stack_there.symm.trans there
        refine ⟨⟨selector, alias_there, set_up⟩, (neStack_inside_iff set_up).mpr (fits program), ?_⟩
        -- The selector in DS is the one of the right segment.
        have within : ne.auto_data_segment.toNat - 1 < aliases.length := by
          have before := BitVec.lt_def.mp inside
          omega
        refine ⟨aliases[ne.auto_data_segment.toNat - 1],
          ⟨stack.ss, stack.sp - 12,
            lxSelectorToSegment aliases[ne.auto_data_segment.toNat - 1], start.autodatasize,
            stack.sp - stack.stacksize⟩,
          List.getElem?_eq_getElem within, ?_, rfl, rfl⟩
        unfold runNeModule
        dsimp only
        rw [if_pos used, List.getElem?_eq_getElem within]
        rfl

end Starts

/-- A header for a program of two segments whose data and stack are in the first one. -/
def twoSegments : NeStartHeader where
  num_segment_table_entries := 2
  segment_table_offset := 0
  non_resident_name_table_offset := 0
  non_resident_name_table_size := 0
  sector_alignment_shift_count := 0
  module_flags := 0
  auto_data_segment := 1
  stack_size := 0x800
  reg_sp := 0
  reg_ss := 1

/-- The table of two segments of some sizes, by the high bytes of these. -/
def twoEntries (first second : UInt8) : List UInt8 :=
  [0, 0, 0, first, 1, 0, 0, 0, 0, 0, 0, second, 1, 0, 0, 0]

/-- How the program is started if a size is taken for that of its data. -/
def startWith (size : BitVec 16) : NeStart where
  autodataindex := some 1
  autodatasize := size
  stack := some ⟨0x2F, size + 0x800, size + 0x800, 0x800⟩

/-- With two segments of the same size the program is started right. -/
theorem same_sizes_right :
    StartsRight (twoEntries 0x10 0x10) twoSegments [5, 6] (startWith 0x1000) :=
  (ne_starts_right_iff (by decide) rfl rfl).mpr ⟨by decide, 0x1000, rfl, rfl, by decide⟩

/-- With 0x1000 bytes of data and a segment of 0x2000 behind them the program is told 0x2000. -/
theorem next_size_taken :
    loadNeStart (twoEntries 0x10 0x20) twoSegments [5, 6] = .ok (some (startWith 0x2000)) ∧
      ¬ StartsRight (twoEntries 0x10 0x20) twoSegments [5, 6] (startWith 0x2000) := by
  refine ⟨rfl, fun right => ?_⟩
  have size : readSegmentSize (twoEntries 0x10 0x20) twoSegments.toNeHeader 0 = .ok 0x1000 := rfl
  exact absurd (Except.ok.inj (size.symm.trans right.derived)) (by decide)

end TwoIne
