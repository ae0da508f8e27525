import TwoIne.Debugger.Breakpoints
import TwoIne.Lib.Runs

/-!
The breakpoints of the debugger leave no trace exactly as long as none is written over another one,
none is set by hand, and the debuggee stops at the one that it was sent to.
-/

namespace TwoIne

/-- The code of a debuggee; no page is at address zero. -/
structure Debuggee where
  code : CodeBytes
  null : code 0 = none

/-- The byte saved is the one that belongs there, and is no breakpoint itself. -/
def SavedRight (code : CodeBytes) (bp : Breakpoint) : Prop :=
  code bp.addr = some bp.saved_byte ∧ bp.saved_byte ≠ int3

/--
While no breakpoint is marked as active, a stopped debuggee has its own code, and what is saved for
an active one is right.
-/
structure Transparent (code : CodeBytes) (s : DebugSession) : Prop where
  bytes : s.phase = .idle ∨ s.phase = .finished → s.swStep.active = false →
    s.stepOver.active = false → s.memory = code
  swSaved : s.swStep.active = true → SavedRight code s.swStep
  overSaved : s.stepOver.active = true → SavedRight code s.stepOver

/-- The instruction pointer is moved only when the debuggee ran into the breakpoint there. -/
def MovedRight (moved : List MovedBack) : Prop :=
  ∀ move ∈ moved, move.after ≠ move.before → move.reason = .int3 move.addr

/-- The user gives commands between waits, and the debuggee stops or ends during one. -/
def DebugMay (s : DebugSession) : DebugEvent → Prop
  | .command _ => s.phase = .idle
  | _ => s.phase ≠ .idle ∧ s.phase ≠ .finished

section Conditions

variable (setup : DebugSetup)

/-- Where a command would set a breakpoint to stop at. -/
def plannedAddr (s : DebugSession) : DebugCommand → Option (BitVec 32)
  | .step =>
    if setup.stepsBySoftware then some (setup.calculateNextIP s.memory s.regs) else none
  | .stepOver =>
    match setup.disasm_instruction s.memory (setup.linearEip s.regs) with
    | none => none
    | some (isCall, size) =>
      if setup.frontEnd = .text ∧ size ≤ 0 then none
      else if isCall then
        some (setup.linearEip s.regs + BitVec.ofInt 32 (if size ≤ 0 then 1 else size))
      else if setup.stepsBySoftware then some (setup.calculateNextIP s.memory s.regs)
      else none
  | _ => none

/--
No breakpoint is set by hand where there is none, none where the code has one, and if a stop is taken
for one at a breakpoint, it is, or the debuggee is at that address anyway.
-/
def DebugSound (s : DebugSession) : DebugEvent → Prop
  | .command .breakpoint =>
    setup.frontEnd = .tui → ∀ byte, s.memory s.regs.eip = some byte → byte = int3
  | .command command =>
    ∀ addr, plannedAddr setup s command = some addr → s.memory addr ≠ some int3
  | .stopped reason regs =>
    setup.frontEnd = .tui ∨ reason.isTrap = true → ∀ bp ∈ [s.swStep, s.stepOver],
      bp.active = true → reason = .int3 bp.addr ∨ (setup.setBack bp.addr regs).eip = regs.eip
  | .gone => True

end Conditions

section Shapes

variable (code : CodeBytes)

/-- No breakpoint is set. -/
structure Unplanted (s : DebugSession) : Prop where
  memory : s.memory = code
  sw : s.swStep.active = false
  call : s.stepOver.active = false

/-- One breakpoint is set, and the byte in its place is saved. -/
structure PlantedAt (memory : CodeBytes) (bp : Breakpoint) : Prop where
  active : bp.active = true
  saved : SavedRight code bp
  memory : memory = Function.update code bp.addr (some int3)

/-- Which breakpoints are set, by what the debugger is in. -/
structure DebugInv (setup : DebugSetup) (s : DebugSession) : Prop where
  shape : Unplanted code s ∨
    (PlantedAt code s.memory s.swStep ∧ s.stepOver.active = false ∧
      (s.phase = .stepping ∨ (s.phase = .redelivered ∧ setup.frontEnd = .text) ∨
        s.phase = .steppingOver ∨ s.phase = .finished)) ∨
    (PlantedAt code s.memory s.stepOver ∧ s.swStep.active = false ∧
      (s.phase = .steppingOver ∨ s.phase = .finished))

variable {code} {setup : DebugSetup} {s : DebugSession} {bp : Breakpoint}

/-- What the debugger is in leaves no trace. -/
theorem DebugInv.transparent (inv : DebugInv code setup s) : Transparent code s := by
  rcases inv.shape with plain | ⟨planted, call, _⟩ | ⟨planted, sw, _⟩
  · exact ⟨fun _ _ _ => plain.memory, fun active => by simp [plain.sw] at active,
      fun active => by simp [plain.call] at active⟩
  · refine ⟨fun _ inactive => ?_, fun _ => planted.saved, fun active => by simp [call] at active⟩
    rw [planted.active] at inactive
    cases inactive
  · refine ⟨fun _ _ inactive => ?_, fun active => by simp [sw] at active, fun _ => planted.saved⟩
    rw [planted.active] at inactive
    cases inactive

/-- A breakpoint is set where a page is. -/
theorem plantBreakpoint_eq (memory : CodeBytes) (addr : BitVec 32) :
    plantBreakpoint memory addr = (memory addr).map fun byte =>
      (⟨byte, addr, true⟩, Function.update memory addr (some int3)) := by
  rw [plantBreakpoint]
  cases here : memory addr with
  | none => rfl
  | some byte => simp [ptraceWriteByte, here]

/-- Writing the saved byte back restores the code. -/
theorem PlantedAt.restore {memory : CodeBytes} (planted : PlantedAt code memory bp) :
    ptraceWriteByte memory bp.addr bp.saved_byte = some code := by
  rw [planted.memory, ptraceWriteByte, if_pos (by simp), Function.update_idem, ← planted.saved.1,
    Function.update_eq_self]

end Shapes

section Handlers

variable (setup : DebugSetup) (reason : StopReason) {code : CodeBytes} {s : DebugSession}

/-- Without a breakpoint for a single step there is nothing to take away. -/
theorem handleSoftwareStep_inactive (inactive : s.swStep.active = false) :
    handleSoftwareStepBreakpoint setup reason s = (s, []) := by
  rw [handleSoftwareStepBreakpoint, if_pos inactive]

/-- The breakpoint of a single step is taken away. -/
theorem handleSoftwareStep_planted (planted : PlantedAt code s.memory s.swStep) :
    handleSoftwareStepBreakpoint setup reason s =
      ({ s with
          memory := code
          regs := setup.setBack s.swStep.addr s.regs
          swStep := { s.swStep with active := false } },
        [⟨reason, s.swStep.addr, s.regs.eip, (setup.setBack s.swStep.addr s.regs).eip⟩]) := by
  rw [handleSoftwareStepBreakpoint, if_neg (by simp [planted.active]), planted.restore]

/-- Without a breakpoint behind a call there is nothing to take away. -/
theorem handleStepOver_inactive (inactive : s.stepOver.active = false) :
    handleStepOverBreakpoint setup reason s = (s, []) ∧ tuiHandleStepOver setup reason s = (s, []) ∧
      continuedStepOver setup reason s = (s, []) := by
  refine ⟨?_, ?_, ?_⟩
  · rw [handleStepOverBreakpoint, if_pos inactive]
  · rw [tuiHandleStepOver, if_neg (by simp [inactive])]
  · rw [continuedStepOver, if_neg (by simp [inactive])]

/-- The breakpoint behind a call is taken away, in the windows and in the terminal. -/
theorem handleStepOver_planted (null : code 0 = none) (planted : PlantedAt code s.memory s.stepOver) :
    let handled : DebugSession × List MovedBack :=
      ({ s with
          memory := code
          regs := setup.setBack s.stepOver.addr s.regs
          stepOver := { s.stepOver with active := false } },
        [⟨reason, s.stepOver.addr, s.regs.eip, (setup.setBack s.stepOver.addr s.regs).eip⟩])
    handleStepOverBreakpoint setup reason s = handled ∧ tuiHandleStepOver setup reason s = handled := by
  have nonzero : s.stepOver.addr ≠ 0 := by
    intro zero
    have saved := planted.saved.1
    rw [zero, null] at saved
    cases saved
  refine ⟨?_, ?_⟩
  · rw [handleStepOverBreakpoint, if_neg (by simp [planted.active]), planted.restore]
  · rw [tuiHandleStepOver, if_pos ⟨planted.active, nonzero⟩, planted.restore]
    rfl

end Handlers

section Commands

variable {setup : DebugSetup} {code : CodeBytes} {s t : DebugSession} {command : DebugCommand}

/-- A command that sets no breakpoint, because it needs none or no page is there. -/
structure SetsNone (setup : DebugSetup) (s : DebugSession) (command : DebugCommand)
    (t : DebugSession) : Prop where
  memory : t.memory = s.memory
  sw : t.swStep = s.swStep
  call : t.stepOver = s.stepOver
  absent : ∀ addr, plannedAddr setup s command = some addr → s.memory addr = none

/-- A command that sets a breakpoint where it was planned. -/
structure SetsOne (setup : DebugSetup) (s : DebugSession) (command : DebugCommand)
    (t : DebugSession) (addr : BitVec 32) (byte : UInt8) : Prop where
  planned : plannedAddr setup s command = some addr
  here : s.memory addr = some byte
  memory : t.memory = Function.update s.memory addr (some int3)
  which : (t.swStep = ⟨byte, addr, true⟩ ∧ t.stepOver = s.stepOver ∧
      (t.phase = .stepping ∨ t.phase = .steppingOver)) ∨
    (t.stepOver = ⟨byte, addr, true⟩ ∧ t.swStep = s.swStep ∧ t.phase = .steppingOver)

/-- What a step by software does. -/
theorem doSoftwareStep_eq (setup : DebugSetup) (s : DebugSession) :
    doSoftwareStep setup s = (s.memory (setup.calculateNextIP s.memory s.regs)).map fun byte =>
      { s with
        swStep := ⟨byte, setup.calculateNextIP s.memory s.regs, true⟩
        memory := Function.update s.memory (setup.calculateNextIP s.memory s.regs) (some int3) } := by
  rw [doSoftwareStep, plantBreakpoint_eq, Option.map_map]
  rfl

/-- What stepping over a call does. -/
theorem stepOverCall_eq (setup : DebugSetup) (s : DebugSession) (size : Int) :
    stepOverCall setup s size =
      (s.memory (setup.linearEip s.regs + BitVec.ofInt 32 size)).map fun byte =>
        { s with
          stepOver := ⟨byte, setup.linearEip s.regs + BitVec.ofInt 32 size, true⟩
          memory := Function.update s.memory (setup.linearEip s.regs + BitVec.ofInt 32 size)
            (some int3) } := by
  rw [stepOverCall, plantBreakpoint_eq, Option.map_map]
  rfl

/-- What the command for a single step does, which other commands may do instead. -/
theorem doStep_sets (planned : plannedAddr setup s command = plannedAddr setup s .step) :
    SetsNone setup s command (doStep setup s) ∨
      ∃ addr byte, SetsOne setup s command (doStep setup s) addr byte := by
  rw [doStep]
  by_cases software : setup.stepsBySoftware = true
  · rw [plannedAddr, if_pos software] at planned
    rw [if_pos software, doSoftwareStep_eq]
    cases here : s.memory (setup.calculateNextIP s.memory s.regs) with
    | none =>
      -- The debugger stays as it is, or gives up.
      refine .inl ⟨?_, ?_, ?_, fun addr same => ?_⟩
      · simp only [Option.map_none]
        split <;> rfl
      · simp only [Option.map_none]
        split <;> rfl
      · simp only [Option.map_none]
        split <;> rfl
      · cases planned.symm.trans same
        exact here
    | some byte => exact .inr ⟨_, byte, planned, here, rfl, .inl ⟨rfl, rfl, .inl rfl⟩⟩
  · rw [plannedAddr, if_neg software] at planned
    rw [if_neg software]
    refine .inl ⟨rfl, rfl, rfl, fun addr same => ?_⟩
    rw [planned] at same
    cases same

/-- What the command to step over a call does in the terminal. -/
theorem textStepOver_sets (text : setup.frontEnd = .text) :
    SetsNone setup s .stepOver (textStepOver setup s) ∨
      ∃ addr byte, SetsOne setup s .stepOver (textStepOver setup s) addr byte := by
  rw [textStepOver]
  cases read : setup.disasm_instruction s.memory (setup.linearEip s.regs) with
  | none => exact .inl ⟨rfl, rfl, rfl, fun addr same => by simp [plannedAddr, read] at same⟩
  | some answer =>
    obtain ⟨isCall, size⟩ := answer
    by_cases empty : size ≤ 0
    · refine .inl ⟨?_, ?_, ?_, fun addr same => ?_⟩
      · simp [empty]
      · simp [empty]
      · simp [empty]
      · simp [plannedAddr, read, text, empty] at same
    · cases isCall with
      | true =>
        have planned : plannedAddr setup s .stepOver =
            some (setup.linearEip s.regs + BitVec.ofInt 32 size) := by
          simp [plannedAddr, read, empty]
        simp only [if_neg empty, if_true, stepOverCall_eq]
        cases here : s.memory (setup.linearEip s.regs + BitVec.ofInt 32 size) with
        | none =>
          refine .inl ⟨rfl, rfl, rfl, fun addr same => ?_⟩
          cases planned.symm.trans same
          exact here
        | some byte => exact .inr ⟨_, byte, planned, here, rfl, .inr ⟨rfl, rfl, rfl⟩⟩
      | false =>
        simp only [if_neg empty, Bool.false_eq_true, if_false]
        by_cases software : setup.stepsBySoftware = true
        · have planned : plannedAddr setup s .stepOver =
              some (setup.calculateNextIP s.memory s.regs) := by
            simp [plannedAddr, read, empty, software]
          simp only [if_pos software, doSoftwareStep_eq]
          cases here : s.memory (setup.calculateNextIP s.memory s.regs) with
          | none =>
            refine .inl ⟨rfl, rfl, rfl, fun addr same => ?_⟩
            cases planned.symm.trans same
            exact here
          | some byte => exact .inr ⟨_, byte, planned, here, rfl, .inl ⟨rfl, rfl, .inr rfl⟩⟩
        · simp only [if_neg software]
          refine .inl ⟨rfl, rfl, rfl, fun addr same => ?_⟩
          simp [plannedAddr, read, empty, software] at same

/-- What the command to step over a call does in the windows. -/
theorem tuiStepOver_sets (tui : setup.frontEnd = .tui) :
    SetsNone setup s .stepOver (tuiStepOver setup s) ∨
      ∃ addr byte, SetsOne setup s .stepOver (tuiStepOver setup s) addr byte := by
  rw [tuiStepOver]
  cases read : setup.disasm_instruction s.memory (setup.linearEip s.regs) with
  | none => exact .inl ⟨rfl, rfl, rfl, fun addr same => by simp [plannedAddr, read] at same⟩
  | some answer =>
    obtain ⟨isCall, size⟩ := answer
    cases isCall with
    | true =>
      have planned : plannedAddr setup s .stepOver =
          some (setup.linearEip s.regs + BitVec.ofInt 32 (if size ≤ 0 then 1 else size)) := by
        simp [plannedAddr, read, tui]
      simp only [if_true, stepOverCall_eq]
      cases here :
          s.memory (setup.linearEip s.regs + BitVec.ofInt 32 (if size ≤ 0 then 1 else size)) with
      | none =>
        refine .inl ⟨rfl, rfl, rfl, fun addr same => ?_⟩
        cases planned.symm.trans same
        exact here
      | some byte => exact .inr ⟨_, byte, planned, here, rfl, .inr ⟨rfl, rfl, rfl⟩⟩
    | false =>
      -- Any other instruction is stepped over like a single step.
      simp only [Bool.false_eq_true, if_false]
      exact doStep_sets (by simp [plannedAddr, read, tui])

/-- What a command does, but for setting a breakpoint by hand. -/
theorem runCommand_sets (setup : DebugSetup) (s : DebugSession) (by_hand : command ≠ .breakpoint) :
    SetsNone setup s command (runCommand setup s command) ∨
      ∃ addr byte, SetsOne setup s command (runCommand setup s command) addr byte := by
  cases command with
  | step => exact doStep_sets rfl
  | stepOver =>
    rw [runCommand]
    cases front : setup.frontEnd with
    | text => exact textStepOver_sets front
    | tui => exact tuiStepOver_sets front
  | cont => exact .inl ⟨rfl, rfl, rfl, fun addr same => by cases same⟩
  | breakpoint => exact absurd rfl by_hand

/-- A command is transparent exactly if it does not plan a breakpoint where the code has one. -/
theorem runCommand_exact (setup : DebugSetup) (plain : Unplanted code s) (by_hand : command ≠ .breakpoint) :
    (Transparent code (runCommand setup s command) ↔
        ∀ addr, plannedAddr setup s command = some addr → s.memory addr ≠ some int3) ∧
      (Transparent code (runCommand setup s command) → DebugInv code setup (runCommand setup s command)) := by
  rcases runCommand_sets setup s by_hand with sets | ⟨addr, byte, sets⟩
  · have inv : DebugInv code setup (runCommand setup s command) :=
      ⟨.inl ⟨sets.memory.trans plain.memory, sets.sw ▸ plain.sw, sets.call ▸ plain.call⟩⟩
    refine ⟨iff_of_true inv.transparent fun addr planned => ?_, fun _ => inv⟩
    rw [sets.absent addr planned]
    simp
  · have here : code addr = some byte := plain.memory ▸ sets.here
    have memory : (runCommand setup s command).memory = Function.update code addr (some int3) :=
      plain.memory ▸ sets.memory
    have inv : byte ≠ int3 → DebugInv code setup (runCommand setup s command) := by
      intro other
      rcases sets.which with ⟨sw, call, phase⟩ | ⟨call, sw, phase⟩
      · refine ⟨.inr (.inl ⟨⟨by rw [sw], by rw [sw]; exact ⟨here, other⟩, by rw [memory, sw]⟩, ?_, ?_⟩)⟩
        · rw [call, plain.call]
        · rcases phase with phase | phase <;> simp [phase]
      · refine ⟨.inr (.inr ⟨⟨by rw [call], by rw [call]; exact ⟨here, other⟩, by rw [memory, call]⟩,
          ?_, .inl phase⟩)⟩
        rw [sw, plain.sw]
    have told : Transparent code (runCommand setup s command) → byte ≠ int3 := by
      intro clear
      -- The byte is the one that was saved.
      rcases sets.which with ⟨sw, _, _⟩ | ⟨call, _, _⟩
      · have saved := clear.swSaved (by rw [sw])
        rw [sw] at saved
        exact saved.2
      · have saved := clear.overSaved (by rw [call])
        rw [call] at saved
        exact saved.2
    refine ⟨⟨fun clear other planned => ?_, fun sound => (inv ?_).transparent⟩, fun clear => inv (told clear)⟩
    · cases sets.planned.symm.trans planned
      rw [sets.here]
      exact fun same => told clear (Option.some.inj same)
    · intro same
      exact sound addr sets.planned (by rw [sets.here, same])

/-- Setting a breakpoint by hand leaves a trace, unless there is one or no page is there. -/
theorem doBreakpoint_exact (setup : DebugSetup) (plain : Unplanted code s) (idle : s.phase = .idle) :
    (Transparent code (doBreakpoint s) ↔ ∀ byte, s.memory s.regs.eip = some byte → byte = int3) ∧
      (Transparent code (doBreakpoint s) → DebugInv code setup (doBreakpoint s)) := by
  have unmarked : Transparent code (doBreakpoint s) → Unplanted code (doBreakpoint s) := fun clear =>
    ⟨clear.bytes (.inl idle) plain.sw plain.call, plain.sw, plain.call⟩
  have inv : Transparent code (doBreakpoint s) → DebugInv code setup (doBreakpoint s) := fun clear =>
    ⟨.inl (unmarked clear)⟩
  refine ⟨⟨fun clear byte here => ?_, fun same => ?_⟩, inv⟩
  · -- The byte that was there is still there, although the breakpoint was written.
    have written : (doBreakpoint s).memory = Function.update s.memory s.regs.eip (some int3) := by
      simp [doBreakpoint, ptraceWriteByte, here]
    have kept := congrFun ((unmarked clear).memory.trans plain.memory.symm) s.regs.eip
    rw [written, Function.update_self, here] at kept
    exact (Option.some.inj kept).symm
  · have kept : (doBreakpoint s).memory = s.memory := by
      cases here : s.memory s.regs.eip with
      | none => simp [doBreakpoint, ptraceWriteByte, here]
      | some byte =>
        have written : (doBreakpoint s).memory =
            Function.update s.memory s.regs.eip (some int3) := by
          simp [doBreakpoint, ptraceWriteByte, here]
        rw [same byte here] at here
        rw [written, ← here, Function.update_eq_self]
    have after : DebugInv code setup (doBreakpoint s) := ⟨.inl ⟨kept.trans plain.memory, plain.sw, plain.call⟩⟩
    exact after.transparent

end Commands

section Stops

variable (setup : DebugSetup) (reason : StopReason) (regs : UserRegs) {code : CodeBytes}
  {s : DebugSession}

/-- Handlers with nothing to take away. -/
theorem handleBoth_inactive (sw : s.swStep.active = false) (call : s.stepOver.active = false) :
    handleBoth setup reason s = (s, []) := by
  have first := handleStepOver_inactive setup reason call
  have second : handleSoftwareStepBreakpoint setup reason s = (s, []) :=
    handleSoftwareStep_inactive setup reason sw
  cases front : setup.frontEnd with
  | text => simp [handleBoth, andThen, front, first.1, second]
  | tui => simp [handleBoth, andThen, front, first.2.1, second]

/-- Handlers that do nothing to the debuggee. -/
structure Untouched (s : DebugSession) (answer : DebugSession × List MovedBack) : Prop where
  memory : answer.1.memory = s.memory
  sw : answer.1.swStep = s.swStep
  call : answer.1.stepOver = s.stepOver
  moved : answer.2 = []

/-- Without a breakpoint a stop changes nothing but what the debugger is in. -/
theorem textStopped_plain (sw : s.swStep.active = false) (call : s.stepOver.active = false) :
    Untouched s (textStopped setup reason s) := by
  have sw_handled : handleSoftwareStepBreakpoint setup reason s = (s, []) :=
    handleSoftwareStep_inactive setup reason sw
  have both : handleBoth setup reason s = (s, []) := handleBoth_inactive setup reason sw call
  have continued : continuedStepOver setup reason s = (s, []) := (handleStepOver_inactive setup reason call).2.2
  -- In every wait the handlers do nothing, and only what the debugger is in may change.
  cases phase : s.phase <;>
    simp only [textStopped, phase, andThen, sw_handled, both, continued, List.append_nil] <;>
    repeat' split
  all_goals exact ⟨rfl, rfl, rfl, rfl⟩

/-- So it is in the windows. -/
theorem tuiStopped_plain (sw : s.swStep.active = false) (call : s.stepOver.active = false) :
    Untouched s (tuiStopped setup reason s) := by
  have sw_handled : handleSoftwareStepBreakpoint setup reason s = (s, []) :=
    handleSoftwareStep_inactive setup reason sw
  have both : handleBoth setup reason s = (s, []) := handleBoth_inactive setup reason sw call
  cases phase : s.phase <;> simp only [tuiStopped, phase, sw_handled, both] <;>
    exact ⟨rfl, rfl, rfl, rfl⟩

/-- The state after a breakpoint was taken away at a stop, with the move that was made. -/
structure TakenAway (setup : DebugSetup) (code : CodeBytes) (reason : StopReason)
    (s : DebugSession) (bp : Breakpoint) (answer : DebugSession × List MovedBack) : Prop where
  plain : Unplanted code answer.1
  moved : answer.2 = [⟨reason, bp.addr, s.regs.eip, (setup.setBack bp.addr s.regs).eip⟩]

/-- A stop that is not looked at leaves the breakpoint where it is. -/
structure LeftThere (s : DebugSession) (answer : DebugSession × List MovedBack) : Prop
    extends Untouched s answer where
  phase : answer.1.phase = s.phase ∨ answer.1.phase = .finished ∨
    (s.phase = .stepping ∧ answer.1.phase = .redelivered)

/-- A handler of a breakpoint of a single step takes it away. -/
theorem takenAway_swStep (planted : PlantedAt code s.memory s.swStep)
    (call : s.stepOver.active = false) :
    TakenAway setup code reason s s.swStep (toIdle (handleSoftwareStepBreakpoint setup reason s)) := by
  rw [handleSoftwareStep_planted setup reason planted]
  exact ⟨⟨rfl, rfl, call⟩, rfl⟩

/-- So do the handlers of both. -/
theorem handleBoth_swStep (call : s.stepOver.active = false) :
    handleBoth setup reason s = handleSoftwareStepBreakpoint setup reason s := by
  have first := handleStepOver_inactive setup reason call
  cases front : setup.frontEnd with
  | text => simp [handleBoth, andThen, front, first.1]
  | tui => simp [handleBoth, andThen, front, first.2.1]

/-- The handlers of both take a breakpoint behind a call away. -/
theorem takenAway_stepOver (null : code 0 = none) (planted : PlantedAt code s.memory s.stepOver)
    (sw : s.swStep.active = false) :
    TakenAway setup code reason s s.stepOver (toIdle (handleBoth setup reason s)) := by
  have first := handleStepOver_planted setup reason null planted
  have second := handleSoftwareStep_inactive setup reason (s := { s with
    memory := code
    regs := setup.setBack s.stepOver.addr s.regs
    stepOver := { s.stepOver with active := false } }) sw
  have handled : handleBoth setup reason s = ({ s with
      memory := code
      regs := setup.setBack s.stepOver.addr s.regs
      stepOver := { s.stepOver with active := false } },
      [⟨reason, s.stepOver.addr, s.regs.eip, (setup.setBack s.stepOver.addr s.regs).eip⟩]) := by
    cases front : setup.frontEnd with
    | text => simp only [handleBoth, andThen, front, if_true, first.1, second, List.append_nil]
    | tui =>
      simp only [handleBoth, andThen, front, reduceCtorEq, if_false, first.2, second,
        List.append_nil]
  rw [handled]
  exact ⟨⟨rfl, sw, rfl⟩, rfl⟩

/-- A stop that is looked at takes the breakpoint of a single step away. -/
theorem stopped_swStep (planted : PlantedAt code s.memory s.swStep)
    (call : s.stepOver.active = false)
    (phase : s.phase = .stepping ∨ (s.phase = .redelivered ∧ setup.frontEnd = .text) ∨
      s.phase = .steppingOver) :
    (setup.frontEnd = .tui → TakenAway setup code reason s s.swStep (tuiStopped setup reason s)) ∧
      (setup.frontEnd = .text → reason.isTrap = true →
        TakenAway setup code reason s s.swStep (textStopped setup reason s)) := by
  have taken := takenAway_swStep setup reason planted call
  have both : handleBoth setup reason s = handleSoftwareStepBreakpoint setup reason s :=
    handleBoth_swStep setup reason call
  constructor
  · intro tui
    rcases phase with phase | ⟨_, text⟩ | phase
    · simpa only [tuiStopped, phase] using taken
    · rw [tui] at text
      cases text
    · simpa only [tuiStopped, phase, both] using taken
  · intro _ trap
    rcases phase with phase | ⟨phase, _⟩ | phase
    · simpa only [textStopped, phase, trap, if_true] using taken
    · simpa only [textStopped, phase, trap, if_true] using taken
    · simpa only [textStopped, phase, trap, if_true, both] using taken

/-- A stop that is looked at takes the breakpoint behind a call away. -/
theorem stopped_stepOver (null : code 0 = none) (planted : PlantedAt code s.memory s.stepOver)
    (sw : s.swStep.active = false) (phase : s.phase = .steppingOver) :
    TakenAway setup code reason s s.stepOver (tuiStopped setup reason s) ∧
      (reason.isTrap = true →
        TakenAway setup code reason s s.stepOver (textStopped setup reason s)) := by
  have taken := takenAway_stepOver setup reason null planted sw
  refine ⟨?_, fun trap => ?_⟩
  · simpa only [tuiStopped, phase] using taken
  · simpa only [textStopped, phase, trap, if_true] using taken

/-- A stop that is not looked at leaves everything as it is. -/
theorem textStopped_left (other : reason.isTrap = false)
    (phase : s.phase = .stepping ∨ s.phase = .redelivered ∨ s.phase = .steppingOver) :
    LeftThere s (textStopped setup reason s) := by
  rcases phase with phase | phase | phase
  · simp only [textStopped, phase, other, Bool.false_eq_true, if_false]
    exact ⟨⟨rfl, rfl, rfl, rfl⟩, .inr (.inr ⟨phase, rfl⟩)⟩
  · simp only [textStopped, phase, other, Bool.false_eq_true, if_false]
    exact ⟨⟨rfl, rfl, rfl, rfl⟩, .inr (.inl rfl)⟩
  · simp only [textStopped, phase, other, Bool.false_eq_true, if_false]
    split
    · exact ⟨⟨rfl, rfl, rfl, rfl⟩, .inr (.inl rfl)⟩
    · exact ⟨⟨rfl, rfl, rfl, rfl⟩, .inl rfl⟩

/-- One move is right if the debuggee ran into the breakpoint, or if it moved nothing. -/
theorem movedRight_single {addr before after : BitVec 32} :
    MovedRight [⟨reason, addr, before, after⟩] ↔ reason = .int3 addr ∨ after = before := by
  rw [MovedRight, List.forall_mem_singleton]
  constructor
  · intro right
    by_cases same : after = before
    · exact .inr same
    · exact .inl (right same)
  · rintro (hit | same) moved
    · exact hit
    · exact absurd same moved

/-- Without a move nothing is wrong. -/
theorem movedRight_nil : MovedRight [] := fun _ member => by cases member

/-- What a stop does with the one breakpoint that is set, or with none. -/
theorem runStopped_does (null : code 0 = none) (inv : DebugInv code setup s)
    (waits : s.phase ≠ .idle ∧ s.phase ≠ .finished) :
    let answer := runStopped setup reason regs s
    let looked := setup.frontEnd = .tui ∨ reason.isTrap = true
    (Untouched s answer ∧ DebugInv code setup answer.1 ∧
        (looked → s.swStep.active = false ∧ s.stepOver.active = false)) ∨
      (looked ∧ s.stepOver.active = false ∧ s.swStep.active = true ∧
        TakenAway setup code reason { s with regs } s.swStep answer) ∨
      (looked ∧ s.swStep.active = false ∧ s.stepOver.active = true ∧
        TakenAway setup code reason { s with regs } s.stepOver answer) := by
  intro answer looked
  have answer_eq : answer = if setup.frontEnd = .text then
      textStopped setup reason { s with regs } else tuiStopped setup reason { s with regs } := rfl
  rcases inv.shape with plain | ⟨planted, call, phase⟩ | ⟨planted, sw, phase⟩
  · have untouched : Untouched { s with regs } answer := by
      rw [answer_eq]
      split
      · exact textStopped_plain setup reason plain.sw plain.call
      · exact tuiStopped_plain setup reason plain.sw plain.call
    refine .inl ⟨⟨untouched.memory, untouched.sw, untouched.call, untouched.moved⟩, ⟨.inl ?_⟩,
      fun _ => ⟨plain.sw, plain.call⟩⟩
    exact ⟨untouched.memory.trans plain.memory, untouched.sw ▸ plain.sw, untouched.call ▸ plain.call⟩
  · have waiting : s.phase = .stepping ∨ (s.phase = .redelivered ∧ setup.frontEnd = .text) ∨
        s.phase = .steppingOver := by
      rcases phase with phase | phase | phase | phase
      · exact .inl phase
      · exact .inr (.inl phase)
      · exact .inr (.inr phase)
      · exact absurd phase waits.2
    have taken := stopped_swStep setup reason (s := { s with regs })
      planted call waiting
    cases front : setup.frontEnd with
    | tui =>
      refine .inr (.inl ⟨.inl front, call, planted.active, ?_⟩)
      rw [answer_eq, if_neg (by simp [front])]
      exact taken.1 front
    | text =>
      cases trap : reason.isTrap with
      | true =>
        refine .inr (.inl ⟨.inr trap, call, planted.active, ?_⟩)
        rw [answer_eq, if_pos front]
        exact taken.2 front trap
      | false =>
        -- The breakpoint stays until the next stop, and is still marked as active.
        have left : LeftThere { s with regs } answer := by
          rw [answer_eq, if_pos front]
          apply textStopped_left setup reason trap
          rcases waiting with phase | ⟨phase, _⟩ | phase
          · exact .inl phase
          · exact .inr (.inl phase)
          · exact .inr (.inr phase)
        refine .inl ⟨⟨left.memory, left.sw, left.call, left.moved⟩, ⟨.inr (.inl ⟨?_, ?_, ?_⟩)⟩, ?_⟩
        · rw [left.memory, left.sw]
          exact planted
        · rw [left.call]
          exact call
        · rcases left.phase with same | done | ⟨_, again⟩
          · rw [same]
            exact phase
          · exact .inr (.inr (.inr done))
          · exact .inr (.inl ⟨again, front⟩)
        · rintro (tui | trapped)
          · rw [front] at tui
            cases tui
          · rw [trap] at trapped
            cases trapped
  · have waiting : s.phase = .steppingOver := phase.resolve_right waits.2
    have taken := stopped_stepOver setup reason (s := { s with regs })
      null planted sw waiting
    cases front : setup.frontEnd with
    | tui =>
      refine .inr (.inr ⟨.inl front, sw, planted.active, ?_⟩)
      rw [answer_eq, if_neg (by simp [front])]
      exact taken.1
    | text =>
      cases trap : reason.isTrap with
      | true =>
        refine .inr (.inr ⟨.inr trap, sw, planted.active, ?_⟩)
        rw [answer_eq, if_pos front]
        exact taken.2 trap
      | false =>
        have left : LeftThere { s with regs } answer := by
          rw [answer_eq, if_pos front]
          exact textStopped_left setup reason trap (.inr (.inr waiting))
        refine .inl ⟨⟨left.memory, left.sw, left.call, left.moved⟩, ⟨.inr (.inr ⟨?_, ?_, ?_⟩)⟩, ?_⟩
        · rw [left.memory, left.call]
          exact planted
        · rw [left.sw]
          exact sw
        · rcases left.phase with same | done | ⟨other, _⟩
          · exact .inl (same.trans waiting)
          · exact .inr done
          · exact absurd (waiting.symm.trans other) (by decide)
        · rintro (tui | trapped)
          · rw [front] at tui
            cases tui
          · rw [trap] at trapped
            cases trapped

/-- A stop is right exactly if a breakpoint is taken away only where the debuggee is. -/
theorem runStopped_exact (null : code 0 = none) (inv : DebugInv code setup s)
    (waits : s.phase ≠ .idle ∧ s.phase ≠ .finished) :
    (MovedRight (runStopped setup reason regs s).2 ↔ DebugSound setup s (.stopped reason regs)) ∧
      DebugInv code setup (runStopped setup reason regs s).1 := by
  have after := runStopped_does setup reason regs null inv waits
  simp only [DebugSound, List.forall_mem_cons, List.not_mem_nil, false_implies, implies_true,
    and_true]
  rcases after with ⟨untouched, inv, inactive⟩ | ⟨looked, call, active, taken⟩ |
    ⟨looked, sw, active, taken⟩
  · refine ⟨iff_of_true (untouched.moved ▸ movedRight_nil) fun looked => ?_, inv⟩
    obtain ⟨sw, call⟩ := inactive looked
    simp [sw, call]
  · refine ⟨?_, ⟨.inl taken.plain⟩⟩
    rw [taken.moved, movedRight_single]
    simp [looked, call, active]
  · refine ⟨?_, ⟨.inl taken.plain⟩⟩
    rw [taken.moved, movedRight_single]
    simp [looked, sw, active]

end Stops

section Running

variable {setup : DebugSetup} {code : CodeBytes} {s : DebugSession}

/-- Between commands no breakpoint is set. -/
theorem DebugInv.plain (inv : DebugInv code setup s) (idle : s.phase = .idle) :
    Unplanted code s := by
  rcases inv.shape with plain | ⟨_, _, phase⟩ | ⟨_, _, phase⟩
  · exact plain
  · simp [idle] at phase
  · simp [idle] at phase

/-- One step is transparent exactly when it is sound. -/
theorem debugStep_exact (null : code 0 = none) (inv : DebugInv code setup s) {event : DebugEvent}
    (may : DebugMay s event) :
    ((∃ t moved, debugStep setup s event = some (t, moved) ∧ MovedRight moved ∧
        Transparent code t) ↔ DebugSound setup s event) ∧
      ∀ t moved, DebugSound setup s event → debugStep setup s event = some (t, moved) →
        DebugInv code setup t := by
  cases event with
  | command command =>
    have plain := inv.plain may
    have stepped : debugStep setup s (.command command) =
        some (runCommand setup s command, []) := if_pos may
    have exact_command : (Transparent code (runCommand setup s command) ↔
        DebugSound setup s (.command command)) ∧ (Transparent code (runCommand setup s command) →
          DebugInv code setup (runCommand setup s command)) := by
      by_cases by_hand : command = .breakpoint
      · subst by_hand
        cases front : setup.frontEnd with
        | text =>
          -- There is no such command in the terminal.
          have nothing : runCommand setup s .breakpoint = s := by simp [runCommand, front]
          rw [nothing]
          exact ⟨iff_of_true inv.transparent (by simp [DebugSound, front]), fun _ => inv⟩
        | tui =>
          have by_hand : runCommand setup s .breakpoint = doBreakpoint s := by
            simp [runCommand, front]
          rw [by_hand, DebugSound]
          simpa only [front, true_implies] using doBreakpoint_exact setup plain may
      · have sound := runCommand_exact setup plain by_hand
        cases command with
        | breakpoint => exact absurd rfl by_hand
        | _ => exact sound
    rw [stepped]
    constructor
    · rw [← exact_command.1]
      constructor
      · rintro ⟨t, moved, same, _, clear⟩
        cases same
        exact clear
      · exact fun clear => ⟨_, _, rfl, movedRight_nil, clear⟩
    · intro t moved sound same
      cases same
      exact exact_command.2 (exact_command.1.mpr sound)
  | stopped reason regs =>
    have stepped : debugStep setup s (.stopped reason regs) =
        some (runStopped setup reason regs s) := by
      rw [debugStep, if_neg (by simp [may.1, may.2])]
    obtain ⟨sound, after⟩ := runStopped_exact setup reason regs null inv may
    rw [stepped]
    constructor
    · rw [← sound]
      constructor
      · rintro ⟨t, moved, same, right, _⟩
        rw [Option.some.inj same]
        exact right
      · exact fun right => ⟨_, _, rfl, right, after.transparent⟩
    · intro t moved _ same
      rw [Option.some.injEq] at same
      rw [same] at after
      exact after
  | gone =>
    have stepped : debugStep setup s .gone = some ({ s with phase := .finished }, []) := by
      rw [debugStep, if_neg (by simp [may.1, may.2])]
    -- The breakpoints stay as they are.
    have after : DebugInv code setup { s with phase := .finished } := by
      rcases inv.shape with plain | ⟨planted, call, _⟩ | ⟨planted, sw, _⟩
      · exact ⟨.inl ⟨plain.memory, plain.sw, plain.call⟩⟩
      · exact ⟨.inr (.inl ⟨planted, call, .inr (.inr (.inr rfl))⟩)⟩
      · exact ⟨.inr (.inr ⟨planted, sw, .inr rfl⟩)⟩
    rw [stepped]
    constructor
    · exact iff_of_true ⟨_, _, rfl, movedRight_nil, after.transparent⟩ trivial
    · intro t moved _ same
      cases same
      exact after

end Running

/-- Continuing sets no breakpoint. -/
theorem debugSound_cont (setup : DebugSetup) (s : DebugSession) :
    DebugSound setup s (.command .cont) := fun addr planned => by cases planned

instance (s : DebugSession) (event : DebugEvent) : Decidable (DebugMay s event) := by
  cases event <;> unfold DebugMay <;> infer_instance

/-- Sixteen instructions of one byte each. -/
def plainDebuggee : Debuggee where
  code := fun addr => if 0x1000 ≤ addr ∧ addr < 0x1010 then some 0x90 else none
  null := rfl

/-- The debugger of a program of one segment with the base zero. -/
def plainSetup (frontEnd : FrontEnd) : DebugSetup where
  frontEnd := frontEnd
  is_lx_mode := false
  shared_state := some fun _ => some 0
  calculateNextIP := fun _ regs => regs.eip + 1
  disasm_instruction := fun _ _ => some (false, 1)

/-- A program that is stepped through by one instruction and runs to its end then. -/
def stepAndContinue : List DebugEvent :=
  [.command .step, .stopped (.int3 0x1001) ⟨0, 0x1002⟩, .command .cont, .gone]

end TwoIne
