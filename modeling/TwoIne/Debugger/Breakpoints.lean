import Mathlib.Logic.Function.Basic

/-! Stepping through a debuggee, and the breakpoints that the debugger writes into its code for that. -/

namespace TwoIne

/-- The registers of the debuggee that say where it is. -/
structure UserRegs where
  cs : BitVec 16
  eip : BitVec 32
  deriving DecidableEq, Repr

/-- The bytes at linear addresses, as far as pages are mapped there. -/
abbrev CodeBytes := BitVec 32 → Option UInt8

/-- The instruction that stops the debuggee. -/
def int3 : UInt8 := 0xCC

/-- Writing a byte, unless no page is there. -/
def ptraceWriteByte (memory : CodeBytes) (addr : BitVec 32) (byte : UInt8) : Option CodeBytes :=
  if (memory addr).isSome then some (Function.update memory addr (some byte)) else none

/-- What tells the user interfaces apart: commands in a terminal, or menus and windows. -/
inductive FrontEnd where
  | text
  | tui
  deriving DecidableEq, Repr

/-- What the debugger works with, besides the debuggee itself. -/
structure DebugSetup where
  frontEnd : FrontEnd
  is_lx_mode : Bool
  /-- The base of a selector by the state shared with the loader, if there is such a state. -/
  shared_state : Option (BitVec 16 → Option (BitVec 32))
  /-- The address of the next instruction, by the bytes of the one that the debuggee is at. -/
  calculateNextIP : CodeBytes → UserRegs → BitVec 32
  /-- Whether the bytes at an address are a call, and their size; nothing if some are not there. -/
  disasm_instruction : CodeBytes → BitVec 32 → Option (Bool × Int)

/-- A breakpoint for one stop, with the byte in its place. -/
structure Breakpoint where
  saved_byte : UInt8 := 0
  addr : BitVec 32 := 0
  active : Bool := false
  deriving DecidableEq, Repr

/-- What the debugger is in: between commands, or in one of its waits for the debuggee. -/
inductive DebugPhase where
  | idle
  | continuing
  | delivered
  | stepping
  | redelivered
  | hardStepping
  | steppingOver
  | finished
  deriving DecidableEq, Repr

/-- The debuggee and the breakpoints of the debugger. -/
structure DebugSession where
  memory : CodeBytes
  regs : UserRegs
  swStep : Breakpoint := {}
  stepOver : Breakpoint := {}
  phase : DebugPhase := .idle

/-- Why the debuggee stopped: at a breakpoint instruction, for another trap, or for a signal. -/
inductive StopReason where
  | int3 (addr : BitVec 32)
  | trap
  | segv
  | signal
  deriving DecidableEq, Repr

/-- Whether the signal of a stop is SIGTRAP. -/
def StopReason.isTrap : StopReason → Bool
  | .int3 _ => true
  | .trap => true
  | _ => false

/-- The instruction pointer was set to the address of a breakpoint. -/
structure MovedBack where
  reason : StopReason
  addr : BitVec 32
  before : BitVec 32
  after : BitVec 32
  deriving DecidableEq, Repr

/-- The linear address of the instruction that the debuggee is at. -/
def DebugSetup.linearEip (setup : DebugSetup) (regs : UserRegs) : BitVec 32 :=
  match setup.is_lx_mode, setup.shared_state with
  | false, some info =>
    match info regs.cs with
    | some base =>
      -- A linear address of zero counts as none.
      let linear := base + (regs.eip &&& 0xFFFF)
      if linear = 0 then regs.eip else linear
    | none => regs.eip
  | _, _ => regs.eip

/-- Setting the instruction pointer to a linear address. -/
def DebugSetup.setBack (setup : DebugSetup) (addr : BitVec 32) (regs : UserRegs) : UserRegs :=
  if setup.is_lx_mode then { regs with eip := addr }
  else
    match setup.shared_state with
    | none => { regs with eip := addr &&& 0xFFFF }
    | some info =>
      match info regs.cs with
      | some base => { regs with eip := addr - base }
      | none => { regs with eip := addr &&& 0xFFFF }

/-- The same within the command to continue, which takes no part of the address without a state. -/
def DebugSetup.setBackContinued (setup : DebugSetup) (addr : BitVec 32) (regs : UserRegs) :
    UserRegs :=
  match setup.is_lx_mode, setup.shared_state with
  | false, some info =>
    match info regs.cs with
    | some base => { regs with eip := addr - base }
    | none => { regs with eip := addr &&& 0xFFFF }
  | _, _ => { regs with eip := addr }

section Stepping

variable (setup : DebugSetup)

/-- Whether single steps are made with a breakpoint at the next instruction. -/
def DebugSetup.stepsBySoftware : Bool := !setup.is_lx_mode && setup.shared_state.isSome

/-- Saving the byte at an address and writing a breakpoint there; nothing if no page is there. -/
def plantBreakpoint (memory : CodeBytes) (addr : BitVec 32) : Option (Breakpoint × CodeBytes) :=
  match memory addr with
  | none => none
  | some byte =>
    (ptraceWriteByte memory addr int3).map fun memory => (⟨byte, addr, true⟩, memory)

/-- Going on to a breakpoint at the next instruction. -/
def doSoftwareStep (s : DebugSession) : Option DebugSession :=
  (plantBreakpoint s.memory (setup.calculateNextIP s.memory s.regs)).map fun planted =>
    { s with swStep := planted.1, memory := planted.2 }

/-- Taking the breakpoint of a single step away, and going back to its address. -/
def handleSoftwareStepBreakpoint (reason : StopReason) (s : DebugSession) :
    DebugSession × List MovedBack :=
  if s.swStep.active = false then (s, [])
  else
    match ptraceWriteByte s.memory s.swStep.addr s.swStep.saved_byte with
    | none => ({ s with swStep := { s.swStep with active := false } }, [])
    | some memory =>
      let regs := setup.setBack s.swStep.addr s.regs
      ({ s with memory, regs, swStep := { s.swStep with active := false } },
        [⟨reason, s.swStep.addr, s.regs.eip, regs.eip⟩])

/-- Taking the breakpoint behind a call away, and going back to its address. -/
def handleStepOverBreakpoint (reason : StopReason) (s : DebugSession) :
    DebugSession × List MovedBack :=
  if s.stepOver.active = false then (s, [])
  else
    match ptraceWriteByte s.memory s.stepOver.addr s.stepOver.saved_byte with
    | none => (s, [])
    | some memory =>
      let regs := setup.setBack s.stepOver.addr s.regs
      ({ s with memory, regs, stepOver := { s.stepOver with active := false } },
        [⟨reason, s.stepOver.addr, s.regs.eip, regs.eip⟩])

/-- The same in the windows, where no breakpoint is at address zero and writing is not checked. -/
def tuiHandleStepOver (reason : StopReason) (s : DebugSession) : DebugSession × List MovedBack :=
  if s.stepOver.active ∧ s.stepOver.addr ≠ 0 then
    let memory :=
      (ptraceWriteByte s.memory s.stepOver.addr s.stepOver.saved_byte).getD s.memory
    let regs := setup.setBack s.stepOver.addr s.regs
    ({ s with memory, regs, stepOver := { s.stepOver with active := false } },
      [⟨reason, s.stepOver.addr, s.regs.eip, regs.eip⟩])
  else (s, [])

/-- The same within the command to continue. -/
def continuedStepOver (reason : StopReason) (s : DebugSession) : DebugSession × List MovedBack :=
  if s.stepOver.active then
    let memory :=
      (ptraceWriteByte s.memory s.stepOver.addr s.stepOver.saved_byte).getD s.memory
    let regs := setup.setBackContinued s.stepOver.addr s.regs
    ({ s with memory, regs, stepOver := { s.stepOver with active := false } },
      [⟨reason, s.stepOver.addr, s.regs.eip, regs.eip⟩])
  else (s, [])

/-- One handler after another. -/
def andThen (first second : DebugSession → DebugSession × List MovedBack) (s : DebugSession) :
    DebugSession × List MovedBack :=
  let (s, moved) := first s
  let (s, more) := second s
  (s, moved ++ more)

/-- The command for a single step. -/
def doStep (s : DebugSession) : DebugSession :=
  if setup.stepsBySoftware then
    match doSoftwareStep setup s with
    | some s => { s with phase := .stepping }
    -- In the terminal the debugger gives up.
    | none => if setup.frontEnd = .text then { s with phase := .finished } else s
  else { s with phase := .hardStepping }

/-- Going on to a breakpoint behind a call. -/
def stepOverCall (s : DebugSession) (size : Int) : Option DebugSession :=
  let next := setup.linearEip s.regs + BitVec.ofInt 32 size
  (plantBreakpoint s.memory next).map fun planted =>
    { s with stepOver := planted.1, memory := planted.2 }

/-- The command to step over a call, in the terminal, where it is waited for in any case. -/
def textStepOver (s : DebugSession) : DebugSession :=
  let next :=
    match setup.disasm_instruction s.memory (setup.linearEip s.regs) with
    | none => none
    | some (isCall, size) =>
      if size ≤ 0 then none
      else if isCall then stepOverCall setup s size
      else if setup.stepsBySoftware then doSoftwareStep setup s
      else some s
  { next.getD s with phase := .steppingOver }

/-- The command to step over a call, in the windows. -/
def tuiStepOver (s : DebugSession) : DebugSession :=
  match setup.disasm_instruction s.memory (setup.linearEip s.regs) with
  | none => s
  | some (isCall, size) =>
    if isCall then
      match stepOverCall setup s (if size ≤ 0 then 1 else size) with
      | some s => { s with phase := .steppingOver }
      | none => s
    else doStep setup s

/-- The command to set a breakpoint where the debuggee is. -/
def doBreakpoint (s : DebugSession) : DebugSession :=
  { s with memory := (ptraceWriteByte s.memory s.regs.eip int3).getD s.memory }

/-- What the user asks for. -/
inductive DebugCommand where
  | step
  | stepOver
  | cont
  | breakpoint
  deriving DecidableEq, Repr

/-- Doing what the user asks for; in the terminal there is no command to set a breakpoint. -/
def runCommand (s : DebugSession) : DebugCommand → DebugSession
  | .step => doStep setup s
  | .stepOver => if setup.frontEnd = .text then textStepOver setup s else tuiStepOver setup s
  | .cont => { s with phase := .continuing }
  | .breakpoint => if setup.frontEnd = .text then s else doBreakpoint s

/-- The handlers of the breakpoints after a command that may have set any of them. -/
def handleBoth (reason : StopReason) : DebugSession → DebugSession × List MovedBack :=
  andThen
    (if setup.frontEnd = .text then handleStepOverBreakpoint setup reason
      else tuiHandleStepOver setup reason)
    (handleSoftwareStepBreakpoint setup reason)

/-- The command is done. -/
def toIdle (answer : DebugSession × List MovedBack) : DebugSession × List MovedBack :=
  ({ answer.1 with phase := .idle }, answer.2)

/-- Going on after a stop in the terminal, where the signal of the stop is looked at. -/
def textStopped (reason : StopReason) (s : DebugSession) : DebugSession × List MovedBack :=
  match s.phase with
  | .continuing =>
    if reason.isTrap then
      toIdle (andThen (handleSoftwareStepBreakpoint setup reason)
        (continuedStepOver setup reason) s)
    else ({ s with phase := .delivered }, [])
  | .delivered => toIdle (s, [])
  | .stepping =>
    if reason.isTrap then toIdle (handleSoftwareStepBreakpoint setup reason s)
    else ({ s with phase := .redelivered }, [])
  | .redelivered =>
    if reason.isTrap then toIdle (handleSoftwareStepBreakpoint setup reason s)
    else ({ s with phase := .finished }, [])
  | .hardStepping =>
    if reason.isTrap then toIdle (s, [])
    else if reason = .segv then ({ s with phase := .finished }, [])
    else (s, [])
  | .steppingOver =>
    if reason.isTrap then toIdle (handleBoth setup reason s)
    else if reason = .segv then ({ s with phase := .finished }, [])
    else (s, [])
  | .idle => (s, [])
  | .finished => (s, [])

/-- Going on after a stop in the windows, whatever the signal of the stop is. -/
def tuiStopped (reason : StopReason) (s : DebugSession) : DebugSession × List MovedBack :=
  match s.phase with
  | .stepping => toIdle (handleSoftwareStepBreakpoint setup reason s)
  | .steppingOver => toIdle (handleBoth setup reason s)
  | _ => toIdle (s, [])

/-- Going on after a stop. -/
def runStopped (reason : StopReason) (regs : UserRegs) (s : DebugSession) :
    DebugSession × List MovedBack :=
  let s := { s with regs }
  if setup.frontEnd = .text then textStopped setup reason s else tuiStopped setup reason s

/-- What happens next: a command, or the debuggee stops or is gone. -/
inductive DebugEvent where
  | command (command : DebugCommand)
  | stopped (reason : StopReason) (regs : UserRegs)
  | gone
  deriving DecidableEq, Repr

/-- One step of the debugger; the answer is where it moved the instruction pointer. -/
def debugStep (s : DebugSession) : DebugEvent → Option (DebugSession × List MovedBack)
  | .command command => if s.phase = .idle then some (runCommand setup s command, []) else none
  | .stopped reason regs =>
    if s.phase = .idle ∨ s.phase = .finished then none else some (runStopped setup reason regs s)
  | .gone =>
    if s.phase = .idle ∨ s.phase = .finished then none
    else some ({ s with phase := .finished }, [])

end Stepping

end TwoIne
