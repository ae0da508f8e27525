import TwoIne.Proofs.LxLoader.BridgeCode

/-!
A call through a bridge: the code leads to the function, and from where that returns back to the
caller.
-/

namespace TwoIne

open X86 WordMemory

section Stretches

variable {segments : Segments} {m : Machine} (original : OriginalSelectors)

/-- The caller's registers as they lie on its stack. -/
def savedBytes (m : Machine) : List UInt8 :=
  [.ebp, .edi, .esi, .edx, .ecx, .ebx].flatMap fun reg => operandBytes false (m.regs.get reg)

/-- Saving the registers pushes them, and leaves the stack pointer in `cx`. -/
theorem executeAll_saving (room : m.Room segments 12) :
    executeAll segments (savingCode.map Prod.fst) m =
      some ((m.pushBytes segments (savedBytes m)).write false .ecx
        (m.pushBytes segments (savedBytes m)).regs.esp) := by
  -- The pushes end in the reverse of their order.
  have pushes := executeAll_pushes (m := m) false [.ebx, .ecx, .edx, .esi, .edi, .ebp] (by decide)
    room (show 12 < 2 ^ 32 by decide)
  have parts : savingCode.map Prod.fst =
      [.ebx, .ecx, .edx, .esi, .edi, .ebp].map (.push false) ++ [.mov false .ecx .esp] := rfl
  rw [parts, executeAll_append, pushes]
  rfl

/-- The machine on the stack of the loader, which is the tile of the caller's. -/
def stackMachine (m : Machine) : Machine :=
  { m with
    sel := { m.sel with ss := original.ss }
    regs := { m.regs with
      eax := ((m.sel.ss >>> 3) ++ low m.regs.ecx) + 16
      ebx := m.sel.ss ++ low m.regs.ecx
      ecx := withLow m.regs.ecx original.ss
      esp := (m.sel.ss >>> 3) ++ low m.regs.ecx } }

/-- Finding the stack: both its 16-bit address and its linear one are in registers. -/
theorem executeAll_stack :
    executeAll segments ((stackCode original).map Prod.fst) m =
      some (stackMachine original m) := by
  unfold stackMachine
  simp [stackCode, executeAll, execute, Machine.write, Registers.get, Registers.set, Selectors.get,
    Selectors.set]

/-- Loading a selector through `cx`. -/
theorem executeAll_loading {before : BitVec 16} (selector : BitVec 16) (seg : SegReg)
    (move : List UInt8) (here : low m.regs.ecx = before) :
    executeAll segments ((loadingCode before selector seg move).map Prod.fst) m =
      some { m with
        sel := m.sel.set selector seg
        regs := { m.regs with ecx := withLow m.regs.ecx selector } } := by
  unfold loadingCode
  split
  · simp [executeAll, execute, Machine.write, Registers.get, Registers.set]
  · rename_i there
    -- The selector is in the register from before.
    have same : low m.regs.ecx = selector := here.trans (not_not.mp there)
    have kept : withLow m.regs.ecx selector = m.regs.ecx := by rw [← same, withLow_low]
    show some { m with sel := m.sel.set (low m.regs.ecx) seg } = _
    rw [kept, same]

/-- What is needed to return: the caller's data segments and its stack. -/
def framingBytes (m : Machine) : List UInt8 :=
  operandBytes true (m.sel.es.setWidth 32) ++ (operandBytes true (m.sel.ds.setWidth 32) ++
    wordBytes m.regs.ebx)

/-- Pushing what is needed to return. -/
theorem executeAll_framing (room : m.Room segments 12) :
    executeAll segments (framingCode.map Prod.fst) m =
      some (m.pushBytes segments (framingBytes m)) := by
  -- Three pushes are one push of all their bytes.
  have eight : m.Room segments 8 := fun narrow => Nat.le_trans (by decide) (room narrow)
  have two := pushBytes_pushBytes (operandBytes true (m.sel.ds.setWidth 32))
    (wordBytes m.regs.ebx) eight (show 8 < 2 ^ 32 by decide)
  have three := pushBytes_pushBytes (operandBytes true (m.sel.es.setWidth 32))
    (operandBytes true (m.sel.ds.setWidth 32) ++ wordBytes m.regs.ebx) room
    (show 12 < 2 ^ 32 by decide)
  show some (((m.pushBytes segments (wordBytes m.regs.ebx)).pushBytes segments
    (operandBytes true (m.sel.ds.setWidth 32))).pushBytes segments
      (operandBytes true (m.sel.es.setWidth 32))) = _
  rw [two, three]
  rfl

/-- The machine with the data segments of the loader, once what is needed to return was pushed. -/
def loadedMachine (segments : Segments) (m : Machine) : Machine :=
  let framed := m.pushBytes segments (framingBytes m)
  { framed with
    sel := { framed.sel with ds := original.ds, es := original.es }
    regs := { framed.regs with ecx := withLow m.regs.ecx original.es } }

/-- The machine with the argument pushed and the function's address loaded. -/
def argumentMachine (segments : Segments) (fn : BitVec 32) (m : Machine) : Machine :=
  ((loadedMachine original segments m).pushBytes segments (wordBytes m.regs.eax)).write true .eax fn

/-- The instructions up to the call push what is needed to return and the argument. -/
theorem executeAll_calling {fn : BitVec 32} (room : m.Room segments 12)
    (here : low m.regs.ecx = original.ss) :
    executeAll segments ((callingCode original fn).map Prod.fst) m =
      some (argumentMachine original segments fn m) := by
  unfold callingCode
  simp only [List.map_append, executeAll_append, Option.bind_assoc]
  rw [executeAll_framing room, Option.bind_some]
  have same : low (m.pushBytes segments (framingBytes m)).regs.ecx = original.ss := here
  rw [executeAll_loading _ _ _ same, Option.bind_some, executeAll_loading _ _ _ (low_withLow _ _),
    Option.bind_some, withLow_withLow]
  rfl

/-- The instructions behind the call pop what was pushed in front of it. -/
theorem executeAll_leaving {es ds ss sp : BitVec 16} {rest : List UInt8}
    (wide : m.wideStack segments = true)
    (holds : HoldsAt m.memory (m.stackTop segments + 4)
      (operandBytes true (es.setWidth 32) ++ (operandBytes true (ds.setWidth 32) ++
        (wordBytes (ss ++ sp) ++ rest)))) :
    ∃ esp, executeAll segments (leavingCode.map Prod.fst) m =
      some { m with
        sel := { m.sel with es, ds }
        regs := { m.regs with
          ebx := withLow m.regs.ebx sp, ecx := withLow m.regs.ecx ss, esp } } := by
  -- In 32 bits the stack pointer does not wrap around within the frame.
  have never : ∀ {n : Nat} {k : Machine}, k.sel.ss = m.sel.ss →
      k.wideStack segments = false → (low k.regs.esp).toNat + n < 2 ^ 16 := by
    intro n k same narrow
    unfold Machine.wideStack at narrow wide
    rw [same, wide] at narrow
    cases narrow
  -- The argument is dropped first.
  let dropped := m.moveStack segments (BitVec.ofNat 32 4)
  have moved : dropped.regs.esp = m.regs.esp + BitVec.ofNat 32 4 := if_pos wide
  have drops : execute segments m (.addImm true .esp 4) = some dropped := by
    have same : m.write true .esp (m.regs.esp + BitVec.ofNat 32 4) = dropped := by
      rw [← moved]
      rfl
    exact congrArg some same
  have top : dropped.stackTop segments = m.stackTop segments + 4 := by
    unfold Machine.stackTop
    rw [wide, show dropped.wideStack segments = true from wide, if_pos rfl, if_pos rfl, moved,
      BitVec.add_assoc]
    rfl
  rw [← top] at holds
  obtain ⟨e, esp_e, first, e_eq, holds_e⟩ := execute_popSeg (m := dropped) .es (by decide)
    (never rfl) holds
  obtain ⟨f, esp_f, second, f_eq, holds_f⟩ := execute_popSeg .ds (by decide)
    (never (by rw [e_eq]; rfl)) holds_e
  -- The 16-bit stack is popped in two halves.
  have halves : (([(.ebx, sp.setWidth 32), (.ecx, ss.setWidth 32)] : List (Reg × BitVec 32)).flatMap
      fun pair => operandBytes false pair.2) = wordBytes (ss ++ sp) := by
    rw [wordBytes_append]
    show halfBytes (low (sp.setWidth 32)) ++ (halfBytes (low (ss.setWidth 32)) ++ []) = _
    rw [low_setWidth, low_setWidth, List.append_nil]
  rw [← halves] at holds_f
  obtain ⟨third, _⟩ := executeAll_pops false [(.ebx, sp.setWidth 32), (.ecx, ss.setWidth 32)]
    (by simp) (never (by rw [f_eq, e_eq]; rfl)) holds_f
  have code : leavingCode.map Prod.fst =
      [.addImm true .esp 4, .popSeg true .es, .popSeg true .ds] ++
        ([(.ebx, sp.setWidth 32), (.ecx, ss.setWidth 32)] : List (Reg × BitVec 32)).map
          fun pair => .pop false pair.1 := rfl
  rw [code, executeAll_append, executeAll, drops, Option.bind_some, executeAll, first,
    Option.bind_some, executeAll, second, Option.bind_some]
  refine ⟨_, third.trans (congrArg some (?_ : _ = Machine.mk
    { m.regs with ebx := withLow m.regs.ebx sp, ecx := withLow m.regs.ecx ss, esp := ?_ }
    { m.sel with es, ds } m.eip m.memory))⟩
  · exact (f.popped segments false [(.ebx, sp.setWidth 32), (.ecx, ss.setWidth 32)]).regs.esp
  · unfold Machine.popped
    rw [f_eq, e_eq]
    simp only [List.foldl, Machine.write, Registers.get, Registers.set, low_setWidth]
    rfl

/-- The registers that are restored, with their values. -/
def savedValues (m : Machine) : List (Reg × BitVec 32) :=
  [(.ebp, m.regs.ebp), (.edi, m.regs.edi), (.esi, m.regs.esi), (.edx, m.regs.edx),
    (.ecx, m.regs.ecx), (.ebx, m.regs.ebx)]

/-- A machine with the caller's stack and registers, of which the upper halves are as they are. -/
def restoredMachine (m k : Machine) (esp : BitVec 32) : Machine :=
  { k with
    sel := { k.sel with ss := m.sel.ss }
    regs := { k.regs with
      ebp := withLow k.regs.ebp (low m.regs.ebp)
      edi := withLow k.regs.edi (low m.regs.edi)
      esi := withLow k.regs.esi (low m.regs.esi)
      edx := withLow k.regs.edx (low m.regs.edx)
      ecx := withLow k.regs.ecx (low m.regs.ecx)
      ebx := withLow k.regs.ebx (low m.regs.ebx)
      esp } }

/-- The last instructions restore the caller's stack and registers. -/
theorem executeAll_restoring {k : Machine} {sp : BitVec 16} {rest : List UInt8}
    (ss : low k.regs.ecx = m.sel.ss) (pointer : low k.regs.ebx = sp)
    (narrow : segments.wide m.sel.ss = false) (fits : sp.toNat + 12 < 2 ^ 16)
    (holds : HoldsAt k.memory (segments.base m.sel.ss + sp.setWidth 32) (savedBytes m ++ rest)) :
    ∃ esp, executeAll segments (restoringCode.map Prod.fst) k = some (restoredMachine m k esp) ∧
      HoldsAt k.memory ((restoredMachine m k esp).stackTop segments) rest ∧
        low esp = sp + 12 := by
  -- Once the caller's stack is loaded, the saved registers are on top of it.
  let switched : Machine := { k with
    sel := { k.sel with ss := m.sel.ss }
    regs := { k.regs with esp := withLow k.regs.esp sp } }
  have code : restoringCode.map Prod.fst = [.movToSeg .ss .ecx, .mov false .esp .ebx] ++
      (savedValues m).map fun pair => .pop false pair.1 := rfl
  have switches : executeAll segments [.movToSeg .ss .ecx, .mov false .esp .ebx] k =
      some switched := by
    show some { k with
      sel := { k.sel with ss := low k.regs.ecx }
      regs := { k.regs with esp := withLow k.regs.esp (low k.regs.ebx) } } = _
    rw [ss, pointer]
  have slim : switched.wideStack segments = false := narrow
  have top : switched.stackTop segments = segments.base m.sel.ss + sp.setWidth 32 := by
    unfold Machine.stackTop
    rw [slim, if_neg Bool.false_ne_true]
    show segments.base m.sel.ss + (low (withLow k.regs.esp sp)).setWidth 32 = _
    rw [low_withLow]
  rw [← top] at holds
  have inside : switched.wideStack segments = false →
      (low switched.regs.esp).toNat + 12 < 2 ^ 16 := by
    intro _
    show (low (withLow k.regs.esp sp)).toNat + 12 < 2 ^ 16
    rw [low_withLow]
    exact fits
  obtain ⟨pops, below⟩ := executeAll_pops false (savedValues m) (by simp [savedValues]) inside holds
  have shape : switched.popped segments false (savedValues m) =
      restoredMachine m k (switched.popped segments false (savedValues m)).regs.esp := rfl
  refine ⟨(switched.popped segments false (savedValues m)).regs.esp, ?_, ?_, ?_⟩
  · rw [code, executeAll_append, switches, Option.bind_some, pops, ← shape]
  · rw [← shape]
    exact below
  · show low (switched.moveStack segments (BitVec.ofNat 32 12)).regs.esp = _
    rw [moveStack_low slim]
    show low (withLow k.regs.esp sp) + 12 = _
    rw [low_withLow]

/-- What lies twelve bytes below the end of a frame of twenty-eight bytes. -/
theorem twelve_below {a b : BitVec 32} (same : a + BitVec.ofNat 32 12 = b + 28) : a = b + 16 := by
  have split : b + 28 = b + 16 + BitVec.ofNat 32 12 := by
    rw [BitVec.add_assoc]
    rfl
  rw [split] at same
  exact (BitVec.add_left_inj _).mp same

end Stretches

section Calls

/--
A 16-bit caller has just called the code for a function, which starts somewhere in the object. Its
stack is a tile, and has room for the registers and ends behind the return address.
-/
structure CallsBridge (p : Process) (original : OriginalSelectors) (mmapaddr : BitVec 32)
    (bridged : BridgedFunction) (start : Nat) (m : Machine) : Prop where
  installed : HoldsAt p.code (mmapaddr + BitVec.ofNat 32 start)
    (bridgeCode original mmapaddr m.sel.cs bridged start)
  inside : start + (bridgeCode original mmapaddr m.sel.cs bridged start).length < 0x10000
  cs_base : p.segments.base m.sel.cs = mmapaddr
  cs_narrow : p.segments.wide m.sel.cs = false
  eip : m.eip = BitVec.ofNat 32 start
  ss_base : p.segments.base m.sel.ss = (m.sel.ss >>> 3) ++ 0#16
  ss_narrow : p.segments.wide m.sel.ss = false
  room : 12 ≤ (low m.regs.esp).toNat
  return_inside : (low m.regs.esp).toNat + 4 ≤ 2 ^ 16
  kernel_cs : p.segments.base original.cs = 0#32 ∧ p.segments.wide original.cs = true
  kernel_ss : p.segments.base original.ss = 0#32 ∧ p.segments.wide original.ss = true

variable {p : Process} {original : OriginalSelectors} {mmapaddr : BitVec 32}
  {bridged : BridgedFunction} {start : Nat} {m : Machine}

/-- The machine once the registers are saved. -/
def savedMachine (segments : Segments) (m : Machine) : Machine :=
  (m.pushBytes segments (savedBytes m)).write false .ecx
    (m.pushBytes segments (savedBytes m)).regs.esp

/-- The machine at the first instruction of 32 bits. -/
def wideMachine (segments : Segments) (original : OriginalSelectors) (m : Machine)
    (target : BitVec 32) : Machine :=
  let saved := savedMachine segments m
  { saved with sel := { saved.sel with cs := original.cs }, eip := target }

/-- Saving the registers and going on in 32 bits. -/
theorem CallsBridge.runs_wide (calls : CallsBridge p original mmapaddr bridged start m) :
    Runs p m (wideMachine p.segments original m (mmapaddr + BitVec.ofNat 32 (start + 16))) := by
  -- The entry point is where the caller's code segment says.
  have pc : m.pc p = mmapaddr + BitVec.ofNat 32 start := by
    unfold Machine.pc
    rw [calls.cs_base, calls.eip]
  have installed := calls.installed
  rw [← pc] at installed
  have straight := runs_straight savingCode (by decide)
    (by rw [calls.cs_narrow]; exact encodes_saving) installed
    (executeAll_saving fun _ => calls.room)
  -- The jump lies behind these instructions.
  let saved := { savedMachine p.segments m with eip := m.eip + BitVec.ofNat 32 8 }
  have next := installed.behind (code savingCode)
  have there : saved.pc p = m.pc p + BitVec.ofNat 32 8 := (BitVec.add_assoc _ _ _).symm
  have jumps := step_insn (p := p) (m := saved) (by rw [there]; exact next)
    (by
      rw [show saved.sel.cs = m.sel.cs from rfl, calls.cs_narrow]
      exact encodes_jumpWide _ _)
  exact Relation.ReflTransGen.tail straight jumps

/-- The machine at the first instruction of the function, called from a machine of 32 bits. -/
def calledMachine (segments : Segments) (original : OriginalSelectors) (fn : BitVec 32)
    (w : Machine) (returns : BitVec 32) : Machine :=
  let ready := argumentMachine original segments fn (stackMachine original w)
  { ({ ready with eip := returns } : Machine).pushBytes segments (wordBytes returns) with eip := fn }

/-- Where the function returns to. -/
def returnAddr (original : OriginalSelectors) (mmapaddr : BitVec 32) (bridged : BridgedFunction)
    (start : Nat) : BitVec 32 :=
  mmapaddr + BitVec.ofNat 32 (start + 18 + (code (wideCode original bridged.fn)).length)

/-- The code leads to the first instruction of the function. -/
theorem CallsBridge.runs_call (calls : CallsBridge p original mmapaddr bridged start m) :
    Runs p m (calledMachine p.segments original bridged.fn
      (wideMachine p.segments original m (mmapaddr + BitVec.ofNat 32 (start + 16)))
      (returnAddr original mmapaddr bridged start)) := by
  refine Relation.ReflTransGen.trans calls.runs_wide ?_
  -- The segment of the loader holds all of the memory, so the jump goes to a linear address.
  generalize machine : wideMachine p.segments original m
    (mmapaddr + BitVec.ofNat 32 (start + 16)) = w
  have cs : w.sel.cs = original.cs := by rw [← machine]; rfl
  have eip : w.eip = mmapaddr + BitVec.ofNat 32 (start + 16) := by rw [← machine]; rfl
  have pc : w.pc p = mmapaddr + BitVec.ofNat 32 (start + 16) := by
    unfold Machine.pc
    rw [cs, calls.kernel_cs.1, eip, BitVec.zero_add]
  have installed := (calls.installed.behind (code savingCode)).behind (jumpWide _ _)
  have behind : mmapaddr + BitVec.ofNat 32 start + BitVec.ofNat 32 (code savingCode).length +
      BitVec.ofNat 32 (jumpWide original.cs (mmapaddr + BitVec.ofNat 32 (start + 16))).length =
        w.pc p := by
    rw [pc, BitVec.add_assoc, BitVec.add_assoc, ← BitVec.ofNat_add, ← BitVec.ofNat_add]
    rfl
  rw [behind] at installed
  have wide : Machine.wideStack p.segments (stackMachine original w) = true := calls.kernel_ss.2
  have executed : executeAll p.segments ((wideCode original bridged.fn).map Prod.fst) w =
      some (argumentMachine original p.segments bridged.fn (stackMachine original w)) := by
    unfold wideCode
    rw [List.map_append, executeAll_append, executeAll_stack, Option.bind_some]
    exact executeAll_calling original (fun narrow => by rw [wide] at narrow; cases narrow)
      (low_withLow _ _)
  have straight := runs_straight (wideCode original bridged.fn)
    (straight_wide original bridged.fn)
    (by rw [cs, calls.kernel_cs.2]; exact encodes_wide original bridged.fn) installed executed
  -- The call lies behind these instructions.
  let called := { argumentMachine original p.segments bridged.fn (stackMachine original w) with
    eip := w.eip + BitVec.ofNat 32 (code (wideCode original bridged.fn)).length }
  have next := installed.behind (code (wideCode original bridged.fn))
  have cs' : called.sel.cs = original.cs := cs
  have there : called.pc p =
      w.pc p + BitVec.ofNat 32 (code (wideCode original bridged.fn)).length := by
    unfold Machine.pc
    rw [cs, cs', BitVec.add_assoc]
  have calls' := step_insn (p := p) (m := called) (by rw [there]; exact next)
    (by rw [cs', calls.kernel_cs.2]; exact ⟨by decide, fun _ => rfl⟩)
  have returns : called.eip + BitVec.ofNat 32 ([0xFF, 0xD0] : List UInt8).length =
      returnAddr original mmapaddr bridged start := by
    show w.eip + _ + _ = _
    rw [eip]
    unfold returnAddr
    rw [BitVec.add_assoc, BitVec.add_assoc, ← BitVec.ofNat_add, ← BitVec.ofNat_add]
    congr 2
    show start + 16 + (_ + 2) = _
    omega
  rw [returns] at calls'
  exact Relation.ReflTransGen.tail straight calls'

/-- The stack pointer once the registers are saved. -/
def savedPointer (segments : Segments) (m : Machine) : BitVec 16 :=
  low (m.pushBytes segments (savedBytes m)).regs.esp

/-- What the code has on the stack during the call, above the argument. -/
def frameBytes (segments : Segments) (m : Machine) : List UInt8 :=
  operandBytes true (m.sel.es.setWidth 32) ++ (operandBytes true (m.sel.ds.setWidth 32) ++
    wordBytes (m.sel.ss ++ savedPointer segments m)) ++ savedBytes m

/-- The saved registers are on top of the caller's stack. -/
theorem CallsBridge.saved (calls : CallsBridge p original mmapaddr bridged start m) :
    Pushed p.segments m (savedMachine p.segments m) (savedBytes m) := by
  have room : m.Room p.segments (savedBytes m).length := fun _ => calls.room
  exact (pushBytes_pushed room).congr rfl rfl

/-- Where the saved registers lie. -/
theorem CallsBridge.saved_top (calls : CallsBridge p original mmapaddr bridged start m) :
    (savedMachine p.segments m).stackTop p.segments =
      p.segments.base m.sel.ss + (savedPointer p.segments m).setWidth 32 := by
  have slim : (savedMachine p.segments m).wideStack p.segments = false := calls.ss_narrow
  unfold Machine.stackTop
  rw [slim, if_neg Bool.false_ne_true]
  rfl

/-- The loader's stack lies where the caller's does. -/
theorem CallsBridge.stack_same (calls : CallsBridge p original mmapaddr bridged start m)
    (target : BitVec 32) :
    (stackMachine original (wideMachine p.segments original m target)).stackTop p.segments =
        (savedMachine p.segments m).stackTop p.segments ∧
      (stackMachine original (wideMachine p.segments original m target)).regs.esp =
        (savedMachine p.segments m).stackTop p.segments := by
  have pointer : (m.sel.ss >>> 3) ++ savedPointer p.segments m =
      (savedMachine p.segments m).stackTop p.segments := by
    rw [calls.saved_top, calls.ss_base]
    exact (append_zero_add _ _).symm
  have esp : (stackMachine original (wideMachine p.segments original m target)).regs.esp =
      (m.sel.ss >>> 3) ++ savedPointer p.segments m :=
    congrArg (fun lower => ((m.sel.ss >>> 3) ++ lower : BitVec 32)) (low_withLow _ _)
  refine ⟨?_, esp.trans pointer⟩
  rw [← pointer, ← esp]
  unfold Machine.stackTop
  rw [if_pos (show Machine.wideStack p.segments
    (stackMachine original (wideMachine p.segments original m target)) = true from
      calls.kernel_ss.2), show
    (stackMachine original (wideMachine p.segments original m target)).sel.ss = original.ss from rfl,
    calls.kernel_ss.1, BitVec.zero_add]

/-- The function is called with the address of the caller's arguments on top of the frame. -/
theorem CallsBridge.pushed (calls : CallsBridge p original mmapaddr bridged start m)
    (target returns : BitVec 32) :
    Pushed p.segments m
      (calledMachine p.segments original bridged.fn
        (wideMachine p.segments original m target) returns)
      (wordBytes returns ++ (wordBytes (m.stackTop p.segments + 4) ++ frameBytes p.segments m)) := by
  obtain ⟨top, pointer⟩ := calls.stack_same target
  generalize stacked : stackMachine original (wideMachine p.segments original m target) = s
  rw [stacked] at top pointer
  have ss : s.sel.ss = original.ss := by rw [← stacked]; rfl
  have room : ∀ (k : Machine) (n : Nat), k.sel.ss = s.sel.ss → k.Room p.segments n := by
    intro k n same narrow
    unfold Machine.wideStack at narrow
    rw [same, ss, calls.kernel_ss.2] at narrow
    cases narrow
  have first : Pushed p.segments m s (savedBytes m) :=
    calls.saved.congr top (by rw [← stacked]; rfl)
  -- The 16-bit address of the stack is in the frame, and its linear one in the argument.
  have framing : framingBytes s ++ savedBytes m = frameBytes p.segments m := by
    rw [← stacked]
    unfold framingBytes frameBytes
    show operandBytes true (m.sel.es.setWidth 32) ++ (operandBytes true (m.sel.ds.setWidth 32) ++
      wordBytes (m.sel.ss ++ low (withLow _ (savedPointer p.segments m)))) ++ savedBytes m = _
    rw [low_withLow]
  have argument : s.regs.eax = m.stackTop p.segments + 4 := by
    have behind : s.regs.eax = s.regs.esp + BitVec.ofNat 32 16 := by
      rw [← stacked]
      rfl
    have bytes : (savedBytes m).length = 12 := rfl
    rw [behind, pointer, ← calls.saved.top, bytes, BitVec.add_assoc]
    rfl
  -- Whatever is pushed from here on lies in front.
  have second : Pushed p.segments s (loadedMachine original p.segments s) (framingBytes s) :=
    (pushBytes_pushed (room s _ rfl)).congr rfl rfl
  have third : Pushed p.segments (loadedMachine original p.segments s)
      (argumentMachine original p.segments bridged.fn s) (wordBytes s.regs.eax) :=
    (pushBytes_pushed (room (loadedMachine original p.segments s) _ rfl)).congr rfl rfl
  have fourth : Pushed p.segments (argumentMachine original p.segments bridged.fn s)
      (calledMachine p.segments original bridged.fn
        (wideMachine p.segments original m target) returns) (wordBytes returns) := by
    unfold calledMachine
    rw [stacked]
    exact (pushBytes_pushed (room (argumentMachine original p.segments bridged.fn s) _
      rfl)).congr rfl rfl
  have all := ((first.trans second (show 24 < 2 ^ 32 by decide)).trans third
    (show 28 < 2 ^ 32 by decide)).trans fourth (show 32 < 2 ^ 32 by decide)
  rw [framing, argument] at all
  exact all

/--
A C function that was called at one state of the machine and has returned at another: it goes to the
return address, drops it, and leaves the registers and the memory alone that belong to its caller.
-/
structure CReturns (segments : Segments) (c d : Machine) : Prop where
  eip : ∀ returns, HoldsAt c.memory (c.stackTop segments) (wordBytes returns) → d.eip = returns
  sel : d.sel = c.sel
  esp : d.regs.esp = c.regs.esp + 4
  ebx : d.regs.ebx = c.regs.ebx
  ebp : d.regs.ebp = c.regs.ebp
  esi : d.regs.esi = c.regs.esi
  edi : d.regs.edi = c.regs.edi
  frame : ∀ k, 8 ≤ k → k < 36 → d.memory (c.stackTop segments + BitVec.ofNat 32 k) =
    c.memory (c.stackTop segments + BitVec.ofNat 32 k)

/-- What the caller's frame is once the function has returned. -/
theorem CReturns.holds {segments : Segments} {c d : Machine} {front bytes : List UInt8}
    (returned : CReturns segments c d) (size : front.length = 8) (fits : bytes.length ≤ 28)
    (holds : HoldsAt c.memory (c.stackTop segments) (front ++ bytes)) :
    HoldsAt d.memory (c.stackTop segments + 8) bytes := by
  have behind := holds.behind front
  intro k inside
  have here := behind k inside
  have kept := returned.frame (8 + k) (by omega) (by omega)
  rw [size] at here
  rw [BitVec.ofNat_add, ← BitVec.add_assoc] at kept
  exact kept.trans here

/-- The function returns behind the call, with the frame as it was pushed. -/
theorem CallsBridge.returned (calls : CallsBridge p original mmapaddr bridged start m)
    {ip cs : BitVec 16} {target returns : BitVec 32} {d : Machine}
    (caller : HoldsAt m.memory (m.stackTop p.segments) (halfBytes ip ++ halfBytes cs))
    (returned : CReturns p.segments (calledMachine p.segments original bridged.fn
      (wideMachine p.segments original m target) returns) d) :
    d.eip = returns ∧ d.sel = ⟨original.es, original.cs, original.ss, original.ds⟩ ∧
      d.stackTop p.segments + 28 = m.stackTop p.segments ∧
      HoldsAt d.memory (d.stackTop p.segments + 4)
        (frameBytes p.segments m ++ (halfBytes ip ++ halfBytes cs)) := by
  have pushed := calls.pushed target returns
  generalize called : calledMachine p.segments original bridged.fn
    (wideMachine p.segments original m target) returns = c
  rw [called] at pushed returned
  have sel : c.sel = ⟨original.es, original.cs, original.ss, original.ds⟩ := by
    rw [← called]
    rfl
  have holds := pushed.holds (by show 36 ≤ 2 ^ 32; decide) caller
  have top : d.stackTop p.segments = c.stackTop p.segments + 4 := by
    unfold Machine.stackTop Machine.wideStack
    rw [returned.sel, sel, calls.kernel_ss.2, if_pos rfl, if_pos rfl, returned.esp,
      BitVec.add_assoc]
  rw [List.append_assoc] at holds
  refine ⟨returned.eip _ (holds_front holds), returned.sel.trans sel, ?_, ?_⟩
  · rw [top, ← pushed.top, BitVec.add_assoc]
    rfl
  -- The return address and the argument are in front of the frame.
  rw [List.append_assoc, ← List.append_assoc] at holds
  have frame := returned.holds (by rfl) (by show 28 ≤ 28; decide) holds
  rw [top, BitVec.add_assoc]
  exact frame

/--
A 16-bit caller goes on behind its call, with the result and the memory that the function left, and
without its arguments on the stack.
-/
structure Resumed (argbytes ip cs : BitVec 16) (m d n : Machine) : Prop where
  eip : n.eip = ip.setWidth 32
  sel : n.sel = { m.sel with cs }
  sp : low n.regs.esp = low m.regs.esp + 4 + argbytes
  bx : low n.regs.ebx = low m.regs.ebx
  cx : low n.regs.ecx = low m.regs.ecx
  dx : low n.regs.edx = low m.regs.edx
  ebp : n.regs.ebp = m.regs.ebp
  esi : n.regs.esi = m.regs.esi
  edi : n.regs.edi = m.regs.edi
  eax : n.regs.eax = d.regs.eax
  memory : n.memory = d.memory

/-- The machine once what was pushed in front of the call is popped. -/
def leftMachine (segments : Segments) (m d : Machine) (esp : BitVec 32) : Machine :=
  { d with
    sel := { d.sel with es := m.sel.es, ds := m.sel.ds }
    regs := { d.regs with
      ebx := withLow d.regs.ebx (savedPointer segments m)
      ecx := withLow d.regs.ecx m.sel.ss
      esp } }

/-- From where the function returns the code goes on in 16 bits. -/
theorem CallsBridge.runs_narrow (calls : CallsBridge p original mmapaddr bridged start m)
    {d : Machine} {rest : List UInt8} (eip : d.eip = returnAddr original mmapaddr bridged start)
    (sel : d.sel = ⟨original.es, original.cs, original.ss, original.ds⟩)
    (frame : HoldsAt d.memory (d.stackTop p.segments + 4) (frameBytes p.segments m ++ rest)) :
    ∃ esp, Runs p d { leftMachine p.segments m d esp with
      sel := { m.sel with ss := original.ss }
      eip := BitVec.ofNat 32 (start + narrowStart original bridged.fn) } := by
  have pc : d.pc p = returnAddr original mmapaddr bridged start := by
    unfold Machine.pc
    rw [sel, calls.kernel_cs.1, eip, BitVec.zero_add]
  -- The function returned behind the call, where the code goes on.
  have installed := (((calls.installed.behind (code savingCode)).behind (jumpWide _ _)).behind
    (code (wideCode original bridged.fn))).behind [0xFF, 0xD0]
  have behind : mmapaddr + BitVec.ofNat 32 start + BitVec.ofNat 32 (code savingCode).length +
      BitVec.ofNat 32 (jumpWide original.cs (mmapaddr + BitVec.ofNat 32 (start + 16))).length +
      BitVec.ofNat 32 (code (wideCode original bridged.fn)).length +
      BitVec.ofNat 32 ([0xFF, 0xD0] : List UInt8).length = d.pc p := by
    rw [pc]
    unfold returnAddr
    simp only [BitVec.add_assoc, ← BitVec.ofNat_add]
    congr 2
    show start + 8 + 8 + _ + 2 = _
    omega
  rw [behind] at installed
  unfold frameBytes at frame
  rw [List.append_assoc, List.append_assoc, List.append_assoc] at frame
  obtain ⟨esp, left⟩ := executeAll_leaving (m := d)
    (by
      unfold Machine.wideStack
      rw [sel]
      exact calls.kernel_ss.2) frame
  refine ⟨esp, ?_⟩
  have straight := runs_straight leavingCode (by decide)
    (by rw [sel, calls.kernel_cs.2]; exact encodes_leaving) installed left
  -- The jump lies behind these instructions.
  let popped := { leftMachine p.segments m d esp with
    eip := d.eip + BitVec.ofNat 32 (code leavingCode).length }
  have next := installed.behind (code leavingCode)
  have there : popped.pc p = d.pc p + BitVec.ofNat 32 (code leavingCode).length :=
    (BitVec.add_assoc _ _ _).symm
  have jumps := step_insn (p := p) (m := popped) (by rw [there]; exact next)
    (by
      rw [show popped.sel.cs = d.sel.cs from rfl, sel, calls.kernel_cs.2]
      exact encodes_jumpNarrow _ _)
  have target : (BitVec.ofNat 16 (start + narrowStart original bridged.fn)).setWidth 32 =
      BitVec.ofNat 32 (start + narrowStart original bridged.fn) := by
    have inside := calls.inside
    rw [bridgeCode_length] at inside
    apply BitVec.eq_of_toNat_eq
    rw [BitVec.toNat_setWidth, BitVec.toNat_ofNat, BitVec.toNat_ofNat]
    omega
  have selectors : { popped.sel with cs := m.sel.cs } = { m.sel with ss := original.ss } := by
    show Selectors.mk m.sel.es m.sel.cs d.sel.ss m.sel.ds = _
    rw [sel]
  refine Relation.ReflTransGen.tail straight (jumps.trans ?_)
  rw [← target, ← selectors]
  rfl

/-- How far the stack pointer is below that of the caller once the registers are saved. -/
theorem CallsBridge.pointer (calls : CallsBridge p original mmapaddr bridged start m) :
    savedPointer p.segments m + 12 = low m.regs.esp ∧
      (savedPointer p.segments m).toNat + 12 = (low m.regs.esp).toNat := by
  -- There is room for the registers, so the pointer does not wrap around.
  have room := calls.room
  have down : savedPointer p.segments m = low m.regs.esp + low (-BitVec.ofNat 32 12) :=
    moveStack_low (m := m) calls.ss_narrow _
  have below := low_down (m := m) room
  rw [← down] at below
  have exact_low : (savedPointer p.segments m).toNat + 12 = (low m.regs.esp).toNat := by omega
  refine ⟨?_, exact_low⟩
  apply BitVec.eq_of_toNat_eq
  have half := (low m.regs.esp).isLt
  rw [BitVec.toNat_add]
  show ((savedPointer p.segments m).toNat + 12) % 2 ^ 16 = _
  omega

/-- In 16 bits the registers are restored, and the code returns to the caller. -/
theorem CallsBridge.runs_restored (calls : CallsBridge p original mmapaddr bridged start m)
    {ip cs : BitVec 16} {d g : Machine}
    (eip : g.eip = BitVec.ofNat 32 (start + narrowStart original bridged.fn))
    (sel : g.sel = { m.sel with ss := original.ss })
    (ss : low g.regs.ecx = m.sel.ss) (pointer : low g.regs.ebx = savedPointer p.segments m)
    (top : d.stackTop p.segments + 28 = m.stackTop p.segments)
    (frame : HoldsAt g.memory (d.stackTop p.segments + 16)
      (savedBytes m ++ (halfBytes ip ++ halfBytes cs))) :
    ∃ n esp, Runs p g n ∧ n = { restoredMachine m g esp with
        sel := { m.sel with cs }
        eip := ip.setWidth 32 } ∧
      low esp = low m.regs.esp + 4 + bridged.argbytes := by
  have pc : g.pc p = mmapaddr + BitVec.ofNat 32 (start + narrowStart original bridged.fn) := by
    unfold Machine.pc
    rw [sel, eip, calls.cs_base]
  have installed := (((((calls.installed.behind (code savingCode)).behind (jumpWide _ _)).behind
    (code (wideCode original bridged.fn))).behind [0xFF, 0xD0]).behind (code leavingCode)).behind
      (jumpNarrow _ _)
  have behind : mmapaddr + BitVec.ofNat 32 start + BitVec.ofNat 32 (code savingCode).length +
      BitVec.ofNat 32 (jumpWide original.cs (mmapaddr + BitVec.ofNat 32 (start + 16))).length +
      BitVec.ofNat 32 (code (wideCode original bridged.fn)).length +
      BitVec.ofNat 32 ([0xFF, 0xD0] : List UInt8).length +
      BitVec.ofNat 32 (code leavingCode).length +
      BitVec.ofNat 32 (jumpNarrow m.sel.cs
        (BitVec.ofNat 16 (start + narrowStart original bridged.fn))).length = g.pc p := by
    rw [pc]
    unfold narrowStart
    simp only [BitVec.add_assoc, ← BitVec.ofNat_add]
    congr 2
    show start + 8 + 8 + _ + 2 + 9 + 6 = start + (33 + _)
    omega
  rw [behind] at installed
  -- The saved registers lie where the caller's stack pointer was put.
  obtain ⟨up, up_nat⟩ := calls.pointer
  have place : p.segments.base m.sel.ss + (savedPointer p.segments m).setWidth 32 =
      d.stackTop p.segments + 16 := by
    have saved := calls.saved.top
    have bytes : (savedBytes m).length = 12 := rfl
    rw [calls.saved_top, bytes, ← top] at saved
    exact twelve_below saved
  rw [← place] at frame
  have high := calls.return_inside
  obtain ⟨esp, restored, below, moved⟩ := executeAll_restoring (m := m) ss pointer calls.ss_narrow
    (by omega) frame
  have straight := runs_straight restoringCode (by decide)
    (by rw [sel, calls.cs_narrow]; exact encodes_restoring) installed restored
  -- The return lies behind these instructions.
  let ready := { restoredMachine m g esp with
    eip := g.eip + BitVec.ofNat 32 (code restoringCode).length }
  have next := installed.behind (code restoringCode)
  rw [← List.append_nil (0xCA :: halfBytes bridged.argbytes)] at next
  have there : ready.pc p = g.pc p + BitVec.ofNat 32 (code restoringCode).length :=
    (BitVec.add_assoc _ _ _).symm
  have returns := step_insn (p := p) (m := ready) (by rw [there]; exact next)
    (by
      rw [show ready.sel.cs = g.sel.cs from rfl, sel, calls.cs_narrow]
      exact encodes_return _)
  have inside : (low esp).toNat + 2 < 2 ^ 16 := by
    rw [moved, up]
    omega
  rw [← List.append_nil (halfBytes cs)] at below
  let behind_return := { ready with
    eip := ready.eip + BitVec.ofNat 32 (0xCA :: halfBytes bridged.argbytes).length }
  have on_stack : HoldsAt behind_return.memory (behind_return.stackTop p.segments)
      (halfBytes ip ++ (halfBytes cs ++ [])) := below
  have goes := execute_retFar bridged.argbytes (fun _ => inside) on_stack
  have selectors : { behind_return.sel with cs } = { m.sel with cs } := by
    show Selectors.mk g.sel.es cs m.sel.ss g.sel.ds = _
    rw [sel]
  rw [selectors] at goes
  have sp : low (behind_return.moveStack p.segments
      (BitVec.ofNat 32 4 + bridged.argbytes.setWidth 32)).regs.esp =
        low m.regs.esp + 4 + bridged.argbytes := by
    have four : low (BitVec.ofNat 32 4) = 4 := rfl
    have before : low behind_return.regs.esp = low m.regs.esp := moved.trans up
    rw [moveStack_low (m := behind_return) calls.ss_narrow, before, low_add, low_setWidth, four,
      BitVec.add_assoc]
  exact ⟨_, _, Relation.ReflTransGen.tail straight (returns.trans goes), rfl, sp⟩

/--
A C function is called for a 16-bit caller: with the selectors of the loader, with the address of the
caller's arguments, and with the memory as it was but for what lies below the caller's stack.
-/
structure CalledWith (segments : Segments) (original : OriginalSelectors) (fn : BitVec 32)
    (m c : Machine) : Prop where
  eip : c.eip = fn
  sel : c.sel = ⟨original.es, original.cs, original.ss, original.ds⟩
  argument : HoldsAt c.memory (c.stackTop segments + 4) (wordBytes (m.stackTop segments + 4))
  top : c.stackTop segments + 32 = m.stackTop segments
  elsewhere : ∀ place, 32 ≤ (place - c.stackTop segments).toNat → c.memory place = m.memory place

/-- The code calls the function as a 16-bit caller wants it called. -/
theorem CallsBridge.called (calls : CallsBridge p original mmapaddr bridged start m)
    (target returns : BitVec 32) :
    CalledWith p.segments original bridged.fn m
      (calledMachine p.segments original bridged.fn
        (wideMachine p.segments original m target) returns) := by
  have pushed := calls.pushed target returns
  have size : (wordBytes returns ++ (wordBytes (m.stackTop p.segments + 4) ++
      frameBytes p.segments m)).length = 32 := rfl
  have holds := pushed.on_top (by rw [size]; decide)
  have behind := holds_front (holds.behind (wordBytes returns))
  have top := pushed.top
  rw [size] at top
  exact {
    eip := rfl
    sel := rfl
    argument := behind
    top := top
    elsewhere := fun place outside => pushed.elsewhere (by rw [size]; exact outside) }

/-- Wherever the function returns, its 16-bit caller goes on. -/
theorem CallsBridge.resumes (calls : CallsBridge p original mmapaddr bridged start m)
    {ip cs : BitVec 16} {d : Machine}
    (caller : HoldsAt m.memory (m.stackTop p.segments) (halfBytes ip ++ halfBytes cs))
    (returned : CReturns p.segments (calledMachine p.segments original bridged.fn
      (wideMachine p.segments original m (mmapaddr + BitVec.ofNat 32 (start + 16)))
      (returnAddr original mmapaddr bridged start)) d) :
    ∃ n, Runs p d n ∧ Resumed bridged.argbytes ip cs m d n := by
  obtain ⟨eip, sel, top, frame⟩ := calls.returned caller returned
  obtain ⟨esp, first⟩ := calls.runs_narrow eip sel frame
  -- Behind the frame of 32 bits lie the saved registers and the return address.
  unfold frameBytes at frame
  rw [List.append_assoc] at frame
  have saved := frame.behind _
  have place : d.stackTop p.segments + 4 + BitVec.ofNat 32
      (operandBytes true (m.sel.es.setWidth 32) ++ (operandBytes true (m.sel.ds.setWidth 32) ++
        wordBytes (m.sel.ss ++ savedPointer p.segments m))).length =
          d.stackTop p.segments + 16 := BitVec.add_assoc _ _ _
  rw [place] at saved
  obtain ⟨n, esp', second, same, sp⟩ := calls.runs_restored
    (g := { leftMachine p.segments m d esp with
      sel := { m.sel with ss := original.ss }
      eip := BitVec.ofNat 32 (start + narrowStart original bridged.fn) })
    rfl rfl (low_withLow _ _) (low_withLow _ _) top saved
  refine ⟨n, first.trans second, ?_⟩
  rw [same]
  -- The function kept the upper halves of the registers whose lower ones were restored.
  have whole : ∀ (value kept : BitVec 32), value = kept → withLow value (low kept) = kept := by
    intro value kept eq
    rw [eq, withLow_low]
  exact {
    eip := rfl
    sel := rfl
    sp := sp
    bx := low_withLow _ _
    cx := low_withLow _ _
    dx := low_withLow _ _
    ebp := whole _ _ returned.ebp
    esi := whole _ _ returned.esi
    edi := whole _ _ returned.edi
    eax := rfl
    memory := rfl }
end Calls

end TwoIne
